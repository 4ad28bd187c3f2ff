import Mathlib.Data.Fintype.Basic
import Ftb.Backplane.Routing
import Ftb.Backplane.Proof.Survival

/-!
# Events after a lost parent

Once both ends of a lost link have been told and no registration, subscription or cancellation is in
flight, the agents form a tree of links whose ends know each other, and events go where they should
(`routing_repaired`), whatever happened meanwhile and in whatever order. The lost link carries nothing
of the event: only neighbours in the new tree have each other in `peers`.
-/

open FTB FTBU FTBN FTBMI Trace

namespace Backplane

variable {ι : Type} {P : Places ι}

section
variable [DecidableEq ι] {w w' : World ι} {s : System ι} {o : Outage ι} {msg : Msg} {a : ι}
  {up : ι → ι} {reached : List ι}

theorem cut_of_silent {i j : ι} (hij : w.chan i j = []) (hji : w.chan j i = []) :
    w.cut i j = w := by
  refine World.ext rfl rfl rfl ?_ rfl
  funext k l
  rw [chan_cut]
  split
  · rename_i hends
    obtain ⟨rfl, rfl⟩ | ⟨rfl, rfl⟩ := hends
    · exact hij.symm
    · exact hji.symm
  · rfl

/-- The event does not go over the lost link. -/
theorem Spread.cutAlong (hs : Spread P w msg a up reached w') (h : Wired P w)
    (ho : ¬w.Adj o.child o.parent) : w'.cutAlong (some o) = w' := by
  refine cut_of_silent ?_ ?_
  · by_contra hne
    exact ho (hs.front h hne).2.2.1
  · by_contra hne
    exact ho (hs.front h hne).2.2.1.symm

/-- So it is delivered as in a backplane that has lost nothing. -/
theorem Spread.deliverAll_system {d : ι → Nat} (h : Wired P w)
    (hr : Tree.Rooted w.Adj (· ∈ w.agents) a up d) (ho : ¬w.Adj o.child o.parent)
    (links : List (ι × ι)) {w₁ : World ι} {s₂ : System ι}
    (hs : Spread P w msg a up reached w₁)
    (hd : (⟨w₁, some o⟩ : System ι).deliverAll P links = some s₂) :
    ∃ w₂, s₂ = ⟨w₂, some o⟩ ∧ w₁.deliverAll P links = some w₂ := by
  induction links generalizing w₁ reached with
  | nil => exact ⟨w₁, (Option.some.inj hd).symm, rfl⟩
  | cons l links ih =>
    unfold System.deliverAll at hd
    rw [List.foldlM_cons] at hd
    obtain ⟨s', hs', hd⟩ := Option.bind_eq_some_iff.1 hd
    obtain ⟨w', hw', rfl⟩ := Option.map_eq_some_iff.1 hs'
    have hw' : w₁.deliver P l.1 l.2 = some w' := hw'
    have hne : w₁.chan l.1 l.2 ≠ [] := by
      intro hn
      unfold World.deliver at hw'
      rw [hn] at hw'
      cases hw'
    obtain ⟨w'', hw'', hspread⟩ := hs.deliver h hr hne
    obtain rfl : w' = w'' := Option.some.inj (hw'.symm.trans hw'')
    simp only [hspread.cutAlong h ho] at hd
    obtain ⟨w₂, rfl, hw₂⟩ := ih hspread hd
    refine ⟨w₂, rfl, ?_⟩
    unfold World.deliverAll
    rw [List.foldlM_cons, hw']
    exact hw₂

/-- **Routing is repaired after a lost parent.** An agent lost the link to its parent, both were told
and the agent found another parent, with everything else that a backplane does going on in any order.
When no registration, subscription or cancellation is in flight any more, an event that a client
publishes is sent as in a backplane that never lost a link. -/
theorem routing_repaired (h : Survived P s) (ho : s.outage = some o) (hc : o.childDue = false)
    (hp : o.parentDue = false) (hq : Quiet s.world) (ha : a ∈ s.world.agents)
    (ht : msg.msgType = .notify) (hs : P.IsClient msg.src) :
    ∃ s₁, s.step P (.act (.client a msg)) = some s₁ ∧
      ∀ links s₂, s₁.deliverAll P links = some s₂ →
        links.length < s.world.agents.length ∧
        (∀ i j, s₂.world.chan i j ≠ [] → ∃ s₃, s₂.step P (.act (.deliver i j)) = some s₃) ∧
        (Drained s₂.world → SentOnce P s.world s₂.world msg) := by
  obtain ⟨w, outage⟩ := s
  obtain rfl : outage = some o := ho
  have htorn : Torn P w o := h.sane
  have hg := htorn.good hc hp
  have hd := Quiet.drained hq hg.wired
  obtain ⟨up, d, hr⟩ := hg.wired.tree a ha
  obtain ⟨w₁, hw₁, hspread⟩ := spread_published hg.wired hd ha ht hs up
  have hstep : (⟨w, some o⟩ : System ι).step P (.act (.client a msg)) = some ⟨w₁, some o⟩ := by
    have hact : act P w (.client a msg) = some w₁ := hw₁
    simp only [System.step, hact, Option.map_some, hspread.cutAlong hg.wired htorn.apart]
  refine ⟨_, hstep, fun links s₂ hs₂ => ?_⟩
  obtain ⟨w₂, rfl, hw₂⟩ := Spread.deliverAll_system hg.wired hr htorn.apart links hspread hs₂
  obtain ⟨reached, hlen, hspread₂⟩ := hspread.deliverAll hg.wired hr links hw₂
  obtain ⟨hle, hdeliver, hsent⟩ := hspread₂.course hg hd hr
  rw [hlen, List.length_singleton] at hle
  show links.length < w.agents.length ∧ _
  refine ⟨by omega, fun i j hne => ?_, hsent⟩
  obtain ⟨w₃, hw₃⟩ := hdeliver i j hne
  have hact : act P w₂ (.deliver i j) = some w₃ := hw₃
  exact ⟨_, by simp only [System.step, hact, Option.map_some]; rfl⟩

theorem Survived.run (h : Survived P s) {moves : List (Move ι)}
    (hm : ∀ m ∈ moves, ∀ s, Allowed P s m) {s' : System ι} (hr : s.run P moves = some s') :
    Survived P s' := by
  induction moves generalizing s with
  | nil => exact Option.some.inj hr ▸ h
  | cons m moves ih =>
    unfold System.run at hr
    rw [List.foldlM_cons] at hr
    obtain ⟨t, ht, hr⟩ := Option.bind_eq_some_iff.1 hr
    exact ih (h.step ⟨m, hm m List.mem_cons_self s, ht⟩)
      (fun m' hm' => hm m' (List.mem_cons_of_mem m hm')) hr

end

/-! ## Three agents -/

/-- Three agents, with the process ids 1, 2 and 3. -/
def threeAgents : Places (Fin 3) where
  loc i := ⟨[], [], i + 1⟩
  distinct := by decide
  pid := by decide

/-- Two agents join, one below the other, and a client subscribes at the last; then that one loses its
parent. -/
def untilLoss : List (Move (Fin 3)) :=
  [.act (.join 1 0), .act (.deliver 1 0), .act (.join 2 1), .act (.deliver 2 1),
    .act (.client 2 (fromClient 8 .clientReg)), .act (.client 2 (fromClient 8 .regSubscription)),
    .act (.deliver 2 1), .act (.deliver 1 0), .lose 2]

/-- It has attached to the first agent. Another client subscribes at the lost parent, which is told last. -/
def untilQuiet : List (Move (Fin 3)) :=
  [.act (.client 1 (fromClient 9 .clientReg)), .act (.client 1 (fromClient 9 .regSubscription)),
    .act (.deliver 2 0), .cleanParent, .act (.deliver 2 0), .act (.deliver 1 0),
    .act (.deliver 0 2), .act (.deliver 0 1)]

/-- The event is published at the parent that was lost. -/
theorem routing_repaired_three : ∃ t t' s s₁ : System (Fin 3),
    (⟨start threeAgents 0, none⟩ : System (Fin 3)).run threeAgents untilLoss = some t ∧
    t.step threeAgents (.cleanChild 0) = some t' ∧ t'.run threeAgents untilQuiet = some s ∧
    s.step threeAgents (.act (.client 1 (fromClient 9 .notify))) = some s₁ ∧
    ∀ links s₂, s₁.deliverAll threeAgents links = some s₂ →
      links.length < s.world.agents.length ∧
      (∀ i j, s₂.world.chan i j ≠ [] →
        ∃ s₃, s₂.step threeAgents (.act (.deliver i j)) = some s₃) ∧
      (Drained s₂.world → SentOnce threeAgents s.world s₂.world (fromClient 9 .notify)) := by
  have hrun : ((⟨start threeAgents 0, none⟩ : System (Fin 3)).run threeAgents untilLoss).any
      (fun t => decide (0 ∈ t.world.agents ∧ t.world.parent 0 = none) &&
        t.outage.any (fun o => decide (o.child = 2 ∧ o.parent = 1)) &&
        (t.step threeAgents (.cleanChild 0)).any fun t' =>
          (t'.run threeAgents untilQuiet).any fun s =>
            decide (1 ∈ s.world.agents ∧ ∀ i j, s.world.chan i j = []) &&
              s.outage.any fun o => !o.childDue && !o.parentDue) = true := by
    decide +kernel
  obtain ⟨t, ht, hrun⟩ := (Option.any_eq_true ..).1 hrun
  rw [Bool.and_eq_true, Bool.and_eq_true] at hrun
  obtain ⟨⟨htop, hlost⟩, hrun⟩ := hrun
  obtain ⟨hzero, htop⟩ := of_decide_eq_true htop
  obtain ⟨t', ht', hrun⟩ := (Option.any_eq_true ..).1 hrun
  obtain ⟨s, hs, hrun⟩ := (Option.any_eq_true ..).1 hrun
  rw [Bool.and_eq_true] at hrun
  obtain ⟨hend, hdone⟩ := hrun
  obtain ⟨hone, hd⟩ := of_decide_eq_true hend
  obtain ⟨o, ho, hdone⟩ := (Option.any_eq_true ..).1 hdone
  rw [Bool.and_eq_true, Bool.not_eq_true', Bool.not_eq_true'] at hdone
  have hsurvived : Survived threeAgents t := by
    refine Survived.run (.init ⟨0, rfl⟩) (fun m hm s => ?_) ht
    simp only [untilLoss, List.mem_cons, List.not_mem_nil, or_false] at hm
    obtain rfl | rfl | rfl | rfl | rfl | rfl | rfl | rfl | rfl := hm <;> trivial
  -- the first agent has no parent, so it does not lie below the other
  have hallowed : Allowed threeAgents t (.cleanChild 0) := by
    intro o' ho'
    rw [ho', Option.any_some, decide_eq_true_iff] at hlost
    obtain ⟨hchild, hparent⟩ := hlost
    refine ⟨hzero, by rw [hparent]; decide, fun hbelow => ?_⟩
    rw [hchild] at hbelow
    obtain he | ⟨z, hz, -⟩ := hbelow.cases_head
    · exact absurd he (by decide)
    · rw [htop] at hz
      cases hz
  have hreached : Survived threeAgents s := by
    refine Survived.run (hsurvived.step ⟨_, hallowed, ht'⟩) (fun m hm s => ?_) hs
    simp only [untilQuiet, List.mem_cons, List.not_mem_nil, or_false] at hm
    obtain rfl | rfl | rfl | rfl | rfl | rfl | rfl | rfl := hm <;> trivial
  have hquiet : Quiet s.world := fun i j msg hm => by
    rw [hd i j] at hm
    cases hm
  have hpublisher : threeAgents.IsClient (fromClient 9 .notify).src := ⟨by decide, by decide⟩
  obtain ⟨s₁, h⟩ := routing_repaired hreached ho hdone.1 hdone.2 hquiet hone rfl hpublisher
  exact ⟨t, t', s, s₁, ht, ht', hs, h⟩

end Backplane
