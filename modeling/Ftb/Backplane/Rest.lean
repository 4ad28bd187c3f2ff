import Mathlib.Data.Multiset.DershowitzManna
import Mathlib.Algebra.BigOperators.Group.Finset.Piecewise
import Ftb.Backplane.Delivery

/-!
# The backplane comes to rest

An agent that handles a message sends nothing back where it came from, except to a new agent whose
registration it is. So messages move on through the tree and never turn back, and every delivery
replaces one of them by messages with less of the way before them (`deliver_lighter`): when the clients
are silent and no agent joins, only so many deliveries are possible, and then nothing is in flight
(`comes_to_rest`).
-/

open FTB FTBU FTBN FTBMI Trace

namespace Backplane

variable {ι : Type} {P : Places ι}

/-! ## Nothing goes back -/

section
variable {s : NodeInfo}

theorem away_of_propMsgs {t : MsgType} {event : Event} {incoming : LocationId} {out : Msg}
    (h : out ∈ propMsgs s t event incoming) :
    isEqualLocationId out.dst.locationId incoming = false := by
  obtain ⟨c, -, -, hl, rfl⟩ := mem_propMsgs.1 h
  exact hl

/-- On a subscription or a cancellation, nothing goes back. -/
theorem away_of_react {msg out : Msg}
    (ht : msg.msgType = .regSubscription ∨ msg.msgType = .subscriptionCancel)
    (h : out ∈ reactMsgs s msg) :
    isEqualLocationId out.dst.locationId msg.src.locationId = false := by
  unfold reactMsgs at h
  obtain ht | ht := ht
  · rw [ht] at h
    simp only [subscribeMsgs] at h
    split at h
    · exact away_of_propMsgs h
    · cases h
  · rw [ht] at h
    simp only at h
    obtain ⟨-, hm⟩ | ⟨t, i, mask, hi, -, -, -, -, -, hm⟩ := cancel_cases s msg.src msg.event
    · rw [hm] at h
      cases h
    · rw [hm] at h
      obtain ⟨he, -⟩ | ⟨event, -, he, -⟩ := removeMsgs_cases t i mask
      · rw [he] at h
        cases h
      · rw [he] at h
        rw [← KeyEq.congr_right (isEqualLocationId_of_ftbId hi)]
        exact away_of_propMsgs h

/-- On a registration, messages go to the agent that registers only. -/
theorem dst_of_register {msg out : Msg} (ht : msg.msgType = .clientReg)
    (h : out ∈ reactMsgs s msg) : out.dst = msg.src := by
  unfold reactMsgs at h
  rw [ht] at h
  simp only [registerMsgs] at h
  split at h
  · obtain ⟨ent, -, rfl⟩ := List.mem_map.1 h
    rfl
  · cases h

end

/-- The messages in flight say where they come from. -/
theorem src_of_chan {w : World ι} (h : Wired P w) {i j : ι} {msg : Msg} (hm : msg ∈ w.chan i j) :
    msg.src = P.agent i := by
  by_cases hadj : w.Adj i j
  · obtain hp | hp := hadj
    · obtain hk | hg := h.link i j hp
      · exact (hk.plainUp msg hm).1
      · obtain ⟨m, rest, hw, hs, -, hr⟩ := hg.first
        rw [hw] at hm
        obtain rfl | hm := List.mem_cons.1 hm
        · exact hs
        · exact (hr msg hm).1
    · obtain hk | hg := h.link j i hp
      · exact (hk.plainDown msg hm).1
      · rw [hg.silent] at hm
        cases hm
  · rw [h.away i j hadj] at hm
    cases hm

/-! ## The weight of what is in flight -/

/-- How far the message may go. -/
def weigh (rank : ι → ι → Nat) (i j : ι) (msg : Msg) : Nat :=
  if msg.msgType = .clientReg then rank i j + rank j i + 1 else rank i j

section
variable [DecidableEq ι] {w w' : World ι} {rank : ι → ι → Nat}

/-- What a turn on a message of control sends is lighter. -/
theorem lighter_react {b : World ι} {x i : ι} {msg : Msg} (hl : Live P w)
    (hrank : ∀ x y z, w.Adj x y → w.Adj y z → z ≠ x → rank y z < rank x y) (hx : x ∈ w.agents)
    (hadj : w.Adj i x) (harr : Arrives P w.hush x msg b) (hs : msg.src = P.agent i)
    (ht : msg.msgType = .clientReg ∨ msg.msgType = .regSubscription ∨
      msg.msgType = .subscriptionCancel) {j : ι} {m : Msg}
    (hm : m ∈ toward (P.loc j) (reactMsgs (w.nodes x).info msg)) :
    w.Adj x j ∧ weigh rank x j m < weigh rank i x msg := by
  have hxj : w.Adj x j := (neighbour_of_toward hl.good.wired.but hx harr hm).1.resolve_right id
  obtain ⟨hm, hloc⟩ := mem_toward.1 hm
  have hplain : weigh rank x j m = rank x j := by
    refine if_neg ?_
    obtain hreg | hcan := (spoken_react hm).type
    · rw [hreg]
      decide
    · rw [hcan]
      decide
  rw [hplain]
  obtain ht | ht := ht
  · have hj : isEqualLocationId (P.loc i) (P.loc j) = true := by
      rw [dst_of_register ht hm, hs] at hloc
      exact hloc
    obtain rfl := P.distinct i j hj
    refine ⟨hxj, ?_⟩
    rw [weigh, if_pos ht]
    omega
  · have hji : j ≠ i := by
      rintro rfl
      have haway := away_of_react ht hm
      rw [hs] at haway
      exact absurd (hloc.symm.trans haway) (by decide)
    have hw : weigh rank i x msg = rank i x := by
      refine if_neg ?_
      obtain ht | ht := ht <;> rw [ht] <;> decide
    rw [hw]
    exact ⟨hxj, hrank i x j hadj hxj hji⟩

/-- **A delivery replaces a message by lighter ones.** -/
theorem deliver_lighter (hl : Live P w)
    (hrank : ∀ x y z, w.Adj x y → w.Adj y z → z ≠ x → rank y z < rank x y) {i x : ι}
    (hd : w.deliver P i x = some w') :
    ∃ msg rest, ∃ new : ι → List Msg, w.chan i x = msg :: rest ∧ w.Adj i x ∧
      w'.agents = w.agents ∧ w'.parent = w.parent ∧
      (∀ k l, w'.chan k l =
        (if k = i ∧ l = x then rest else w.chan k l) ++ if k = x then new l else []) ∧
      ∀ j, ∀ m ∈ new j, w.Adj x j ∧ weigh rank x j m < weigh rank i x msg := by
  obtain ⟨y, msg, src, b, hx, ht, hcase⟩ | ⟨n, p, hc, -⟩ :=
    traffic_cases (c := .deliver i x) hl trivial hd
  · obtain ⟨rest, hw, hadj, rfl, rfl, rfl⟩ : ∃ rest, w.chan i x = msg :: rest ∧ w.Adj i x ∧
        y = x ∧ b = w.drain i x rest ∧ src = P.loc i := by
      cases ht with
      | taken _ rest hw hadj => exact ⟨rest, hw, hadj, rfl, rfl, rfl⟩
    have hadded : ∀ (new : ι → List Msg) k l, (if k = y then (w.drain i y rest).chan k l ++ new l
        else (w.drain i y rest).chan k l) =
        (if k = i ∧ l = y then rest else w.chan k l) ++ if k = y then new l else [] := by
      intro new k l
      split
      · rfl
      · exact (List.append_nil _).symm
    obtain ⟨hm, harr, rfl⟩ | ⟨hm, out, hf, rfl⟩ := hcase
    · have hmem : msg ∈ w.hush.chan i y := List.mem_filter.2 ⟨hw ▸ List.mem_cons_self, hm⟩
      exact ⟨msg, rest, _, hw, hadj, rfl, rfl, hadded _, fun j m hmj =>
        lighter_react hl hrank hx hadj harr (src_of_chan hl.good.wired hmem)
          (type_of_chan hl.good.wired hmem) hmj⟩
    · refine ⟨msg, rest, _, hw, hadj, rfl, rfl, hadded _, fun j m hmj => ?_⟩
      obtain ⟨hyj, hback⟩ := hf.adj hl hx (List.ne_nil_of_mem hmj)
      have hji : j ≠ i := by
        rintro rfl
        exact absurd ((KeyEq.refl (P.loc j)).symm.trans hback) (by decide)
      have hweigh : ∀ k l, ∀ m : Msg, m.msgType = .notify → weigh rank k l m = rank k l :=
        fun k l m ht => if_neg (by rw [ht]; decide)
      rw [hweigh i y msg hm, hweigh y j m (hf.carries m (mem_toward.1 hmj).1).1]
      exact ⟨hyj, hrank i y j hadj hyj hji⟩
  · cases hc

/-- The weights of the messages in flight. -/
def inFlight (rank : ι → ι → Nat) (w : World ι) : Multiset Nat :=
  ∑ e ∈ w.agents.toFinset ×ˢ w.agents.toFinset,
    ((w.chan e.1 e.2).map (weigh rank e.1 e.2) : Multiset Nat)

/-- A delivery makes them smaller. -/
theorem inFlight_lt (hl : Live P w)
    (hrank : ∀ x y z, w.Adj x y → w.Adj y z → z ≠ x → rank y z < rank x y) {i x : ι}
    (hd : w.deliver P i x = some w') :
    Multiset.IsDershowitzMannaLT (inFlight rank w') (inFlight rank w) := by
  obtain ⟨msg, rest, new, hw, hadj, hagents, -, hchan, hlight⟩ := deliver_lighter hl hrank hd
  obtain ⟨hi, hx, -⟩ := hl.good.wired.edge i x hadj
  have hmem : (i, x) ∈ w.agents.toFinset ×ˢ w.agents.toFinset :=
    Finset.mem_product.2 ⟨List.mem_toFinset.2 hi, List.mem_toFinset.2 hx⟩
  -- what is in flight before and after the turn of `x`, but for the message and what is sent
  let kept : Multiset Nat := ∑ e ∈ w.agents.toFinset ×ˢ w.agents.toFinset,
    ((if e.1 = i ∧ e.2 = x then rest else w.chan e.1 e.2).map (weigh rank e.1 e.2) : Multiset Nat)
  let added : Multiset Nat := ∑ e ∈ w.agents.toFinset ×ˢ w.agents.toFinset,
    ((if e.1 = x then new e.2 else []).map (weigh rank e.1 e.2) : Multiset Nat)
  refine ⟨kept, added, {weigh rank i x msg}, Multiset.singleton_ne_zero _, ?_, ?_, fun n hn => ?_⟩
  · unfold inFlight
    rw [hagents, ← Finset.sum_add_distrib]
    refine Finset.sum_congr rfl fun e _ => ?_
    rw [hchan, List.map_append, ← Multiset.coe_add]
  · have hone : ({weigh rank i x msg} : Multiset Nat) =
        ∑ e ∈ w.agents.toFinset ×ˢ w.agents.toFinset,
          if e = (i, x) then {weigh rank i x msg} else 0 := by
      rw [Finset.sum_ite_eq' _ (i, x) fun _ => ({weigh rank i x msg} : Multiset Nat), if_pos hmem]
    unfold inFlight
    rw [hone, ← Finset.sum_add_distrib]
    refine Finset.sum_congr rfl fun e _ => ?_
    by_cases he : e = (i, x)
    · subst he
      rw [if_pos rfl, if_pos ⟨rfl, rfl⟩, hw, List.map_cons, ← Multiset.cons_coe,
        ← Multiset.singleton_add, add_comm]
    · rw [if_neg he, if_neg fun hc => he (Prod.ext hc.1 hc.2), add_zero]
  · obtain ⟨e, -, hn⟩ := Multiset.mem_sum.1 hn
    obtain ⟨m, hm, rfl⟩ := List.mem_map.1 (Multiset.mem_coe.1 hn)
    split at hm
    · rename_i hex
      refine ⟨_, Multiset.mem_singleton_self _, ?_⟩
      rw [hex]
      exact (hlight e.2 m hm).2
    · cases hm

/-- **The backplane comes to rest.** In every reachable world there are only so many deliveries until
a client sends something or an agent joins, in whatever order they come, and when no delivery is
possible, nothing is in flight. -/
theorem comes_to_rest (hw : Busy P w) : ∃ n, ∀ links w', w.deliverAll P links = some w' →
    links.length ≤ n ∧ ((∀ i j, w'.deliver P i j = none) → Drained w') := by
  have hl := hw.live
  obtain ⟨rank, hrank⟩ : ∃ rank : ι → ι → Nat,
      ∀ x y z, w.Adj x y → w.Adj y z → z ≠ x → rank y z < rank x y := by
    by_cases hne : ∃ a, a ∈ w.agents
    · obtain ⟨a, ha⟩ := hne
      obtain ⟨up, d, hd⟩ := hl.good.wired.tree a ha
      exact hd.exists_rank fun i j hij =>
        ⟨(hl.good.wired.edge i j hij).1, (hl.good.wired.edge i j hij).2.1⟩
    · exact ⟨fun _ _ => 0, fun x y z hxy => absurd ⟨x, (hl.good.wired.edge x y hxy).1⟩ hne⟩
  -- the tree stays as it is, and so do the ranks
  let I : World ι → Prop := fun v => Live P v ∧ v.agents = w.agents ∧ v.parent = w.parent
  have hstep : ∀ v (l : ι × ι) v', I v → v.deliver P l.1 l.2 = some v' →
      I v' ∧ l ∈ w.agents.toFinset ×ˢ w.agents.toFinset ∧
        Multiset.IsDershowitzMannaLT (inFlight rank v') (inFlight rank v) := by
    intro v l v' ⟨hv, hagents, hparent⟩ hd
    have hadj : v.Adj = w.Adj := by
      unfold World.Adj
      rw [hparent]
    rw [← hadj] at hrank
    obtain ⟨msg, rest, new, -, hij, ha, hp, -⟩ := deliver_lighter hv hrank hd
    obtain ⟨hi, hj, -⟩ := hv.good.wired.edge l.1 l.2 hij
    rw [hush_agents, hagents] at hi hj
    exact ⟨⟨hv.act (c := .deliver l.1 l.2) trivial hd, ha.trans hagents, hp.trans hparent⟩,
      Finset.mem_product.2 ⟨List.mem_toFinset.2 hi, List.mem_toFinset.2 hj⟩,
      inFlight_lt hv hrank hd⟩
  obtain ⟨n, hn⟩ := length_bounded Multiset.wellFounded_isDershowitzMannaLT (inFlight rank) _ hstep
    ⟨hl, rfl, rfl⟩
  refine ⟨n, fun links w' hr => ⟨hn links w' hr, fun hnone i j => ?_⟩⟩
  have hlive : Live P w' := (foldlM_invariant (I := I)
    (fun v l v' hv hd => (hstep v l v' hv hd).1) links ⟨hl, rfl, rfl⟩ hr).1
  by_contra hne
  obtain ⟨w'', hd⟩ := hlive.deliver hne
  rw [hnone i j] at hd
  cases hd

end

/-- Two agents, with an event on its way. -/
theorem comes_to_rest_two : ∃ w, (start twoAgents false).run twoAgents (subscribed ++ publishing.take 4) =
    some w ∧ ∃ n, ∀ links w', w.deliverAll twoAgents links = some w' →
      links.length ≤ n ∧ ((∀ i j, w'.deliver twoAgents i j = none) → Drained w') := by
  have hrun : ((start twoAgents false).run twoAgents (subscribed ++ publishing.take 4)).isSome = true := by
    decide +kernel
  obtain ⟨w, hw⟩ := Option.isSome_iff_exists.1 hrun
  refine ⟨w, hw, comes_to_rest (Busy.run (.init ⟨false, rfl⟩) (fun c hc => ?_) hw)⟩
  obtain hc | hc := List.mem_append.1 hc
  · exact publishing_traffic.1 c hc
  · exact (publishing_traffic.2 c (List.mem_of_mem_take hc)).1

end Backplane
