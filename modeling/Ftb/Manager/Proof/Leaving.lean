import Ftb.Manager.Proof.Joining

/-!
# Components that go

A component that is dropped is cleaned, taken out of `peers` and freed, in `FTBM_Client_deregister`,
in a failed `FTBM_Send` and in `FTBM_Cleanup_connection`.
-/

open FTB FTBU FTBN FTBMI Layout

namespace FTBM.Memory

variable {N : Type} {w : Network N} {A : Allocator Block} {L : Owner → Nat} {s : NodeInfo}
  {lost : Nat} {scratch : Nat → Option Block} {a : Image N}

theorem erase_peer (h : HoldsAt L s lost scratch a) (hi : Inv s) {c : CompInfo}
    (hc : c ∈ s.peers.nodes) :
    (s.peers.nodes.map fun c => compNode L c.addr).erase (compNode L c.addr) =
      (s.peers.erase c.id).nodes.map fun c => compNode L c.addr := by
  refine erase_map (fun c : CompInfo => compNode L c.addr) (KeyList.find?_of_mem hc) fun d hd he => ?_
  have hod := (owns_peer L lost scratch hi.addrs hd).comp
  have hoc := (owns_peer L lost scratch hi.addrs hc).comp
  have ho : (Sum.inr (.comp d.addr) : Owner) = .inr (.comp c.addr) :=
    h.laid.apart _ _ (by simp [blocks, hod]) (by simp [blocks, hoc]) (congrArg Node.key he)
  have haddr : d.addr = c.addr := by simpa using ho
  rw [haddr, hoc] at hod
  obtain ⟨hid, -⟩ := Block.comp.inj (Option.some.inj hod)
  exact KeyList.eq_of_mem hd hc (by rw [hid]; exact KeyEq.refl _)

/-- **A component is dropped.** Its node is found by its id, and by itself. -/
theorem HoldsAt.leave (h : HoldsAt L s lost scratch a) (hi : Inv s) {c : CompInfo}
    (hc : c ∈ s.peers.nodes) :
    ∃ set h₁ h₂ h₃, utilCleanComponent w (L (.inr (.comp c.addr))) a = some { a with
        heap := h₁, net := w.sendAll (dropMsgs c.id c.catchEventSet.nodes s) a.net } ∧
      compAt h₁ (L (.inr (.comp c.addr))) = some (c.id, set) ∧
      mapRemoveKey (compEq h₁ (L (.inr (.comp c.addr)))) a.peers h₁ = some (.success, h₂) ∧
      mapRemoveNode a.peers (compNode L c.addr) h₁ = some h₂ ∧
      h₂.free (L (.inr (.comp c.addr))) = some h₃ ∧
      HoldsAt L (dropComp s c) lost scratch { a with heap := h₃ } := by
  have ho := owns_peer L lost scratch hi.addrs hc
  obtain ⟨h₁, hclean, hl₁⟩ := (h.sees hi).clean (w := w) (reads_tables _ _ _ hi) ho
  have hcomp : compAt h₁ (L (.inr (.comp c.addr))) = some (c.id, _) :=
    compAt_of hl₁ (o := (.inr (.comp c.addr) : Owner)) ho.comp
  have htable : mapAt h₁ a.peers = some (s.peers.nodes.map fun c => compNode L c.addr) := by
    rw [← h.peers]
    exact mapAt_of hl₁ (o := (.inr .table : Owner)) rfl
  have hfind := find_peer hl₁ (h.sees hi).comps (compEq h₁ (L (.inr (.comp c.addr))))
    c.id fun key k set hk => by simp [compEq, hk, hcomp]
  rw [show s.peers.find? c.id = some c from KeyList.find?_of_mem hc] at hfind
  obtain ⟨h₂, hstore, hl₂⟩ := store_inr hl₁ (o := .table)
    (b := .map (s.peers.nodes.map fun c => compNode L c.addr)) rfl
    (.map ((s.peers.erase c.id).nodes.map fun c => compNode L c.addr))
  rw [h.peers, ← erase_peer h hi hc] at hstore
  obtain ⟨h₃, hfree, hl₃⟩ := free_inr hl₂ (o := .comp c.addr) (b := .comp c.id _) (by
    rw [Function.update_of_ne (by simp)]
    exact ho.comp)
  rw [← peerBlocks_erase hi.addrs hc] at hl₃
  refine ⟨_, h₁, h₂, h₃, hclean, hcomp, mapRemoveKey_some htable hfind hstore, ?_, hfree, hl₃, h.peers,
    h.catchMap, h.parent, h.self, h.errHandling, h.initialized, h.lostSets⟩
  simp [mapRemoveNode, htable, hstore]

/-! ## `FTBM_Client_deregister` -/

theorem clientDeregister_run (h : HoldsAt L s lost scratch a) (hi : Inv s) (hr : s.ready = true)
    (id : Id) :
    ∃ lost' ret a', clientDeregister w A id a = some (ret, a') ∧
      Follows lost' scratch (FTBM.clientDeregister w id ⟨s, a.net⟩).2 a' := by
  obtain ⟨hinit, hleaf⟩ := NodeInfo.ready_iff.1 hr
  have hinit' : a.initialized = true := h.initialized.trans hinit
  have hlook := h.lookup hi id
  unfold clientDeregister FTBM.clientDeregister
  rw [ready_guard, if_pos hr, if_neg (by simp [hinit'])]
  cases hf : s.peers.find? id with
  | none =>
    rw [hf] at hlook
    refine ⟨lost, .errInvalidParameter, a, ?_, ⟨L, h⟩, rfl⟩
    simp only [hlook, Option.map_none, Option.bind_eq_bind, Option.bind_some]
    rfl
  | some c =>
    rw [hf] at hlook
    obtain ⟨hc, -⟩ := KeyList.mem_of_find? hf
    obtain ⟨set, h₁, h₂, h₃, hclean, hcomp, hrem, -, hfree, hh⟩ := h.leave (w := w) hi hc
    simp only [hlook, Option.map_some, Option.bind_eq_bind, Option.bind_some, hclean, hcomp]
    simp only [utilCleanComponent_eq]
    generalize w.sendAll (dropMsgs c.id c.catchEventSet.nodes s) a.net = net
    cases hm : isManagerName c.id with
    | false =>
      simp only [Bool.false_eq_true, if_false, hrem, Option.bind_some, hfree, Bool.false_and]
      exact ⟨lost, .success, { a with heap := h₃, net }, rfl, ⟨L, hh.withNet net⟩, rfl⟩
    | true =>
      simp only [if_true, hrem, Option.bind_some, hfree, Bool.true_and, h.parent, h.errHandling]
      generalize (w.disconnectPeer c.id.locationId net).2 = net'
      split
      · obtain ⟨a', hrun, hf'⟩ := utilReconnect_run (w := w) (A := A)
          (hh.withNet net') (hi.dropComp hc) hleaf
        simp only [h.parent, h.errHandling] at hrun
        exact ⟨_, .success, a', by rw [hrun]; rfl, hf'.follows⟩
      · refine ⟨lost, .success, { a with heap := h₃, net := net' }, ?_, ⟨L, hh.withNet net'⟩, rfl⟩
        rw [h.parent, h.errHandling]
        rfl

/-! ## `FTBM_Send` -/

/-- The end of the functions that reconnect when the parent was dropped. -/
theorem rejoin_run {α : Type} (h : HoldsAt L s lost scratch a) (hi : Inv s) (hl : s.leaf = false)
    (location : LocationId) (ret : α) :
    ∃ lost' a', (if isEqualLocationId a.parent location = true then
          (utilReconnect w A a).bind fun a => some (ret, a)
        else some (ret, a)) = some (ret, a') ∧
      Keeps (fun k => L (.inr (.scratch k))) lost' scratch (if isEqualLocationId s.parent location = true then
        FTBMI.utilReconnect w ⟨s, a.net⟩ else ⟨s, a.net⟩) a' := by
  rw [h.parent]
  split
  · obtain ⟨a', hrun, hfol⟩ := utilReconnect_run (w := w) (A := A) h hi hl
    exact ⟨_, a', by rw [hrun]; rfl, hfol⟩
  · exact ⟨lost, a, rfl, ⟨L, h, fun _ => rfl⟩, rfl⟩

/-- A send has a value where the send of the manager has one, and goes on as that does. -/
theorem send_run (h : HoldsAt L s lost scratch a) (hi : Inv s) (hr : s.ready = true) (msg : Msg) :
    FTBM.send w msg ⟨s, a.net⟩ = none ∧ send w A msg a = none ∨
      ∃ lost' ret m' a', FTBM.send w msg ⟨s, a.net⟩ = some (ret, m') ∧
        send w A msg a = some (ret, a') ∧
        Keeps (fun k => L (.inr (.scratch k))) lost' scratch m' a' := by
  obtain ⟨hinit, hleaf⟩ := NodeInfo.ready_iff.1 hr
  have hinit' : a.initialized = true := h.initialized.trans hinit
  by_cases hret : (w.sendMsg msg a.net).1 = .success
  · refine .inr ⟨lost, .success, _, { a with net := (w.sendMsg msg a.net).2 },
      send_of_success w hinit hret, ?_, ⟨L, h.withNet _, fun _ => rfl⟩, rfl⟩
    unfold send
    rw [if_neg (by simp [hinit'])]
    dsimp only
    rw [if_pos hret, hret]
    rfl
  · have hlook := h.lookup hi msg.dst
    rw [send_of_failure w hinit hleaf hret]
    unfold send
    rw [if_neg (by simp [hinit'])]
    dsimp only
    rw [if_neg hret]
    have hlook' : lookupComponent msg.dst { a with net := (w.sendMsg msg a.net).2 } = _ := hlook
    cases hf : s.peers.find? msg.dst with
    | none =>
      rw [hf] at hlook'
      refine .inl ⟨rfl, ?_⟩
      simp only [hlook', Option.map_none, Option.bind_eq_bind, Option.bind_some]
    | some c =>
      rw [hf] at hlook'
      obtain ⟨hc, -⟩ := KeyList.mem_of_find? hf
      obtain ⟨set, h₁, h₂, h₃, hclean, hcomp, hrem, -, hfree, hh⟩ :=
        (h.withNet (w.sendMsg msg a.net).2).leave (w := w) hi hc
      simp only [hlook', Option.map_some, Option.bind_eq_bind, Option.bind_some, hclean, hcomp]
      unfold dropNet
      generalize w.sendAll (dropMsgs c.id c.catchEventSet.nodes s) (w.sendMsg msg a.net).2 = net
      cases hm : isManagerNameCase c.id with
      | false =>
        simp only [Bool.false_eq_true, if_false, hrem, Option.bind_some, hfree]
        obtain ⟨lost', a', hrun, hfol⟩  := rejoin_run (w := w) (A := A)
          (hh.withNet net) (hi.dropComp hc) hleaf msg.dst.locationId (w.sendMsg msg a.net).1
        exact .inr ⟨lost', _, _, a', rfl, hrun, hfol⟩
      | true =>
        simp only [if_true, hrem, Option.bind_some, hfree]
        obtain ⟨lost', a', hrun, hfol⟩ := rejoin_run (w := w) (A := A)
          (hh.withNet (w.disconnectPeer c.id.locationId net).2) (hi.dropComp hc) hleaf
          msg.dst.locationId (w.sendMsg msg a.net).1
        exact .inr ⟨lost', _, _, a', rfl, hrun, hfol⟩

/-! ## `FTBM_Cleanup_connection` -/

theorem cleanupLoop_run (location : LocationId) :
    ∀ (comps : List CompInfo) (count : Nat) {s : NodeInfo} {a : Image N},
      HoldsAt L s lost scratch a → Inv s → comps.Pairwise (fun c d => isEqualFtbId c.id d.id = false) →
      (∀ c ∈ comps, c ∈ s.peers.nodes) →
      ∃ h' count', cleanupLoop w location (comps.map fun c => compNode L c.addr) count a =
          some ({ a with heap := h', net := w.sendAll (sweepMsgs location comps s) a.net }, count') ∧
        HoldsAt L (comps.foldl (fun s comp =>
          if isEqualLocationId location comp.id.locationId then dropComp s comp else s) s) lost scratch
          { a with heap := h' }
  | [], count, _, a, h, _, _, _ => ⟨a.heap, count, rfl, h⟩
  | c :: comps, count, s, a, h, hi, hd, hsub => by
    obtain ⟨hdc, hd⟩ := List.pairwise_cons.1 hd
    have hc : c ∈ s.peers.nodes := hsub c List.mem_cons_self
    have hread : compAt a.heap (compNode L c.addr).data = _ :=
      compAt_of h.laid (o := (.inr (.comp c.addr) : Owner))
        (owns_peer L lost scratch hi.addrs hc).comp
    rw [List.map_cons, Memory.cleanupLoop, List.foldl_cons, sweepMsgs]
    simp only [hread, Option.bind_eq_bind, Option.bind_some]
    cases hloc : isEqualLocationId location c.id.locationId with
    | true =>
      obtain ⟨set, h₁, h₂, h₃, hclean, -, -, hrem, hfree, hh⟩ := h.leave (w := w) hi hc
      have hclean' : utilCleanComponent w (compNode L c.addr).data a = _ := hclean
      have hfree' : h₂.free (compNode L c.addr).data = some h₃ := hfree
      have hsub' : ∀ d ∈ comps, d ∈ (dropComp s c).peers.nodes := fun d hd' =>
        KeyList.mem_erase.2 ⟨hsub d (List.mem_cons_of_mem _ hd'),
          by rw [KeyEq.comm isEqualFtbId]; exact hdc d hd'⟩
      obtain ⟨h', count', hloop, hh'⟩ := cleanupLoop_run location comps (count + 1)
        (hh.withNet (w.sendAll (dropMsgs c.id c.catchEventSet.nodes s) a.net)) (hi.dropComp hc) hd hsub'
      refine ⟨h', count', ?_, hh'.withNet a.net⟩
      simp only [if_true, hclean', hrem, hfree', Option.bind_some, hloop, sendAll_append]
    | false =>
      obtain ⟨h', count', hloop, hh'⟩ := cleanupLoop_run location comps count h hi hd fun d hd' =>
        hsub d (List.mem_cons_of_mem _ hd')
      exact ⟨h', count', by simpa using hloop, hh'⟩

theorem cleanupConnection_run (h : HoldsAt L s lost scratch a) (hi : Inv s) (hr : s.ready = true)
    (location : LocationId) :
    ∃ lost' ret a', cleanupConnection w A location a = some (ret, a') ∧
      Follows lost' scratch (FTBM.cleanupConnection w location ⟨s, a.net⟩).2 a' := by
  obtain ⟨hinit, hleaf⟩ := NodeInfo.ready_iff.1 hr
  have hinit' : a.initialized = true := h.initialized.trans hinit
  rw [cleanupConnection_eq w location (a := ⟨s, a.net⟩) hinit]
  have hmem : ∀ c ∈ s.peers.nodes, c ∈ s.peers.nodes := fun _ hc => hc
  obtain ⟨h', count, hloop, hh⟩ := cleanupLoop_run (w := w) location s.peers.nodes 0 h hi
    s.peers.distinct hmem
  have hswept : Inv (cleanupInfo s location) :=
    (hi.foldl_dropComp location s.peers.distinct hmem).1
  have hleaf' : (cleanupInfo s location).leaf = false := (frame_cleanupInfo s location).leaf.trans hleaf
  obtain ⟨lost', a', hrun, hfol⟩ := rejoin_run (w := w) (A := A)
    (hh.withNet (w.sendAll (sweepMsgs location s.peers.nodes s) a.net)) hswept hleaf' location
    (if count > 0 then Ret.success else .errGeneral)
  refine ⟨lost', if count > 0 then .success else .errGeneral, a', ?_, hfol.follows⟩
  unfold cleanupConnection
  rw [if_neg (by simp [hinit']), h.table]
  simp only [Option.bind_eq_bind, Option.bind_some, hloop]
  exact hrun

end FTBM.Memory
