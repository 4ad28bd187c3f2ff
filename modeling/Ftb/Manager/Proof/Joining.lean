import Ftb.Manager.Proof.Following

/-!
# Components that come

`FTBM_Client_register`, `FTBMI_util_reconnect` and `FTBM_Init` allocate a component and insert it
into `peers`. If its id is there already, they free it again, and `FTBMI_util_reconnect` loses its set.
-/

open FTB FTBU FTBN FTBMI Layout

namespace FTBM.Memory

variable {N : Type} {w : Network N} {A : Allocator Block} {L : Owner → Nat} {s : NodeInfo}
  {lost : Nat} {scratch : Nat → Option Block} {a : Image N}

/-- A component that is in `peers` already. Its set can be taken to be for any owner. -/
theorem HoldsAt.oldPeer (h : HoldsAt L s lost scratch a) (hi : Inv s) {id : Id}
    (hc : s.peers.contains id = true) (os : PeerOwner)
    (hs : peerBlocks L s.peers lost scratch os = none) (hne : os ≠ .comp s.nextAddr) :
    ∃ comp set h₁ h₂ L', newComponent A id a.heap = some (comp, set, h₁) ∧
      mapInsert (compEq h₁ comp) a.peers ⟨comp, comp⟩ h₁ = some (.exist, h₁) ∧
      h₁.free comp = some h₂ ∧ L' (.inr os) = set ∧ L' (.inr .table) = a.peers ∧
      L' (.inl .table) = a.catchEventMap ∧
      (∀ o, o ≠ .inr (.comp s.nextAddr) → o ≠ .inr os → L' o = L o) ∧ compAt h₁ comp = some (id, set) ∧
      mapAt h₁ set = some [] ∧ L' (.inr (.comp s.nextAddr)) = comp ∧
      Laid (Sum.elim (catchBlocks L' s.catchEventMap) (Function.update (Function.update
        (peerBlocks L' s.peers lost scratch) (.comp s.nextAddr) (some (.comp id set))) os
        (some (.map [])))) L' h₁ ∧
      Laid (Sum.elim (catchBlocks L' s.catchEventMap) (Function.update
        (peerBlocks L' s.peers lost scratch) os (some (.map [])))) L' h₂ := by
  have hnone : ∀ L', peerBlocks L' s.peers lost scratch (.comp s.nextAddr) = none := by
    intro L'
    simp [peerBlocks, peerOf_next hi]
  obtain ⟨comp, set, h₁, L', hrun, hcomp, hset, htable, hcatch, hself, hl, hmap, hfind⟩ :=
    h.allocate (A := A) hi id hs hne
  rw [KeyList.contains_eq_isSome] at hc
  obtain ⟨c, hf⟩ := Option.isSome_iff_exists.1 hc
  rw [hf] at hfind
  obtain ⟨h₂, hfree, hl₂⟩ := free_inr hl (o := .comp s.nextAddr) (b := .comp id set)
    (by simp [Function.update_of_ne hne.symm])
  rw [Function.update_comm hne.symm, Function.update_idem,
    (Function.update_eq_iff.2 ⟨by simp [Function.update_of_ne hne.symm, hnone L'], fun _ _ => rfl⟩ :
      Function.update (Function.update (peerBlocks L' s.peers lost scratch) os (some (.map [])))
        (.comp s.nextAddr) none = _)] at hl₂
  rw [hcomp] at hfree
  refine ⟨comp, set, h₁, h₂, L', hrun, mapInsert_exist hmap hfind, hfree, hset, htable, hcatch, hself,
    ?_, ?_, hcomp, hl, hl₂⟩
  · rw [← hcomp]
    exact compAt_of hl (o := (.inr (.comp s.nextAddr) : Owner)) (by simp [Function.update_of_ne hne.symm])
  · rw [← hset]
    exact mapAt_of hl (o := (.inr os : Owner)) (by simp)

/-- `FTBM_Client_register` frees the set and the component again. -/
theorem HoldsAt.oldPeerSet (h : HoldsAt L s lost scratch a) (hi : Inv s) {id : Id}
    (hc : s.peers.contains id = true) :
    ∃ comp set h₁, newComponent A id a.heap = some (comp, set, h₁) ∧
      mapInsert (compEq h₁ comp) a.peers ⟨comp, comp⟩ h₁ = some (.exist, h₁) ∧
      ∃ L' h₂ h₃, mapFinalize set h₁ = some h₂ ∧ h₂.free comp = some h₃ ∧
        HoldsAt L' (registerInfo s id) lost scratch { a with heap := h₃ } := by
  have hn := peerOf_next hi
  obtain ⟨comp, set, h₁, -, L', hrun, hins, -, hset, htable, hcatch, hself, -, hmap, hcomp, hl, -⟩ :=
    h.oldPeer (A := A) hi hc (.set s.nextAddr) (by simp [peerBlocks, hn]) (by simp)
  obtain ⟨h₂, hfree₂, hl₂⟩ := free_inr hl (o := .set s.nextAddr) (Function.update_self ..)
  obtain ⟨h₃, hfree₃, hl₃⟩ := free_inr hl₂ (o := .comp s.nextAddr) (b := .comp id set) (by simp)
  have hback : Function.update (Function.update (Function.update (Function.update
      (peerBlocks L' s.peers lost scratch) (.comp s.nextAddr) (some (.comp id set)))
      (.set s.nextAddr) (some (.map []))) (.set s.nextAddr) none) (.comp s.nextAddr) none =
      peerBlocks L' s.peers lost scratch := by
    funext o
    by_cases hoc : o = .comp s.nextAddr
    · simp [hoc, peerBlocks, hn]
    · by_cases hos : o = .set s.nextAddr
      · simp [hos, peerBlocks, hn]
      · simp [Function.update_of_ne hoc, Function.update_of_ne hos]
  rw [hback] at hl₃
  rw [hset] at hfree₂
  rw [hcomp] at hfree₃
  refine ⟨comp, set, h₁, hrun, hins, L', h₂, h₃, by simp [mapFinalize, hmap, hfree₂], hfree₃, ?_⟩
  rw [registerInfo_of_contains hc]
  exact ⟨hl₃, htable, hcatch, h.parent, h.self, h.errHandling, h.initialized,
    h.lostSets_at fun _ => hself _ (by simp) (by simp)⟩

/-! ## `FTBM_Client_register` -/

theorem clientRegister_run (h : HoldsAt L s lost scratch a) (hi : Inv s) (hr : s.ready = true)
    (id : Id) :
    ∃ ret a', clientRegister w A id a = some (ret, a') ∧
      Follows lost scratch ⟨registerInfo s id, w.sendAll (registerMsgs s id) a.net⟩ a' := by
  have hinit : a.initialized = true := h.initialized.trans (NodeInfo.ready_iff.1 hr).1
  unfold registerMsgs NodeInfo.isPeer
  cases hc : s.peers.contains id with
  | true =>
    obtain ⟨comp, set, h₁, hrun, hins, L', h₂, h₃, hfin, hfree, hh⟩ :=
      h.oldPeerSet (A := A) hi hc
    refine ⟨.errInvalidParameter, { a with heap := h₃ }, ?_, ⟨L', hh⟩, rfl⟩
    simp [clientRegister, hinit, hrun, hins, hfin, hfree]
  | false =>
    obtain ⟨comp, set, h₁, h₂, L', hrun, hins, hh, -⟩ := h.newPeer (A := A) hi hc
    cases ha : isAgent id with
    | true =>
      have hsend := hh.sendCatches (w := w) id
      refine ⟨.success, { a with heap := h₂, net := w.sendAll (greetMsgs s id) a.net }, ?_,
        ⟨L', hh.withNet _⟩, rfl⟩
      unfold clientRegister
      rw [if_neg (by simp [hinit])]
      simp only [hrun, hins, ha, hsend, Option.bind_eq_bind, Option.bind_some, reduceCtorEq, if_false,
        if_true]
      rfl
    | false =>
      refine ⟨.success, { a with heap := h₂ }, ?_, ⟨L', hh⟩, rfl⟩
      simp [clientRegister, hinit, hrun, hins, ha]

/-! ## `FTBMI_util_reconnect` -/

/-- One more empty map that nothing points to. -/
theorem peerBlocks_lost {peers : Peers} :
    Function.update (peerBlocks L peers lost scratch) (.lost lost) (some (.map [])) =
      peerBlocks L peers (lost + 1) scratch := by
  funext o
  cases o with
  | lost k =>
    by_cases hk : k = lost
    · simp [hk, peerBlocks]
    · have hle : k < lost + 1 ↔ k < lost := by omega
      rw [Function.update_of_ne (by simpa using hk)]
      simp [peerBlocks, hle]
  | table => simp [peerBlocks]
  | comp n => simp [peerBlocks]
  | set n => simp [peerBlocks]
  | mask n m => simp [peerBlocks]
  | scratch k => simp [peerBlocks]

/-- `FTBMI_util_reconnect` loses the set of a component that is in `peers` already. -/
theorem HoldsAt.oldPeerLost (h : HoldsAt L s lost scratch a) (hi : Inv s) {id : Id}
    (hc : s.peers.contains id = true) :
    ∃ comp set h₁ L' h₂, newComponent A id a.heap = some (comp, set, h₁) ∧
      mapInsert (compEq h₁ comp) a.peers ⟨comp, comp⟩ h₁ = some (.exist, h₁) ∧
      h₁.free comp = some h₂ ∧ HoldsAt L' (registerInfo s id) (lost + 1) scratch
        { a with heap := h₂, lostSets := a.lostSets ++ [set] } ∧
      ∀ k, L' (.inr (.scratch k)) = L (.inr (.scratch k)) := by
  obtain ⟨comp, set, h₁, h₂, L', hrun, hins, hfree, hset, htable, hcatch, hself, -, -, -, -, hl⟩ :=
    h.oldPeer (A := A) hi hc (.lost lost) (by simp [peerBlocks]) (by simp)
  rw [peerBlocks_lost] at hl
  refine ⟨comp, set, h₁, L', h₂, hrun, hins, hfree, ?_, fun _ => hself _ (by simp) (by simp)⟩
  rw [registerInfo_of_contains hc]
  refine ⟨hl, htable, hcatch, h.parent, h.self, h.errHandling, h.initialized, ?_⟩
  rw [List.range_succ, List.map_append, List.map_singleton, hset, h.lostSets]
  refine congrArg (· ++ [set]) (List.map_congr_left fun k hk => ?_)
  have hne : k ≠ lost := Nat.ne_of_lt (List.mem_range.1 hk)
  exact (hself _ (by simp) (by simpa using hne)).symm

/-- `FTBMI_util_reconnect` finds a parent that is in `peers` already. -/
def FindsPeer (w : Network N) (m : Manager N) : Prop :=
  (reconnectResult w m).2.1.pid ≠ 0 ∧
    m.info.peers.contains (agentId (reconnectResult w m).2.1) = true

instance (m : Manager N) : Decidable (FindsPeer w m) := inferInstanceAs (Decidable (_ ∧ _))

/-- A set is lost exactly when the parent that is found is in `peers` already. -/
theorem utilReconnect_run (h : HoldsAt L s lost scratch a) (hi : Inv s) (hl : s.leaf = false) :
    ∃ a', utilReconnect w A a = some a' ∧ Keeps (fun k => L (.inr (.scratch k)))
      (lost + if FindsPeer w ⟨s, a.net⟩ then 1 else 0) scratch
      (FTBMI.utilReconnect w ⟨s, a.net⟩) a' := by
  obtain ⟨⟨ret, parent, net⟩, hr⟩ : ∃ r, reconnectResult w ⟨s, a.net⟩ = r := ⟨_, rfl⟩
  have hfind : FindsPeer w ⟨s, a.net⟩ ↔
      parent.pid ≠ 0 ∧ s.peers.contains (agentId parent) = true := by
    unfold FindsPeer
    rw [hr]
  rw [utilReconnect_eq, hr]
  simp only [hfind]
  have hres : w.connect { msgType := .clientReg, src := a.self, dst := default, event := default }
      a.parent a.net = (ret, parent, net) := by
    rw [h.self, h.parent]
    exact hr
  have hh : HoldsAt L { s with parent } lost scratch { a with parent, net } :=
    ⟨h.laid, h.peers, h.catchMap, rfl, h.self, h.errHandling, h.initialized, h.lostSets⟩
  have hi' : Inv { s with parent } := ⟨hi.noEmpty, hi.held, hi.sync, hi.fresh, hi.addrs⟩
  by_cases hp : parent.pid = 0
  · refine ⟨{ a with parent, net }, by simp [utilReconnect, hres, hp], ⟨L, ?_, fun _ => rfl⟩, ?_⟩
    · simpa [attachInfo, hl, hp] using hh
    · simp [attachMsgs, hp, sendAll_nil]
  · obtain ⟨hinfo, hmsgs⟩ := attach_found hl hp
    rw [hinfo, hmsgs]
    have hpid : (parent.pid != 0) = true := bne_iff_ne.2 hp
    cases hc : s.peers.contains (agentId parent) with
    | true =>
      obtain ⟨comp, set, h₁, L', h₂, hrun, hins, hfree, hh', hplace⟩ :=
        hh.oldPeerLost (A := A) hi' hc
      rw [if_pos ⟨hp, rfl⟩]
      refine ⟨{ a with parent, net, heap := h₂, lostSets := a.lostSets ++ [set] }, ?_,
        ⟨L', hh', hplace⟩, ?_⟩
      · simp [utilReconnect, hres, hp, hrun, hins, hfree]
      · simp [registerMsgs, NodeInfo.isPeer, hc, sendAll_nil]
    | false =>
      obtain ⟨comp, set, h₁, h₂, L', hrun, hins, hh', hplace⟩ := hh.newPeer (A := A) hi' hc
      have hsend := hh'.sendCatches (w := w) (agentId parent)
      rw [if_neg (by simp)]
      refine ⟨{ a with parent, heap := h₂, net := w.sendAll (greetMsgs s (agentId parent)) net },
        ?_, ⟨L', hh'.withNet _, hplace⟩, ?_⟩
      · unfold utilReconnect
        simp only [hres, hpid, hrun, hins, hsend, Option.bind_eq_bind, Option.bind_some, reduceCtorEq,
          if_false, if_true]
        rfl
      · simp [registerMsgs, NodeInfo.isPeer, hc, isAgent_agentId]

/-! ## `FTBM_Init` -/

/-- The two maps of an agent that starts. -/
theorem holds_blank (A : Allocator Block) (location parent : LocationId) (net : N) :
    let peers := A.malloc (.map []) Heap.empty
    let catchEventMap := A.malloc (.map []) peers.2
    ∃ L, HoldsAt L { blankInfo false location with parent } 0 (fun _ => none)
      { parent, self := agentId location, errHandling := errHandleRecover, initialized := false,
        peers := peers.1, catchEventMap := catchEventMap.1, heap := catchEventMap.2, net,
        lostSets := [] } := by
  dsimp only
  have h₁ := (Laid.empty (B := Block) fun _ : Owner => 0).malloc A (o := .inr .table) rfl (.map [])
  have h₂ := h₁.malloc A (o := .inl .table) (by simp) (.map [])
  refine ⟨_, h₂.congr (fun o => ?_) fun _ _ => rfl, ?_, ?_, rfl, ?_, rfl, rfl, rfl⟩
  · match o with
    | .inl .table => simp [blocks, catchBlocks, blankInfo, KeyList.empty]
    | .inl (.key m) => simp [blocks, catchBlocks, blankInfo, entryOf, KeyList.empty]
    | .inl (.comps m) => simp [blocks, catchBlocks, blankInfo, entryOf, KeyList.empty]
    | .inr .table => simp [blocks, peerBlocks, blankInfo, KeyList.empty]
    | .inr (.comp n) => simp [blocks, peerBlocks, blankInfo, peerOf, KeyList.empty]
    | .inr (.set n) => simp [blocks, peerBlocks, blankInfo, peerOf, KeyList.empty]
    | .inr (.mask n m) => simp [blocks, peerBlocks, blankInfo, peerOf, KeyList.empty]
    | .inr (.lost k) => simp [blocks, peerBlocks]
    | .inr (.scratch k) => simp [blocks, peerBlocks]
  · simp [Allocator.malloc]
  · simp [Allocator.malloc]
  · rfl

theorem init_run (w : Network N) (A : Allocator Block) (location : LocationId) (net : N) :
    ∃ a', init w A location net = some (.success, a') ∧
      Follows 0 (fun _ => none) (FTBM.init w false location net).2 a' := by
  rw [init_eq]
  generalize hr : initResult w false location net = r
  obtain ⟨ret, parent, net'⟩ := r
  have hres : w.connect
      { msgType := .clientReg, src := agentId location, dst := default, event := default }
      default net = (ret, parent, net') := hr
  obtain ⟨L, hh⟩ := holds_blank A location parent net'
  unfold init
  simp only [hres]
  by_cases hp : parent.pid = 0
  · have hpid : (parent.pid != 0) = false := by simp [hp]
    rw [if_neg (by simp [hpid])]
    refine ⟨_, rfl, ⟨L, ?_⟩, rfl⟩
    have hinfo : attachInfo (blankInfo false location) parent =
        { blankInfo false location with parent } := by
      simp [attachInfo, blankInfo, hp]
    simp only [hinfo]
    exact ⟨hh.laid, hh.peers, hh.catchMap, rfl, hh.self, rfl, rfl, hh.lostSets⟩
  · have hinfo := (attach_found (s := blankInfo false location) rfl hp).1
    have hb := inv_blankInfo false location
    have hi : Inv { blankInfo false location with parent } :=
      ⟨hb.noEmpty, hb.held, hb.sync, hb.fresh, hb.addrs⟩
    obtain ⟨comp, set, h₁, h₂, L', hrun, hins, hh', -⟩ := hh.newPeer (A := A) hi
      (show (blankInfo false location).peers.contains (agentId parent) = false from rfl)
    have hpid : (parent.pid != 0) = true := bne_iff_ne.2 hp
    rw [if_pos hpid]
    simp only [hrun, hins, Option.bind_eq_bind, Option.bind_some, reduceCtorEq, if_false]
    refine ⟨_, rfl, ⟨L', ?_⟩, rfl⟩
    simp only [hinfo]
    exact ⟨hh'.laid, hh'.peers, hh'.catchMap, rfl, hh'.self, rfl, rfl, hh'.lostSets⟩

end FTBM.Memory
