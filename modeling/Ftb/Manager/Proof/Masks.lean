import Ftb.Manager.Proof.Leaving

/-!
# Masks that come and go

`FTBM_Cancel_subscription` and `FTBM_Register_subscription`. The second looks a mask up through the
copy it has freed when the component has the mask already.
-/

open FTB FTBU FTBN FTBMI Layout

namespace FTBM.Memory

variable {N : Type} {w : Network N} {A : Allocator Block} {L : Owner → Nat} {s : NodeInfo}
  {lost : Nat} {scratch : Nat → Option Block} {a : Image N}

/-- The masks of a component, searched by a mask. -/
theorem find_set {Q : PeerOwner → Option Block} {C : CatchOwner → Option Block} {h : Heap Block}
    (hl : Laid (Sum.elim C Q) L h) (n : Nat) (set : SetEventMask)
    (hm : ∀ m ∈ set.nodes, Q (.mask n m) = some (.mask m)) (eq : Nat → Option Bool) (event : Event)
    (heq : ∀ key m, maskAt h key = some m → eq key = some (isEqualEventMask m event)) :
    mapFindKey eq (set.nodes.map (maskNode L n)) = some ((set.find? event).map (maskNode L n)) :=
  mapFindKey_map (maskNode L n) set.nodes fun m hmem =>
    heq _ _ (maskAt_of hl (o := (.inr (.mask n m) : Owner)) (hm m hmem))

theorem removeMsgs_adjustSet (s : NodeInfo) (id : Id) (g : SetEventMask → SetEventMask) (i : Id)
    (m : Event) : removeMsgs { s with peers := adjustSet s.peers id g } i m = removeMsgs s i m := by
  have hprop : ∀ e, propMsgs { s with peers := adjustSet s.peers id g } .subscriptionCancel e
      i.locationId = propMsgs s .subscriptionCancel e i.locationId := fun e => by
    apply propMsgs_congr
    · exact map_id_adjustSet s.peers id _
    · rfl
  unfold removeMsgs
  simp only [hprop]

/-- A mask is taken out of the set of a component, and freed. -/
theorem peerBlocks_takeMask (hi : Inv s) {id : Id} {c : CompInfo} (hf : s.peers.find? id = some c)
    {mask : Event} (hmem : mask ∈ c.catchEventSet.nodes) :
    peerBlocks L (adjustSet s.peers id (·.erase mask)) lost scratch =
      Function.update (Function.update (peerBlocks L s.peers lost scratch) (.set c.addr)
        (some (.map ((c.catchEventSet.erase mask).nodes.map (maskNode L c.addr)))))
        (.mask c.addr mask) none := by
  have ho := owns_peer L lost scratch hi.addrs (KeyList.mem_of_find? hf).1
  refine peerBlocks_adjustSet hi.addrs hf (·.erase mask) (by simp) (fun m => ?_) fun o h₁ h₂ => ?_
  · by_cases hmm : m = mask
    · subst hmm
      have hr : isEqualEventMask m m = true := KeyEq.refl m
      simp [KeyList.mem_erase, hr]
    · have hiff : m ∈ (c.catchEventSet.erase mask).nodes ↔ m ∈ c.catchEventSet.nodes := by
        rw [KeyList.mem_erase]
        refine ⟨And.left, fun hmem' => ⟨hmem', ?_⟩⟩
        by_contra hq
        rw [Bool.not_eq_false] at hq
        exact hmm (KeyList.eq_of_mem hmem' hmem hq)
      rw [Function.update_of_ne (by simpa using hmm), Function.update_of_ne (by simp), ho.mask]
      simp only [hiff]
  · rw [Function.update_of_ne (h₁ mask), Function.update_of_ne h₂]

/-- A mask is added to the set of a component. -/
theorem peerBlocks_addMask (hi : Inv s) {id : Id} {c : CompInfo} (hf : s.peers.find? id = some c)
    {event : Event} (hnew : c.catchEventSet.contains event = false) :
    peerBlocks L (adjustSet s.peers id (·.insert event)) lost scratch =
      Function.update (Function.update (peerBlocks L s.peers lost scratch) (.mask c.addr event)
        (some (.mask event))) (.set c.addr)
        (some (.map (c.catchEventSet.nodes.map (maskNode L c.addr) ++ [maskNode L c.addr event]))) := by
  have ho := owns_peer L lost scratch hi.addrs (KeyList.mem_of_find? hf).1
  have hins := KeyList.nodes_insert (v := event) hnew
  refine peerBlocks_adjustSet hi.addrs hf (·.insert event) ?_ (fun m => ?_) fun o h₁ h₂ => ?_
  · simp [hins]
  · by_cases hm : m = event
    · simp [hm, hins]
    · rw [Function.update_of_ne (by simp), Function.update_of_ne (by simpa using hm), ho.mask]
      simp [hins, hm]
  · rw [Function.update_of_ne h₂, Function.update_of_ne (h₁ event)]

/-- The node of a mask is the only one at its address. -/
theorem erase_mask (h : HoldsAt L s lost scratch a) (hi : Inv s) {c : CompInfo}
    (hc : c ∈ s.peers.nodes) {mask : Event} (hmem : mask ∈ c.catchEventSet.nodes) :
    (c.catchEventSet.nodes.map (maskNode L c.addr)).erase (maskNode L c.addr mask) =
      (c.catchEventSet.erase mask).nodes.map (maskNode L c.addr) := by
  have ho := owns_peer L lost scratch hi.addrs hc
  refine erase_map (maskNode L c.addr) (KeyList.find?_of_mem hmem) fun x hx hxe => ?_
  have hox : (Sum.inr (.mask c.addr x) : Owner) = .inr (.mask c.addr mask) :=
    h.laid.apart _ _ (by simp [blocks, ho.mask, hx]) (by simp [blocks, ho.mask, hmem])
      (congrArg Node.key hxe)
  simpa using hox

/-! ## `FTBM_Cancel_subscription` -/

theorem cancelSubscription_run (h : HoldsAt L s lost scratch a) (hi : Inv s) (hr : s.ready = true)
    (id : Id) (event : Event) :
    ∃ ret a', cancelSubscription w id event a = some (ret, a') ∧
      Follows lost scratch ⟨cancelInfo s id event, w.sendAll (cancelMsgs s id event) a.net⟩ a' := by
  have hinit : a.initialized = true := h.initialized.trans (NodeInfo.ready_iff.1 hr).1
  have hlook := h.lookup hi id
  unfold cancelSubscription
  rw [if_neg (by simp [hinit])]
  cases hf : s.peers.find? id with
  | none =>
    rw [hf] at hlook
    refine ⟨.errInvalidParameter, a, ?_, ⟨L, ?_⟩, ?_⟩
    · simp only [hlook, Option.map_none, Option.bind_eq_bind, Option.bind_some]
      rfl
    · simpa [cancelInfo, hf] using h
    · simp [cancelMsgs, hf, sendAll_nil]
  | some c =>
    rw [hf] at hlook
    obtain ⟨hc, -⟩ := KeyList.mem_of_find? hf
    have ho := owns_peer L lost scratch hi.addrs hc
    have hcomp : compAt a.heap (L (.inr (.comp c.addr))) = _ :=
      compAt_of h.laid (o := (.inr (.comp c.addr) : Owner)) ho.comp
    have hset : mapAt a.heap (L (.inr (.set c.addr))) = _ :=
      mapAt_of h.laid (o := (.inr (.set c.addr) : Owner)) ho.set
    have hfind := find_set h.laid c.addr c.catchEventSet
      (fun m hm => by rw [ho.mask, if_pos hm]) (eventEq a.heap event) event
      fun key m hk => by simp [eventEq, hk]
    simp only [hlook, Option.map_some, Option.bind_eq_bind, Option.bind_some, hcomp, hset, hfind]
    cases hm : c.catchEventSet.find? event with
    | none =>
      refine ⟨.success, a, rfl, ⟨L, ?_⟩, ?_⟩
      · simpa [cancelInfo, hf, hm] using h
      · simp [cancelMsgs, hf, hm, sendAll_nil]
    | some mask =>
      obtain ⟨hmem, -⟩ := KeyList.mem_of_find? hm
      have hnodes := erase_mask h hi hc hmem
      obtain ⟨h₁, hstore, hl₁⟩ := store_inr h.laid ho.set
        (.map ((c.catchEventSet.erase mask).nodes.map (maskNode L c.addr)))
      have hrem : mapRemoveNode (L (.inr (.set c.addr))) (maskNode L c.addr mask) a.heap = some h₁ := by
        simp [mapRemoveNode, hset, hnodes, hstore]
      have hs := h.sees hi
      have hsees : Sees (catchBlocks L s.catchEventMap) (Function.update
          (peerBlocks L s.peers lost scratch) (.set c.addr)
          (some (.map ((c.catchEventSet.erase mask).nodes.map (maskNode L c.addr))))) L s
          { a with heap := h₁ } :=
        ⟨hl₁, hs.peers, hs.catchMap, hs.self, (Function.update_of_ne (by simp) ..).trans hs.table,
          fun d hd => (hs.comps d hd).imp fun _ hset => (Function.update_of_ne (by simp) ..).trans hset⟩
      have hreads : Reads s.catchEventMap (Function.update
          (peerBlocks L s.peers lost scratch) (.set c.addr)
          (some (.map ((c.catchEventSet.erase mask).nodes.map (maskNode L c.addr))))) :=
        fun e he r hr => (reads_tables L lost scratch hi e he r hr).imp
          fun _ hset => (Function.update_of_ne (by simp) ..).trans hset
      have hmask : (Function.update (peerBlocks L s.peers lost scratch) (.set c.addr)
          (some (.map ((c.catchEventSet.erase mask).nodes.map (maskNode L c.addr)))))
          (.mask c.addr mask) = some (.mask mask) :=
        (Function.update_of_ne (by simp) ..).trans (by rw [ho.mask, if_pos hmem])
      obtain ⟨h₂, hrun, hl₂⟩ := hsees.remove (w := w) hreads
        ((Function.update_of_ne (by simp) ..).trans ho.comp)
        (maskAt_of hl₁ (o := (.inr (.mask c.addr mask) : Owner)) hmask)
      obtain ⟨h₃, hfree, hl₃⟩ := free_inr hl₂ hmask
      rw [← peerBlocks_takeMask hi hf hmem] at hl₃
      have hrun' : utilRemoveComFromCatchMap w (L (.inr (.comp c.addr))) (maskNode L c.addr mask).data
        { a with heap := h₁ } = _ := hrun
      have hfree' : h₂.free (maskNode L c.addr mask).data = some h₃ := hfree
      refine ⟨.success, { a with heap := h₃, net := w.sendAll (removeMsgs s c.id mask) a.net }, ?_,
        ⟨L, ?_⟩, ?_⟩
      · simp only [Option.map_some, hrem, hrun', hfree', Option.bind_some]
        rfl
      · rw [cancelInfo_of_find? hf hm]
        exact ⟨hl₃, h.peers, h.catchMap, h.parent, h.self, h.errHandling, h.initialized, h.lostSets⟩
      · simp only [cancelMsgs, hf, hm, removeMsgs_adjustSet]

/-! ## `FTBM_Register_subscription` -/

theorem numbered_adjustSet (hi : Inv s) (id : Id) (g : SetEventMask → SetEventMask) :
    Numbered (adjustSet s.peers id g) := by
  unfold Numbered adjustSet KeyList.adjust
  refine List.pairwise_map.2 (hi.addrs.imp fun {c d} hcd => ?_)
  split <;> split <;> exact hcd

theorem held_adjustSet (hi : Inv s) (id : Id) (g : SetEventMask → SetEventMask) :
    AllRefs (fun r => ∃ c ∈ (adjustSet s.peers id g).nodes, c.ref = r) s.catchEventMap := by
  intro e he r hr
  obtain ⟨c, hc, rfl⟩ := hi.held e he r hr
  refine ⟨_, KeyList.mem_adjust.2 ⟨c, hc, rfl⟩, ?_⟩
  split <;> rfl

/-- A new mask in the set of a component. -/
theorem HoldsAt.addMask (h : HoldsAt L s lost scratch a) (hi : Inv s) {id : Id} {c : CompInfo}
    (hf : s.peers.find? id = some c) {event : Event} (hnew : c.catchEventSet.contains event = false) :
    ∃ h₂ L', mapInsert (maskEq (A.malloc (.mask event) a.heap).2
          (A.malloc (.mask event) a.heap).1) (L (.inr (.set c.addr)))
          ⟨(A.malloc (.mask event) a.heap).1, (A.malloc (.mask event) a.heap).1⟩
          (A.malloc (.mask event) a.heap).2 = some (.success, h₂) ∧
      compAt (A.malloc (.mask event) a.heap).2 (L (.inr (.comp c.addr))) =
        some (c.id, L (.inr (.set c.addr))) ∧
      L' (.inr (.mask c.addr event)) = (A.malloc (.mask event) a.heap).1 ∧
      L' (.inr (.comp c.addr)) = L (.inr (.comp c.addr)) ∧
      maskAt h₂ (A.malloc (.mask event) a.heap).1 = some event ∧
      compAt h₂ (L (.inr (.comp c.addr))) = some (c.id, L (.inr (.set c.addr))) ∧
      HoldsAt L' { s with peers := adjustSet s.peers id (·.insert event) } lost scratch
        { a with heap := h₂ } := by
  obtain ⟨hc, -⟩ := KeyList.mem_of_find? hf
  have hnot : event ∉ c.catchEventSet.nodes := fun hm => by
    have hr : isEqualEventMask event event = true := KeyEq.refl event
    have hcont : c.catchEventSet.contains event = true := List.any_eq_true.2 ⟨event, hm, hr⟩
    rw [hcont] at hnew
    cases hnew
  have hnone : blocks L s lost scratch (.inr (.mask c.addr event)) = none := by
    simp [blocks, (owns_peer L lost scratch hi.addrs hc).mask, hnot]
  have hl₁ := h.laid.malloc A hnone (.mask event)
  rw [← blocks_update hi.addrs hi.held hnone (A.pick a.heap), blocks, Sum.update_elim_inr] at hl₁
  have hself : ∀ o, o ≠ .inr (.mask c.addr event) →
      Function.update L (.inr (.mask c.addr event)) (A.pick a.heap) o = L o := fun o ho =>
    Function.update_of_ne ho ..
  have hx : Function.update L (.inr (.mask c.addr event)) (A.pick a.heap)
      (.inr (.mask c.addr event)) = (A.malloc (.mask event) a.heap).1 := Function.update_self ..
  generalize Function.update L (.inr (.mask c.addr event)) (A.pick a.heap) = L' at hl₁ hself hx
  generalize A.malloc (.mask event) a.heap = r at hl₁ hx ⊢
  obtain ⟨x, h₁⟩ := r
  dsimp only at hl₁ hx ⊢
  have ho := owns_peer L' lost scratch hi.addrs hc
  have hset : Function.update (peerBlocks L' s.peers lost scratch) (.mask c.addr event)
      (some (.mask event)) (.set c.addr) = _ := (Function.update_of_ne (by simp) ..).trans ho.set
  obtain ⟨h₂, hstore, hl₂⟩ := store_inr hl₁ hset
    (.map (c.catchEventSet.nodes.map (maskNode L' c.addr) ++ [maskNode L' c.addr event]))
  have hmask₂ : maskAt h₂ x = some event := by
    rw [← hx]
    exact maskAt_of hl₂ (o := (.inr (.mask c.addr event) : Owner)) (by simp)
  have hcomp₂ : compAt h₂ (L (.inr (.comp c.addr))) = some (c.id, L (.inr (.set c.addr))) := by
    rw [← hself (.inr (.comp c.addr)) (by simp), ← hself (.inr (.set c.addr)) (by simp)]
    exact compAt_of hl₂ (o := (.inr (.comp c.addr) : Owner)) (by simp [ho.comp])
  rw [← peerBlocks_addMask hi hf hnew] at hl₂
  have hread : mapAt h₁ (L (.inr (.set c.addr))) =
      some (c.catchEventSet.nodes.map (maskNode L' c.addr)) := by
    rw [← hself (.inr (.set c.addr)) (by simp)]
    exact mapAt_of hl₁ (o := (.inr (.set c.addr) : Owner)) hset
  have hmask : maskAt h₁ x = some event := by
    rw [← hx]
    exact maskAt_of hl₁ (o := (.inr (.mask c.addr event) : Owner)) (by simp)
  have hfind := find_set hl₁ c.addr c.catchEventSet
    (fun m hm => (Function.update_of_ne (by rintro ⟨⟩; exact hnot hm) ..).trans
      (by rw [ho.mask, if_pos hm])) (maskEq h₁ x) event
    fun key m hk => by simp [maskEq, hk, hmask]
  have hfn : c.catchEventSet.find? event = none := by
    rw [KeyList.contains_eq_isSome] at hnew
    simpa using hnew
  rw [hfn] at hfind
  have hnode : maskNode L' c.addr event = ⟨x, x⟩ := by rw [maskNode, hx]
  rw [hnode, hself (.inr (.set c.addr)) (by simp)] at hstore
  refine ⟨h₂, L', mapInsert_success hread hfind hstore, ?_, hx,
    hself (.inr (.comp c.addr)) (by simp), hmask₂, hcomp₂, hl₂, ?_, ?_, h.parent,
    h.self, h.errHandling, h.initialized, h.lostSets_at fun _ => hself _ (by simp)⟩
  · rw [← hself (.inr (.comp c.addr)) (by simp), ← hself (.inr (.set c.addr)) (by simp)]
    exact compAt_of hl₁ (o := (.inr (.comp c.addr) : Owner))
      ((Function.update_of_ne (by simp) ..).trans ho.comp)
  · rw [hself (.inr .table) (by simp), h.peers]
  · rw [hself (.inl .table) (by simp), h.catchMap]

/-- **A mask that the component has already** is looked up through the freed copy. -/
theorem registerSubscription_twice (h : HoldsAt L s lost scratch a) (hi : Inv s) (hr : s.ready = true)
    {id : Id} {event : Event} (hlisted : s.listed id event = true) :
    registerSubscription w A id event a = none := by
  have hinit : a.initialized = true := h.initialized.trans (NodeInfo.ready_iff.1 hr).1
  have hp := hi.isPeer_of_listed hlisted
  rw [NodeInfo.isPeer, KeyList.contains_eq_isSome] at hp
  obtain ⟨c, hf⟩ := Option.isSome_iff_exists.1 hp
  obtain ⟨hc, -⟩ := KeyList.mem_of_find? hf
  have hcont : c.catchEventSet.contains event = true := (hi.set_of_find? hf event).trans hlisted
  rw [KeyList.contains_eq_isSome] at hcont
  obtain ⟨m, hm⟩ := Option.isSome_iff_exists.1 hcont
  have hlook := h.lookup hi id
  rw [hf] at hlook
  -- the copy is nobody's
  have hnone : blocks L s lost scratch (.inr (.lost lost)) = none := by simp [blocks, peerBlocks]
  have hl₁ := h.laid.malloc A hnone (.mask event)
  rw [← blocks_update hi.addrs hi.held hnone (A.pick a.heap)] at hl₁
  have hself : ∀ o, o ≠ .inr (.lost lost) →
      Function.update L (.inr (.lost lost)) (A.pick a.heap) o = L o := fun o ho =>
    Function.update_of_ne ho ..
  have hx : Function.update L (.inr (.lost lost)) (A.pick a.heap) (.inr (.lost lost)) =
      (A.malloc (.mask event) a.heap).1 := Function.update_self ..
  generalize Function.update L (.inr (.lost lost)) (A.pick a.heap) = L' at hl₁ hself hx
  obtain ⟨h₂, hfree, hl₂⟩ := hl₁.free (o := .inr (.lost lost)) (Function.update_self ..)
  unfold registerSubscription
  rw [if_neg (by simp [hinit])]
  simp only [hlook, Option.map_some, Option.bind_eq_bind, Option.bind_some]
  generalize A.malloc (.mask event) a.heap = r at hl₁ hx hfree ⊢
  obtain ⟨x, h₁⟩ := r
  dsimp only at hl₁ hx hfree ⊢
  rw [hx] at hfree
  have ho := owns_peer L' lost scratch hi.addrs hc
  have hcomp : compAt h₁ (L (.inr (.comp c.addr))) = some (c.id, L' (.inr (.set c.addr))) := by
    rw [← hself (.inr (.comp c.addr)) (by simp)]
    exact compAt_of hl₁ (o := (.inr (.comp c.addr) : Owner))
      ((Function.update_of_ne (by simp) ..).trans ho.comp)
  have hset : mapAt h₁ (L' (.inr (.set c.addr))) =
      some (c.catchEventSet.nodes.map (maskNode L' c.addr)) :=
    mapAt_of hl₁ (o := (.inr (.set c.addr) : Owner)) ((Function.update_of_ne (by simp) ..).trans ho.set)
  have hmask : maskAt h₁ x = some event := by
    rw [← hx]
    exact maskAt_of hl₁ (o := (.inr (.lost lost) : Owner)) (Function.update_self ..)
  have hl₁' := hl₁
  rw [blocks, Sum.update_elim_inr] at hl₁'
  have hfind := find_set hl₁' c.addr c.catchEventSet
    (fun m hm => (Function.update_of_ne (by simp) ..).trans (by rw [ho.mask, if_pos hm]))
    (maskEq h₁ x) event fun key m hk => by simp [maskEq, hk, hmask]
  rw [hm] at hfind
  have hins : mapInsert (maskEq h₁ x) (L' (.inr (.set c.addr))) ⟨x, x⟩ h₁ = some (.exist, h₁) :=
    mapInsert_exist hset hfind
  -- the entry of the mask is in the way of the search
  obtain ⟨e, he, -⟩ := lists_iff.1 hlisted
  obtain ⟨e₁, ents, hents⟩ := List.exists_cons_of_ne_nil (List.ne_nil_of_mem he)
  have htable : mapAt h₂ a.catchEventMap = some (s.catchEventMap.nodes.map (entryNode L')) := by
    rw [← h.catchMap, ← hself (.inl .table) (by simp)]
    exact mapAt_of hl₂ (o := (.inl .table : Owner)) rfl
  have hfreed : maskAt h₂ x = none := by
    rw [maskAt, Heap.free_cells hfree]
  have hlast : mapFindKey (maskEq h₂ x) (s.catchEventMap.nodes.map (entryNode L')) = none := by
    have hno : maskEq h₂ x (entryNode L' e₁).key = none := by
      unfold maskEq
      rw [hfreed]
      cases maskAt h₂ (entryNode L' e₁).key <;> rfl
    rw [hents, List.map_cons, mapFindKey, hno]
    rfl
  simp [hcomp, hins, hfree, htable, hlast]

/-- A mask that is in `catch_event_map` already, for one more component. -/
theorem HoldsAt.oldEntry (h : HoldsAt L s lost scratch a) (hn : Numbered s.peers)
    (hheld : AllRefs (fun r => ∃ c ∈ s.peers.nodes, c.ref = r) s.catchEventMap) {c : CompInfo}
    {set : Nat} (hcomp : compAt a.heap (L (.inr (.comp c.addr))) = some (c.id, set)) {event : Event}
    {ent : CatchEntry} (hf : s.catchEventMap.find? event = some ent)
    (hnew : ent.comps.contains c.id = false) :
    ∃ h', mapInsert (compEq a.heap (L (.inr (.comp c.addr)))) (entryNode L ent).data
        (compNode L c.addr) a.heap = some (.success, h') ∧
      HoldsAt L { s with catchEventMap :=
        s.catchEventMap.adjust event (fun x => { x with comps := ent.comps.insert c.ref }) fun _ => rfl }
        lost scratch { a with heap := h' } := by
  have hent : ent ∈ s.catchEventMap.nodes := (KeyList.mem_of_find? hf).1
  have hread : mapAt a.heap (L (.inl (.comps ent.mask))) =
      some (ent.comps.nodes.map fun r => compNode L r.addr) :=
    mapAt_of h.laid (o := (.inl (.comps ent.mask) : Owner)) (comps_block (L := L) hent)
  have hfind := find_comp h.laid (reads_of hn hheld ent hent) hcomp
  have hnone : ent.comps.find? c.id = none := by
    rw [KeyList.contains_eq_isSome] at hnew
    simpa using hnew
  rw [hnone] at hfind
  obtain ⟨h', hstore, hl⟩ := store_inl h.laid (comps_block (L := L) hent)
    (compsBlock L (ent.comps.insert c.ref))
  rw [← catchBlocks_adjust hf] at hl
  have hins : (ent.comps.insert c.ref).nodes = ent.comps.nodes ++ [c.ref] := KeyList.nodes_insert hnew
  rw [compsBlock, hins, List.map_append] at hstore
  exact ⟨h', mapInsert_success hread hfind hstore, hl, h.peers, h.catchMap, h.parent, h.self,
    h.errHandling, h.initialized, h.lostSets⟩

/-- A new entry of `catch_event_map`: a second copy of the mask, and a map with the component. -/
theorem HoldsAt.newEntry (h : HoldsAt L s lost scratch a) (hn : Numbered s.peers)
    (hheld : AllRefs (fun r => ∃ c ∈ s.peers.nodes, c.ref = r) s.catchEventMap) {c : CompInfo}
    {event : Event} (hf : s.catchEventMap.find? event = none)
    {m₂ map : Nat} {h₁ h₂ : Heap Block} (hm₂ : A.malloc (.mask event) a.heap = (m₂, h₁))
    (hmap : A.malloc (.map []) h₁ = (map, h₂)) :
    ∃ L' h₃ h₄, mapInsert (maskEq h₂ m₂) a.catchEventMap ⟨m₂, map⟩ h₂ = some (.success, h₃) ∧
      mapInsert (compEq h₃ (L (.inr (.comp c.addr)))) map (compNode L c.addr) h₃ =
        some (.success, h₄) ∧
      HoldsAt L' { s with catchEventMap := s.catchEventMap.insert ⟨event, KeyList.empty.insert c.ref⟩ }
        lost scratch { a with heap := h₄ } := by
  have hentry : entryOf s.catchEventMap event = none := by
    rw [entryOf, List.find?_eq_none]
    intro e he heq
    have hne := KeyList.find?_eq_none.1 hf e he
    have hr : isEqualEventMask event event = true := KeyEq.refl event
    rw [of_decide_eq_true heq, hr] at hne
    cases hne
  have hkey : blocks L s lost scratch (.inl (.key event)) = none := by
    simp [blocks, catchBlocks, hentry]
  have hl₁ := h.laid.malloc A hkey (.mask event)
  have hl₂ := hl₁.malloc A (o := .inl (.comps event)) (by simp [blocks, catchBlocks, hentry])
    (.map [])
  have hb₁ := blocks_update hn hheld hkey (A.pick a.heap)
  have hb₂ := blocks_update hn hheld (show blocks (Function.update L (.inl (.key event))
    (A.pick a.heap)) s lost scratch (.inl (.comps event)) = none by
      simp [blocks, catchBlocks, hentry]) (A.pick h₁)
  rw [hm₂] at hl₂
  dsimp only at hl₂
  rw [hmap] at hl₂
  have hp₁ : A.pick a.heap = m₂ := congrArg Prod.fst hm₂
  have hp₂ : A.pick h₁ = map := congrArg Prod.fst hmap
  rw [hp₁, hp₂] at hl₂ hb₂
  rw [hp₁] at hb₁
  rw [← hb₁, ← hb₂, blocks, Sum.update_elim_inl, Sum.update_elim_inl] at hl₂
  have hself : ∀ o, o ≠ .inl (.key event) → o ≠ .inl (.comps event) → Function.update
      (Function.update L (.inl (.key event)) m₂) (.inl (.comps event)) map o = L o := fun o h₁ h₂ => by
    rw [Function.update_of_ne h₂, Function.update_of_ne h₁]
  have hkey' : Function.update (Function.update L (.inl (.key event)) m₂) (.inl (.comps event)) map
      (.inl (.key event)) = m₂ := by simp
  have hcomps' : Function.update (Function.update L (.inl (.key event)) m₂) (.inl (.comps event)) map
      (.inl (.comps event)) = map := by simp
  generalize Function.update (Function.update L (.inl (.key event)) m₂) (.inl (.comps event)) map = L'
    at hl₂ hself hkey' hcomps'
  dsimp only at hl₂
  have hcatch : L' (.inl .table) = a.catchEventMap := by
    rw [hself _ (by simp) (by simp), h.catchMap]
  have hnode : compNode L c.addr = compNode L' c.addr := by
    rw [compNode, compNode, hself (.inr (.comp c.addr)) (by simp) (by simp)]
  have htable : mapAt h₂ a.catchEventMap = some (s.catchEventMap.nodes.map (entryNode L')) := by
    rw [← hcatch]
    exact mapAt_of hl₂ (o := (.inl .table : Owner)) rfl
  have hmask : maskAt h₂ m₂ = some event := by
    rw [← hkey']
    exact maskAt_of hl₂ (o := (.inl (.key event) : Owner)) (by simp)
  have hfind : mapFindKey (maskEq h₂ m₂) (s.catchEventMap.nodes.map (entryNode L')) =
      some ((s.catchEventMap.find? event).map (entryNode L')) := by
    refine mapFindKey_map (entryNode L') s.catchEventMap.nodes fun e he => ?_
    have hne : e.mask ≠ event := by
      rintro rfl
      rw [entryOf_eq_some.2 ⟨he, rfl⟩] at hentry
      cases hentry
    have hk : maskAt h₂ (L' (.inl (.key e.mask))) = some e.mask :=
      maskAt_of hl₂ (o := (.inl (.key e.mask) : Owner)) (by simp [hne, key_block he])
    simp [maskEq, entryNode, hk, hmask]
  rw [hf] at hfind
  obtain ⟨h₃, hstore₃, hl₃⟩ := store_inl hl₂ (o := .table)
    (b := .map (s.catchEventMap.nodes.map (entryNode L'))) rfl
    (.map (s.catchEventMap.nodes.map (entryNode L') ++
      [entryNode L' ⟨event, KeyList.empty.insert c.ref⟩]))
  obtain ⟨h₄, hstore₄, hl₄⟩ := store_inl hl₃ (o := .comps event) (b := .map []) (by simp)
    (compsBlock L' (KeyList.empty.insert c.ref))
  have hempty : mapAt h₃ map = some [] := by
    rw [← hcomps']
    exact mapAt_of hl₃ (o := (.inl (.comps event) : Owner)) (by simp)
  have hblocks : catchBlocks L' (s.catchEventMap.insert ⟨event, KeyList.empty.insert c.ref⟩) = _ :=
    catchBlocks_insert hf
  rw [Function.update_comm (by simp), Function.update_idem, ← hblocks] at hl₄
  rw [hcatch] at hstore₃
  rw [hcomps'] at hstore₄
  have hent : entryNode L' ⟨event, KeyList.empty.insert c.ref⟩ = ⟨m₂, map⟩ := by
    rw [entryNode, hkey', hcomps']
  rw [hent] at hstore₃
  have hone : compsBlock L' (KeyList.empty.insert c.ref) = .map ([] ++ [compNode L c.addr]) := by
    rw [compsBlock, KeyList.nodes_insert_empty, hnode]
    rfl
  rw [hone] at hstore₄
  refine ⟨L', h₃, h₄, mapInsert_success htable hfind hstore₃, mapInsert_success hempty rfl hstore₄, hl₄,
    ?_, hcatch, h.parent, h.self, h.errHandling, h.initialized,
    h.lostSets_at fun _ => hself _ (by simp) (by simp)⟩
  rw [hself _ (by simp) (by simp), h.peers]

/-- The subscription of a component that does not have the mask. -/
theorem registerSubscription_run (h : HoldsAt L s lost scratch a) (hi : Inv s) (hr : s.ready = true)
    {id : Id} {event : Event} (hlisted : s.listed id event = false) :
    ∃ ret a', registerSubscription w A id event a = some (ret, a') ∧
      Follows lost scratch ⟨subscribeInfo s id event, w.sendAll (subscribeMsgs s id event) a.net⟩ a' := by
  have hinit : a.initialized = true := h.initialized.trans (NodeInfo.ready_iff.1 hr).1
  have hlook := h.lookup hi id
  unfold registerSubscription
  rw [if_neg (by simp [hinit])]
  cases hf : s.peers.find? id with
  | none =>
    rw [hf] at hlook
    refine ⟨.errInvalidParameter, a, ?_, ⟨L, ?_⟩, ?_⟩
    · simp only [hlook, Option.map_none, Option.bind_eq_bind, Option.bind_some]
      rfl
    · simpa [subscribeInfo, hf] using h
    · have hp : s.isPeer id = false := by rw [NodeInfo.isPeer, KeyList.contains_eq_isSome, hf]; rfl
      simp [subscribeMsgs, hp, sendAll_nil]
  | some c =>
    rw [hf] at hlook
    have hnew : c.catchEventSet.contains event = false := (hi.set_of_find? hf event).trans hlisted
    have hp : s.isPeer id = true := by rw [NodeInfo.isPeer, KeyList.contains_eq_isSome, hf]; rfl
    have hmsgs : subscribeMsgs s id event = propMsgs s .regSubscription event id.locationId := by
      simp [subscribeMsgs, hp, hlisted]
    obtain ⟨h₂, L', hins, hcomp, hx, hcompL, hmask, hcomp₂, hh⟩ :=
      h.addMask (A := A) hi hf hnew
    have hnum := numbered_adjustSet hi id (·.insert event)
    have hheld := held_adjustSet hi id (·.insert event)
    have hcatch : mapAt h₂ a.catchEventMap = some (s.catchEventMap.nodes.map (entryNode L')) := hh.catches
    have hfind := find_mask hh.laid hmask
    simp only [hlook, Option.map_some, Option.bind_eq_bind, Option.bind_some, hcomp, hins, reduceCtorEq,
      if_false, pure_bind, hcatch, hfind]
    rw [hmsgs, subscribeInfo_of_find? hf]
    have hprop : ∀ map, propMsgs { s with
        peers := adjustSet s.peers id (·.insert event), catchEventMap := map }
        .regSubscription event id.locationId =
          propMsgs s .regSubscription event id.locationId := fun map => by
      apply propMsgs_congr
      · exact map_id_adjustSet s.peers id _
      · rfl
    have hnode : compNode L' c.addr = ⟨L (.inr (.comp c.addr)), L (.inr (.comp c.addr))⟩ := by
      rw [compNode, hcompL]
    cases hm : s.catchEventMap.find? event with
    | none =>
      have hadd : catchAdd s.catchEventMap c.ref event =
          s.catchEventMap.insert ⟨event, KeyList.empty.insert c.ref⟩ := by
        simp only [catchAdd, hm]
      generalize hm₂ : A.malloc (.mask event) h₂ = r₁
      obtain ⟨m₂, h₃⟩ := r₁
      dsimp only
      generalize hmap : A.malloc (.map []) h₃ = r₂
      obtain ⟨map, h₄⟩ := r₂
      obtain ⟨L'', h₅, h₆, hins₂, hins₃, hh'⟩ := hh.newEntry hnum hheld (c := c) hm hm₂ hmap
      rw [hnode, hcompL] at hins₃
      have hprop' := (hh'.sees_of hnum).propagation (w := w) .regSubscription event id.locationId
      rw [hprop] at hprop'
      rw [hadd]
      refine ⟨.success, { a with
        heap := h₆, net := w.sendAll (propMsgs s .regSubscription event id.locationId) a.net }, ?_,
        ⟨L'', hh'.withNet _⟩, rfl⟩
      simp only [Option.map_none, hins₂, hins₃, Option.bind_some, hprop']
      rfl
    | some ent =>
      have hfree : ent.comps.contains c.id = false := by
        have hl : s.listed c.id event = false := by
          rw [← hlisted]
          exact lists_congr (KeyList.mem_of_find? hf).2 (KeyEq.refl event)
        rw [NodeInfo.listed, lists_eq_contains hm] at hl
        exact hl
      have hadd : catchAdd s.catchEventMap c.ref event = s.catchEventMap.adjust event
          (fun x => { x with comps := ent.comps.insert c.ref }) fun _ => rfl := by
        have hfree' : ent.comps.contains c.ref.id = false := hfree
        simp only [catchAdd, hm, hfree', Bool.false_eq_true, if_false]
      rw [← hcompL] at hcomp₂
      obtain ⟨h₃, hins₂, hh'⟩ := hh.oldEntry hnum hheld (c := c) hcomp₂ hm hfree
      rw [hnode, hcompL] at hins₂
      have hprop' := (hh'.sees_of hnum).propagation (w := w) .regSubscription event id.locationId
      rw [hprop] at hprop'
      rw [hadd]
      refine ⟨.success, { a with
        heap := h₃, net := w.sendAll (propMsgs s .regSubscription event id.locationId) a.net }, ?_,
        ⟨L', hh'.withNet _⟩, rfl⟩
      simp only [Option.map_some, hins₂, Option.bind_some, reduceCtorEq, if_false, hprop']
      rfl

end FTBM.Memory
