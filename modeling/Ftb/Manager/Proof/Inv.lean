import Ftb.Manager.Proof.Effect

/-!
# The invariant of the agent's tables

`Inv s`: `peers`, the `catch_event_set` of every peer and `catch_event_map` agree. Each step on
`FTBMI_info` keeps it (`Inv.registerInfo`, `Inv.subscribeInfo`, ..), hence each function of the
library does, over any network. What a step does to the two questions the other proofs ask,
`isPeer` and `listed`, is said once for each step (`listed_subscribeInfo`, `listed_dropInfo`, ..).
-/

open FTB FTBU FTBN

namespace FTBMI

/-- `peers` and `catch_event_map` agree, and no two components share an address. -/
structure Inv (s : NodeInfo) : Prop where
  noEmpty : NoEmpty s.catchEventMap
  held : AllRefs (fun r => ∃ c ∈ s.peers.nodes, c.ref = r) s.catchEventMap
  sync : ∀ c ∈ s.peers.nodes, ∀ m, c.catchEventSet.contains m = s.listed c.id m
  fresh : ∀ c ∈ s.peers.nodes, c.addr < s.nextAddr
  addrs : s.peers.nodes.Pairwise fun c d => c.addr ≠ d.addr

namespace Inv

variable {s : NodeInfo}

/-- Only peers are listed. -/
theorem isPeer_of_listed (h : Inv s) {i : Id} {m : Event} (hl : s.listed i m = true) :
    s.isPeer i = true := by
  obtain ⟨ent, he, -, r, hr, hi⟩ := lists_iff.1 hl
  obtain ⟨c, hc, rfl⟩ := h.held ent he r hr
  exact NodeInfo.isPeer_iff.2 ⟨c, hc, hi⟩

theorem listed_of_not_isPeer (h : Inv s) {i : Id} (hp : s.isPeer i = false) (m : Event) :
    s.listed i m = false := by
  by_contra hl
  rw [Bool.not_eq_false] at hl
  rw [h.isPeer_of_listed hl] at hp
  cases hp

/-- The set of the component that a lookup finds. -/
theorem set_of_find? (h : Inv s) {id : Id} {comp : CompInfo} (hf : s.peers.find? id = some comp)
    (m : Event) : comp.catchEventSet.contains m = s.listed id m := by
  obtain ⟨hc, hi⟩ := KeyList.mem_of_find? hf
  rw [h.sync comp hc m]
  exact lists_congr hi (KeyEq.refl m)

end Inv

/-! ## Registration -/

theorem isPeer_registerInfo (s : NodeInfo) (id i : Id) :
    (registerInfo s id).isPeer i = (s.isPeer i || isEqualFtbId id i) := by
  unfold NodeInfo.isPeer registerInfo
  rw [Bool.eq_iff_iff, KeyList.contains_eq_isSome, KeyList.find?_insert_isSome', Bool.or_eq_true,
    KeyList.contains_eq_isSome]

theorem listed_registerInfo (s : NodeInfo) (id i : Id) (m : Event) :
    (registerInfo s id).listed i m = s.listed i m := rfl

theorem Inv.registerInfo {s : NodeInfo} (h : Inv s) (id : Id) : Inv (registerInfo s id) := by
  by_cases hc : s.peers.contains id = true
  · rw [registerInfo_of_contains hc]
    exact ⟨h.noEmpty, h.held, h.sync, fun c hm => Nat.lt_succ_of_lt (h.fresh c hm), h.addrs⟩
  · rw [Bool.not_eq_true] at hc
    let new : CompInfo := ⟨s.nextAddr, id, .empty⟩
    have hn : s.peers.contains new.id = false := hc
    have hnodes : (FTBMI.registerInfo s id).peers.nodes = s.peers.nodes ++ [new] :=
      KeyList.nodes_insert hn
    have hmem : ∀ c, c ∈ (FTBMI.registerInfo s id).peers.nodes ↔ c ∈ s.peers.nodes ∨ c = new :=
      fun c => KeyList.mem_insert hn
    refine ⟨h.noEmpty, ?_, ?_, ?_, ?_⟩
    · intro ent he r hr
      obtain ⟨c, hm, hcr⟩ := h.held ent he r hr
      exact ⟨c, (hmem c).2 (.inl hm), hcr⟩
    · intro c hm m
      rcases (hmem c).1 hm with hm | rfl
      · exact h.sync c hm m
      · exact (h.listed_of_not_isPeer hc m).symm
    · intro c hm
      rcases (hmem c).1 hm with hm | rfl
      · exact Nat.lt_succ_of_lt (h.fresh c hm)
      · exact Nat.lt_succ_self _
    · rw [hnodes]
      refine List.pairwise_append.2 ⟨h.addrs, List.pairwise_singleton _ _, fun c hm d hd => ?_⟩
      rw [List.mem_singleton.1 hd]
      exact Nat.ne_of_lt (h.fresh c hm)

/-! ## Sets of masks -/

theorem contains_adjustSet (peers : Peers) (id : Id) (g : SetEventMask → SetEventMask) (i : Id) :
    (adjustSet peers id g).contains i = peers.contains i := by
  rw [KeyList.contains_eq_isSome, KeyList.contains_eq_isSome]
  exact KeyList.find?_adjust_isSome peers id i

/-- A component of `peers` whose set may have changed, and the one it was. -/
theorem exists_of_mem_adjustSet {peers : Peers} {id : Id} {g : SetEventMask → SetEventMask}
    {c' : CompInfo} (h : c' ∈ (adjustSet peers id g).nodes) :
    ∃ c ∈ peers.nodes, c'.ref = c.ref ∧ c'.catchEventSet =
      if isEqualFtbId c.id id then g c.catchEventSet else c.catchEventSet := by
  obtain ⟨c, hc, rfl⟩ := KeyList.mem_adjust.1 h
  refine ⟨c, hc, ?_⟩
  split
  · exact ⟨rfl, rfl⟩
  · exact ⟨rfl, rfl⟩

/-- A change of the sets alone keeps the pointers. -/
theorem held_adjustSet {peers : Peers} (id : Id) (g : SetEventMask → SetEventMask) {r : CompRef}
    (h : ∃ c ∈ peers.nodes, c.ref = r) : ∃ c ∈ (adjustSet peers id g).nodes, c.ref = r := by
  obtain ⟨c, hc, rfl⟩ := h
  refine ⟨_, KeyList.mem_adjust.2 ⟨c, hc, rfl⟩, ?_⟩
  split <;> rfl

theorem addrs_adjustSet {peers : Peers} (h : peers.nodes.Pairwise fun c d => c.addr ≠ d.addr)
    (id : Id) (g : SetEventMask → SetEventMask) :
    (adjustSet peers id g).nodes.Pairwise fun c d => c.addr ≠ d.addr := by
  refine List.pairwise_map.2 (h.imp fun {c d} hcd => ?_)
  split <;> split <;> exact hcd

theorem contains_insert_mask (set : SetEventMask) (event m : Event) :
    (set.insert event).contains m = (set.contains m || isEqualEventMask event m) := by
  rw [Bool.eq_iff_iff, KeyList.contains_eq_isSome, KeyList.find?_insert_isSome', Bool.or_eq_true,
    KeyList.contains_eq_isSome]

theorem contains_erase_mask (set : SetEventMask) (mask m : Event) :
    (set.erase mask).contains m = (set.contains m && !isEqualEventMask mask m) := by
  rw [Bool.eq_iff_iff, KeyList.contains_eq_isSome, KeyList.find?_erase_isSome, Bool.and_eq_true,
    KeyList.contains_eq_isSome, Bool.not_eq_true']

/-- The invariant after the set of one component and `catch_event_map` changed alike. -/
theorem Inv.adjustSet {s : NodeInfo} (h : Inv s) (id : Id) (g : SetEventMask → SetEventMask)
    {map : CatchEventMap} (hn : NoEmpty map)
    (hh : AllRefs (fun r => ∃ c ∈ s.peers.nodes, c.ref = r) map)
    (hs : ∀ c ∈ s.peers.nodes, ∀ m, lists map c.id m =
      if isEqualFtbId c.id id then (g c.catchEventSet).contains m else s.listed c.id m) :
    Inv { s with peers := adjustSet s.peers id g, catchEventMap := map } := by
  refine ⟨hn, fun ent he r hr => held_adjustSet id g (hh ent he r hr), ?_, ?_,
    addrs_adjustSet h.addrs id g⟩
  · intro c' hm m
    obtain ⟨c, hc, hr, hset⟩ := exists_of_mem_adjustSet hm
    have hid : c'.id = c.id := congrArg CompRef.id hr
    show c'.catchEventSet.contains m = lists map c'.id m
    rw [hid, hs c hc, hset]
    split
    · rfl
    · exact h.sync c hc m
  · intro c' hm
    obtain ⟨c, hc, hr, -⟩ := exists_of_mem_adjustSet hm
    have ha : c'.addr = c.addr := congrArg CompRef.addr hr
    rw [ha]
    exact h.fresh c hc

/-! ## Subscription -/

theorem isPeer_subscribeInfo (s : NodeInfo) (id : Id) (event : Event) (i : Id) :
    (subscribeInfo s id event).isPeer i = s.isPeer i := by
  unfold subscribeInfo
  split
  · rfl
  · exact contains_adjustSet s.peers id _ i

theorem listed_subscribeInfo (s : NodeInfo) (id : Id) (event : Event) (i : Id) (m : Event) :
    (subscribeInfo s id event).listed i m =
      (s.listed i m || (s.isPeer id && isEqualFtbId id i && isEqualEventMask event m)) := by
  have hp : s.isPeer id = (s.peers.find? id).isSome := KeyList.contains_eq_isSome _ _
  cases hf : s.peers.find? id with
  | none =>
    have : subscribeInfo s id event = s := by simp only [subscribeInfo, hf]
    simp [this, hp, hf]
  | some comp =>
    have hi : isEqualFtbId comp.ref.id i = isEqualFtbId id i :=
      KeyEq.congr_left (KeyList.mem_of_find? hf).2 i
    rw [hp, hf, subscribeInfo_of_find? hf, ← hi]
    exact lists_catchAdd s.catchEventMap comp.ref event i m

theorem Inv.subscribeInfo {s : NodeInfo} (h : Inv s) (id : Id) (event : Event) :
    Inv (subscribeInfo s id event) := by
  have hl := listed_subscribeInfo s id event
  have hp : s.isPeer id = (s.peers.find? id).isSome := KeyList.contains_eq_isSome _ _
  cases hf : s.peers.find? id with
  | none => simpa only [FTBMI.subscribeInfo, hf] using h
  | some comp =>
    obtain ⟨hc, -⟩ := KeyList.mem_of_find? hf
    rw [hf] at hp
    rw [subscribeInfo_of_find? hf] at hl ⊢
    refine h.adjustSet id _ (noEmpty_catchAdd h.noEmpty _ _)
      (allRefs_catchAdd h.held ⟨comp, hc, rfl⟩ event) fun c hc m => ?_
    refine (hl c.id m).trans ?_
    rw [hp, KeyEq.comm isEqualFtbId id c.id]
    split
    · rename_i hi
      rw [contains_insert_mask, h.sync c hc, hi]
      rfl
    · rename_i hi
      rw [Bool.eq_false_iff.2 hi]
      simp

/-! ## Cancellation -/

theorem isPeer_cancelInfo (s : NodeInfo) (id : Id) (event : Event) (i : Id) :
    (cancelInfo s id event).isPeer i = s.isPeer i := by
  unfold cancelInfo
  split
  · rfl
  · split
    · rfl
    · exact contains_adjustSet s.peers id _ i

/-- A mask that the component does not have cannot be cancelled. -/
theorem cancelInfo_of_not_listed {s : NodeInfo} (h : Inv s) {id : Id} {event : Event}
    (hn : s.listed id event = false) : cancelInfo s id event = s := by
  unfold cancelInfo
  cases hf : s.peers.find? id with
  | none => rfl
  | some comp =>
    have hm : comp.catchEventSet.find? event = none := by
      rw [← Option.not_isSome_iff_eq_none, ← KeyList.contains_eq_isSome, h.set_of_find? hf, hn]
      decide
    simp only [hm]

/-- What a listed mask is cancelled through. -/
theorem find?_of_listed {s : NodeInfo} (h : Inv s) {id : Id} {event : Event}
    (hl : s.listed id event = true) :
    ∃ comp mask, s.peers.find? id = some comp ∧ comp.catchEventSet.find? event = some mask := by
  have hp := h.isPeer_of_listed hl
  obtain ⟨comp, hf⟩ := NodeInfo.find?_of_isPeer hp
  rw [← h.set_of_find? hf, KeyList.contains_eq_isSome] at hl
  obtain ⟨mask, hm⟩ := Option.isSome_iff_exists.1 hl
  exact ⟨comp, mask, hf, hm⟩

theorem listed_cancelInfo {s : NodeInfo} (h : Inv s) (id : Id) (event : Event) (i : Id)
    (m : Event) :
    (cancelInfo s id event).listed i m =
      (s.listed i m && !(isEqualFtbId id i && isEqualEventMask event m)) := by
  cases hl : s.listed id event with
  | false =>
    rw [cancelInfo_of_not_listed h hl]
    by_cases hk : (isEqualFtbId id i && isEqualEventMask event m) = true
    · rw [Bool.and_eq_true] at hk
      have : s.listed i m = false := (lists_congr hk.1 hk.2).symm.trans hl
      rw [this, Bool.false_and]
    · rw [Bool.eq_false_iff.2 hk, Bool.not_false, Bool.and_true]
  | true =>
    obtain ⟨comp, mask, hf, hm⟩ := find?_of_listed h hl
    have hi : isEqualFtbId comp.id i = isEqualFtbId id i :=
      KeyEq.congr_left (KeyList.mem_of_find? hf).2 i
    have hk : isEqualEventMask mask m = isEqualEventMask event m :=
      KeyEq.congr_left (KeyList.mem_of_find? hm).2 m
    rw [cancelInfo_of_find? hf hm, ← hi, ← hk]
    exact lists_catchRemove s.catchEventMap comp.id mask i m

theorem Inv.cancelInfo {s : NodeInfo} (h : Inv s) (id : Id) (event : Event) :
    Inv (cancelInfo s id event) := by
  cases hl : s.listed id event with
  | false => rwa [cancelInfo_of_not_listed h hl]
  | true =>
    have hc := listed_cancelInfo h id event
    obtain ⟨comp, mask, hf, hm⟩ := find?_of_listed h hl
    rw [cancelInfo_of_find? hf hm] at hc ⊢
    refine h.adjustSet id _ (noEmpty_catchRemove h.noEmpty _ _)
      (allRefs_catchRemove h.held _ mask) fun c hm' m => ?_
    have hk : isEqualEventMask mask m = isEqualEventMask event m :=
      KeyEq.congr_left (KeyList.mem_of_find? hm).2 m
    refine (hc c.id m).trans ?_
    rw [KeyEq.comm isEqualFtbId id c.id]
    split
    · rename_i hi
      rw [contains_erase_mask, h.sync c hm', hi, hk]
      rfl
    · rename_i hi
      rw [Bool.eq_false_iff.2 hi]
      simp

/-! ## Components that go -/

theorem isPeer_dropInfo (s : NodeInfo) (id i : Id) :
    (dropInfo s id).isPeer i = (s.isPeer i && !isEqualFtbId id i) := by
  unfold dropInfo NodeInfo.isPeer
  cases hf : s.peers.find? id with
  | none =>
    by_cases hi : isEqualFtbId id i = true
    · rw [hi, KeyList.contains_eq_false ((KeyList.find?_congr hi s.peers).symm.trans hf)]
      rfl
    · simp [Bool.eq_false_iff.2 hi]
  | some comp =>
    rw [Bool.eq_iff_iff, Bool.and_eq_true, KeyList.contains_eq_isSome, KeyList.contains_eq_isSome]
    show ((s.peers.erase comp.id).find? i).isSome = true ↔ _
    rw [KeyList.find?_erase_isSome, KeyEq.congr_left (KeyList.mem_of_find? hf).2, Bool.not_eq_true']

theorem listed_dropInfo {s : NodeInfo} (h : Inv s) (id i : Id) (m : Event) :
    (dropInfo s id).listed i m = (s.listed i m && !isEqualFtbId id i) := by
  unfold dropInfo
  cases hf : s.peers.find? id with
  | none =>
    have hn := h.listed_of_not_isPeer (KeyList.contains_eq_false hf) m
    by_cases hi : isEqualFtbId id i = true
    · have : s.listed i m = false := (lists_congr hi (KeyEq.refl m)).symm.trans hn
      rw [this]
      rfl
    · rw [Bool.eq_false_iff.2 hi, Bool.not_false, Bool.and_true]
  | some comp =>
    have hi : isEqualFtbId comp.id i = isEqualFtbId id i :=
      KeyEq.congr_left (KeyList.mem_of_find? hf).2 i
    have hd := lists_catchDrop s.catchEventMap comp i m
    rw [hi, h.set_of_find? hf] at hd
    refine hd.trans ?_
    by_cases hk : isEqualFtbId id i = true
    · have : s.listed id m = s.listed i m := lists_congr hk (KeyEq.refl m)
      rw [hk, this]
      show (s.listed i m && _) = _
      cases s.listed i m <;> rfl
    · rw [Bool.eq_false_iff.2 hk]
      rfl

theorem Inv.dropComp {s : NodeInfo} (h : Inv s) {comp : CompInfo} (hc : comp ∈ s.peers.nodes) :
    Inv (dropComp s comp) := by
  have hf : s.peers.find? comp.id = some comp := KeyList.find?_of_mem hc
  have hl := listed_dropInfo h comp.id
  rw [dropInfo_of_find? hf] at hl
  refine ⟨noEmpty_catchDrop h.noEmpty comp, ?_, ?_, ?_, ?_⟩
  · intro ent he r hr
    obtain ⟨c, hm, rfl⟩ := allRefs_catchDrop h.held comp ent he r hr
    refine ⟨c, KeyList.mem_erase.2 ⟨hm, ?_⟩, rfl⟩
    -- the dropped component is not listed any more
    by_contra hi
    rw [Bool.not_eq_false] at hi
    have hr' : lists (catchDrop s.catchEventMap comp) c.ref.id ent.mask = true := lists_of_mem he hr
    have : (FTBMI.dropComp s comp).listed c.id ent.mask = false := by
      rw [hl, KeyEq.comm isEqualFtbId, hi]
      simp
    exact absurd (hr'.symm.trans this) (by decide)
  · intro c hm m
    obtain ⟨hm, hi⟩ := KeyList.mem_erase.1 hm
    rw [hl, KeyEq.comm isEqualFtbId, hi, h.sync c hm]
    simp
  · exact fun c hm => h.fresh c (KeyList.mem_of_mem_erase hm)
  · exact h.addrs.sublist List.eraseP_sublist

theorem Inv.dropInfo {s : NodeInfo} (h : Inv s) (id : Id) : Inv (dropInfo s id) := by
  unfold FTBMI.dropInfo
  cases hf : s.peers.find? id with
  | none => exact h
  | some comp => exact h.dropComp (KeyList.mem_of_find? hf).1

/-- The loop of a cleanup over some of the peers. -/
theorem Inv.foldl_dropComp {s : NodeInfo} (h : Inv s) (location : LocationId)
    {comps : List CompInfo} (hd : comps.Pairwise fun c d => isEqualFtbId c.id d.id = false)
    (hm : ∀ c ∈ comps, c ∈ s.peers.nodes) :
    let s' := comps.foldl (fun s comp =>
      if isEqualLocationId location comp.id.locationId then FTBMI.dropComp s comp else s) s
    let gone := fun i => comps.any fun c =>
      isEqualLocationId location c.id.locationId && isEqualFtbId c.id i
    Inv s' ∧ (∀ i, s'.isPeer i = (s.isPeer i && !gone i)) ∧
      ∀ i m, s'.listed i m = (s.listed i m && !gone i) := by
  induction comps generalizing s with
  | nil => simp [h]
  | cons c comps ih =>
    obtain ⟨hc, hd⟩ := List.pairwise_cons.1 hd
    have hcm : c ∈ s.peers.nodes := hm c List.mem_cons_self
    have hcs : ∀ d ∈ comps, d ∈ s.peers.nodes := fun d hd => hm d (List.mem_cons_of_mem _ hd)
    simp only [List.foldl_cons, List.any_cons]
    split
    · rename_i hl
      have hf := dropInfo_of_find? (KeyList.find?_of_mem hcm)
      have hp := isPeer_dropInfo s c.id
      have hls := listed_dropInfo h c.id
      rw [hf] at hp hls
      -- the later components are still there
      have hcs' : ∀ d ∈ comps, d ∈ (FTBMI.dropComp s c).peers.nodes := fun d hd =>
        KeyList.mem_erase.2 ⟨hcs d hd, (KeyEq.comm isEqualFtbId _ _).trans (hc d hd)⟩
      obtain ⟨h', hp', hl'⟩ := ih (h.dropComp hcm) hd hcs'
      refine ⟨h', fun i => ?_, fun i m => ?_⟩
      · rw [hp', hp, hl, Bool.true_and, Bool.not_or, Bool.and_assoc]
      · rw [hl', hls, hl, Bool.true_and, Bool.not_or, Bool.and_assoc]
    · rename_i hl
      rw [Bool.eq_false_iff.2 hl]
      simpa using ih h hd hcs

theorem cleanupInfo_spec {s : NodeInfo} (h : Inv s) (location : LocationId) :
    Inv (cleanupInfo s location) ∧
      (∀ i, (cleanupInfo s location).isPeer i =
        (s.isPeer i && !isEqualLocationId location i.locationId)) ∧
      ∀ i m, (cleanupInfo s location).listed i m =
        (s.listed i m && !isEqualLocationId location i.locationId) := by
  obtain ⟨h', hp, hl⟩ := h.foldl_dropComp location s.peers.distinct fun _ hc => hc
  -- for a peer, to be dropped is to be at the location
  have hg : ∀ i, s.isPeer i = true → (s.peers.nodes.any fun c =>
      isEqualLocationId location c.id.locationId && isEqualFtbId c.id i) =
        isEqualLocationId location i.locationId := by
    intro i hi
    have hloc : ∀ {c : CompInfo}, isEqualFtbId c.id i = true →
        isEqualLocationId location c.id.locationId =
          isEqualLocationId location i.locationId := fun hc =>
      KeyEq.congr_right (isEqualLocationId_of_ftbId hc) location
    obtain ⟨c, hc, hci⟩ := NodeInfo.isPeer_iff.1 hi
    rw [Bool.eq_iff_iff, List.any_eq_true]
    refine ⟨fun ⟨d, _, hd⟩ => ?_, fun hlc => ⟨c, hc, ?_⟩⟩
    · rw [Bool.and_eq_true] at hd
      rw [← hloc hd.2, hd.1]
    · rw [hloc hci, hlc, hci]
      rfl
  refine ⟨h', fun i => ?_, fun i m => ?_⟩
  · refine (hp i).trans ?_
    cases hi : s.isPeer i with
    | false => rfl
    | true => exact congrArg (true && !·) (hg i hi)
  · refine (hl i m).trans ?_
    cases hi : s.listed i m with
    | false => rfl
    | true => exact congrArg (true && !·) (hg i (h.isPeer_of_listed hi))

/-! ## Attachment -/

theorem attachInfo_spec {s : NodeInfo} (h : Inv s) (parent : LocationId) :
    Inv (attachInfo s parent) ∧
      (∀ i, (attachInfo s parent).isPeer i =
        (s.isPeer i || (!s.leaf && parent.pid != 0 && isEqualFtbId (agentId parent) i))) ∧
      ∀ i m, (attachInfo s parent).listed i m = s.listed i m := by
  have hs : Inv { s with parent } := ⟨h.noEmpty, h.held, h.sync, h.fresh, h.addrs⟩
  have hb : ∀ {b : Bool} (i : Id), b = false → s.isPeer i = (s.isPeer i || (b && isEqualFtbId
      (agentId parent) i)) := by
    intro b i hb
    rw [hb, Bool.false_and, Bool.or_false]
  unfold attachInfo
  split
  · rename_i hc
    have hn : (!s.leaf && parent.pid != 0) = false := by
      rw [Bool.and_eq_true] at hc
      rw [hc.1, Bool.not_true, Bool.false_and]
    exact ⟨⟨h.noEmpty, h.held, h.sync, h.fresh, h.addrs⟩, fun i => hb i hn, fun _ _ => rfl⟩
  · split
    · rename_i hc
      refine ⟨hs.registerInfo _, fun i => ?_, fun _ _ => rfl⟩
      rw [isPeer_registerInfo, hc, Bool.true_and]
      rfl
    · rename_i hc
      exact ⟨hs, fun i => hb i (Bool.eq_false_iff.2 hc), fun _ _ => rfl⟩

end FTBMI
