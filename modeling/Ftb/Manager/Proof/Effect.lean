import Ftb.Manager.Proof.Tables

/-!
# The effect of the manager library's functions

Every function changes `FTBMI_info` and sends messages. Both depend on `FTBMI_info` alone: the
network only decides which parent `utilReconnect` finds and whether a send of `FTBM_Send` fails.
So each function is a pure step on `NodeInfo` (`registerInfo`, `subscribeInfo`, `cancelInfo`,
`dropInfo`, `attachInfo`) next to a list of messages, and one theorem a function says that it is
this step and sends these messages.
-/

open FTB FTBU FTBN

namespace FTBMI

variable {N : Type} (w : Network N)

/-! ## The messages -/

/-- What `utilRegPropagation` sends. -/
def propMsgs (s : NodeInfo) (msgType : MsgType) (event : Event) (incoming : LocationId) :
    List Msg :=
  ((s.peers.nodes.map CompInfo.id).filter fun id =>
      isAgent id && !isEqualLocationId id.locationId incoming).map
    fun id => { msgType, src := s.self, dst := id, event }

/-- The subscriptions a new agent is told: every mask of `catch_event_map`. -/
def greetMsgs (s : NodeInfo) (id : Id) : List Msg :=
  s.catchEventMap.nodes.map fun ent =>
    { msgType := .regSubscription, src := s.self, dst := id, event := ent.mask }

/-- What `utilRemoveComFromCatchMap` sends: a cancellation when it empties the mask. -/
def removeMsgs (s : NodeInfo) (id : Id) (mask : Event) : List Msg :=
  match s.catchEventMap.find? mask with
  | none => []
  | some ent =>
    if ent.comps.contains id && (ent.comps.erase id).isEmpty then
      propMsgs s .subscriptionCancel ent.mask id.locationId
    else []

/-- `FTBMI_info` after `utilRemoveComFromCatchMap`. -/
def removeInfo (s : NodeInfo) (id : Id) (mask : Event) : NodeInfo :=
  { s with catchEventMap := catchRemove s.catchEventMap id mask }

/-- What the removals of several masks send. -/
def dropMsgs (id : Id) : List Event → NodeInfo → List Msg
  | [], _ => []
  | mask :: masks, s => removeMsgs s id mask ++ dropMsgs id masks (removeInfo s id mask)

/-- Without a component: its masks and its place in `peers`. -/
def dropComp (s : NodeInfo) (comp : CompInfo) : NodeInfo :=
  { s with catchEventMap := catchDrop s.catchEventMap comp, peers := s.peers.erase comp.id }

/-- What the loop of a cleanup sends: the cancellations of the components at the location. -/
def sweepMsgs (location : LocationId) : List CompInfo → NodeInfo → List Msg
  | [], _ => []
  | comp :: comps, s =>
    if isEqualLocationId location comp.id.locationId then
      dropMsgs comp.id comp.catchEventSet.nodes s ++ sweepMsgs location comps (dropComp s comp)
    else sweepMsgs location comps s

/-- The messages of a propagation depend on the ids in `peers` and on `self`. -/
theorem propMsgs_congr {s s' : NodeInfo}
    (hp : s.peers.nodes.map CompInfo.id = s'.peers.nodes.map CompInfo.id)
    (hs : s.self = s'.self) (t : MsgType) (event : Event) (l : LocationId) :
    propMsgs s t event l = propMsgs s' t event l := by
  unfold propMsgs
  rw [hp, hs]

theorem sendAll_append (l₁ l₂ : List Msg) (net : N) :
    w.sendAll (l₁ ++ l₂) net = w.sendAll l₂ (w.sendAll l₁ net) :=
  List.foldl_append

theorem sendAll_nil (net : N) : w.sendAll [] net = net := rfl

theorem utilRegPropagation_eq (t : MsgType) (event : Event) (l : LocationId) (a : Manager N) :
    utilRegPropagation w t event l a =
      { a with net := w.sendAll (propMsgs a.info t event l) a.net } := rfl

theorem utilRemove_eq (comp : CompInfo) (mask : Event) (a : Manager N) :
    utilRemoveComFromCatchMap w comp mask a =
      ⟨removeInfo a.info comp.id mask, w.sendAll (removeMsgs a.info comp.id mask) a.net⟩ := by
  unfold utilRemoveComFromCatchMap removeInfo removeMsgs catchRemove
  cases a.info.catchEventMap.find? mask with
  | none => rfl
  | some ent =>
    simp only
    cases hc : ent.comps.contains comp.id with
    | false => rfl
    | true =>
      cases he : (ent.comps.erase comp.id).isEmpty with
      | false => rfl
      | true => rfl

theorem foldl_utilRemove_eq (comp : CompInfo) : ∀ (masks : List Event) (a : Manager N),
    masks.foldl (fun a mask => utilRemoveComFromCatchMap w comp mask a) a =
      ⟨masks.foldl (fun s mask => removeInfo s comp.id mask) a.info,
        w.sendAll (dropMsgs comp.id masks a.info) a.net⟩
  | [], _ => rfl
  | mask :: masks, a => by
    rw [List.foldl_cons, foldl_utilRemove_eq comp masks, utilRemove_eq, dropMsgs, sendAll_append]
    rfl

theorem foldl_removeInfo (id : Id) : ∀ (masks : List Event) (s : NodeInfo),
    masks.foldl (fun s mask => removeInfo s id mask) s =
      { s with
        catchEventMap := masks.foldl (fun map mask => catchRemove map id mask) s.catchEventMap }
  | [], _ => rfl
  | mask :: masks, s => by rw [List.foldl_cons, foldl_removeInfo id masks]; rfl

theorem utilCleanComponent_eq (comp : CompInfo) (a : Manager N) :
    utilCleanComponent w comp a =
      ⟨{ a.info with catchEventMap := catchDrop a.info.catchEventMap comp },
        w.sendAll (dropMsgs comp.id comp.catchEventSet.nodes a.info) a.net⟩ := by
  unfold utilCleanComponent catchDrop
  rw [foldl_utilRemove_eq, foldl_removeInfo]

/-! ## The steps on `FTBMI_info` -/

/-- Whether the functions for components do anything. -/
def NodeInfo.ready (s : NodeInfo) : Bool := s.initialized && !s.leaf

theorem NodeInfo.ready_iff {s : NodeInfo} :
    s.ready = true ↔ s.initialized = true ∧ s.leaf = false := by
  rw [ready, Bool.and_eq_true, Bool.not_eq_true']

/-- The first two tests of these functions. -/
theorem ready_guard {α : Type} (s : NodeInfo) (x y z : α) :
    (if !s.initialized then x else if s.leaf then y else z) =
      if s.ready then z else if !s.initialized then x else y := by
  unfold NodeInfo.ready
  cases s.initialized <;> cases s.leaf <;> rfl

/-- A new component, unless its id is in `peers`. -/
def registerInfo (s : NodeInfo) (id : Id) : NodeInfo :=
  { s with nextAddr := s.nextAddr + 1, peers := s.peers.insert ⟨s.nextAddr, id, .empty⟩ }

/-- What the registration sends: its own subscriptions, to a new agent. -/
def registerMsgs (s : NodeInfo) (id : Id) : List Msg :=
  if !s.isPeer id && isAgent id then greetMsgs s id else []

/-- `peers` with the set of a component changed. -/
def adjustSet (peers : Peers) (id : Id) (g : SetEventMask → SetEventMask) : Peers :=
  peers.adjust id (fun c => { c with catchEventSet := g c.catchEventSet }) fun _ => rfl

/-- A mask for a component of `peers`. -/
def subscribeInfo (s : NodeInfo) (id : Id) (event : Event) : NodeInfo :=
  match s.peers.find? id with
  | none => s
  | some comp =>
    { s with
      peers := adjustSet s.peers id (·.insert event), catchEventMap := catchAdd s.catchEventMap comp.ref event }

/-- What a subscription sends: its mask, unless the component is listed under it already. -/
def subscribeMsgs (s : NodeInfo) (id : Id) (event : Event) : List Msg :=
  if s.isPeer id && !s.listed id event then
    propMsgs s .regSubscription event id.locationId
  else []

/-- A mask of a component of `peers` taken back. -/
def cancelInfo (s : NodeInfo) (id : Id) (event : Event) : NodeInfo :=
  match s.peers.find? id with
  | none => s
  | some comp =>
    match comp.catchEventSet.find? event with
    | none => s
    | some mask => removeInfo { s with peers := adjustSet s.peers id (·.erase mask) } comp.id mask

/-- What a cancellation sends. -/
def cancelMsgs (s : NodeInfo) (id : Id) (event : Event) : List Msg :=
  match s.peers.find? id with
  | none => []
  | some comp =>
    match comp.catchEventSet.find? event with
    | none => []
    | some mask => removeMsgs { s with peers := adjustSet s.peers id (·.erase mask) } comp.id mask

/-- Without the component of an id. -/
def dropInfo (s : NodeInfo) (id : Id) : NodeInfo :=
  match s.peers.find? id with
  | none => s
  | some comp => dropComp s comp

/-- Without every component at a location. -/
def cleanupInfo (s : NodeInfo) (location : LocationId) : NodeInfo :=
  s.peers.nodes.foldl (fun s comp =>
    if isEqualLocationId location comp.id.locationId then dropComp s comp else s) s

/-- After `utilReconnect`, when `FTBN_Connect` left `parent`. -/
def attachInfo (s : NodeInfo) (parent : LocationId) : NodeInfo :=
  if s.leaf && parent.pid == 0 then { s with parent, initialized := false }
  else if !s.leaf && parent.pid != 0 then registerInfo { s with parent } (agentId parent)
  else { s with parent }

/-- The result of `FTBN_Connect` in `utilReconnect`. -/
def reconnectResult (a : Manager N) : Ret × LocationId × N :=
  w.connect { msgType := .clientReg, src := a.info.self, dst := default, event := default }
    a.info.parent a.net

theorem map_id_adjustSet (peers : Peers) (id : Id) (g : SetEventMask → SetEventMask) :
    (adjustSet peers id g).nodes.map CompInfo.id = peers.nodes.map CompInfo.id :=
  KeyList.map_key_adjust peers id

theorem subscribeInfo_of_find? {s : NodeInfo} {id : Id} {comp : CompInfo}
    (h : s.peers.find? id = some comp) (event : Event) :
    subscribeInfo s id event =
      { s with
        peers := adjustSet s.peers id (·.insert event)
        catchEventMap := catchAdd s.catchEventMap comp.ref event } := by
  simp only [subscribeInfo, h]

theorem cancelInfo_of_find? {s : NodeInfo} {id : Id} {comp : CompInfo}
    (h : s.peers.find? id = some comp) {event mask : Event}
    (hm : comp.catchEventSet.find? event = some mask) :
    cancelInfo s id event =
      { s with
        peers := adjustSet s.peers id (·.erase mask)
        catchEventMap := catchRemove s.catchEventMap comp.id mask } := by
  simp only [cancelInfo, h, hm]
  rfl

theorem dropInfo_of_find? {s : NodeInfo} {id : Id} {comp : CompInfo}
    (h : s.peers.find? id = some comp) : dropInfo s id = dropComp s comp := by
  simp only [dropInfo, h]

theorem registerInfo_of_contains {s : NodeInfo} {id : Id} (h : s.peers.contains id = true) :
    registerInfo s id = { s with nextAddr := s.nextAddr + 1 } := by
  have hi : s.peers.insert ⟨s.nextAddr, id, .empty⟩ = s.peers := KeyList.insert_of_contains h
  unfold registerInfo
  rw [hi]

/-! ## What no step changes -/

/-- The fields that no step on the tables changes. -/
structure Frame (s s' : NodeInfo) : Prop where
  self : s'.self = s.self
  leaf : s'.leaf = s.leaf
  initialized : s'.initialized = s.initialized

theorem Frame.refl (s : NodeInfo) : Frame s s := ⟨rfl, rfl, rfl⟩

theorem Frame.trans {s s' s'' : NodeInfo} (h : Frame s s') (h' : Frame s' s'') : Frame s s'' :=
  ⟨h'.self.trans h.self, h'.leaf.trans h.leaf, h'.initialized.trans h.initialized⟩

theorem Frame.ready {s s' : NodeInfo} (h : Frame s s') : s'.ready = s.ready := by
  unfold NodeInfo.ready
  rw [h.leaf, h.initialized]

theorem frame_registerInfo (s : NodeInfo) (id : Id) : Frame s (registerInfo s id) :=
  ⟨rfl, rfl, rfl⟩

theorem frame_subscribeInfo (s : NodeInfo) (id : Id) (event : Event) :
    Frame s (subscribeInfo s id event) := by
  unfold subscribeInfo
  split <;> exact ⟨rfl, rfl, rfl⟩

theorem frame_cancelInfo (s : NodeInfo) (id : Id) (event : Event) :
    Frame s (cancelInfo s id event) := by
  unfold cancelInfo
  split
  · exact .refl s
  · split <;> exact ⟨rfl, rfl, rfl⟩

theorem frame_dropInfo (s : NodeInfo) (id : Id) : Frame s (dropInfo s id) := by
  unfold dropInfo
  split <;> exact ⟨rfl, rfl, rfl⟩

theorem frame_cleanupInfo (s : NodeInfo) (location : LocationId) :
    Frame s (cleanupInfo s location) := by
  have loop : ∀ (comps : List CompInfo) (t : NodeInfo), Frame t (comps.foldl (fun s comp =>
      if isEqualLocationId location comp.id.locationId then dropComp s comp else s) t) := by
    intro comps
    induction comps with
    | nil => exact fun t => .refl t
    | cons c comps ih =>
      intro t
      rw [List.foldl_cons]
      split
      · have hd : Frame t (dropComp t c) := ⟨rfl, rfl, rfl⟩
        exact hd.trans (ih _)
      · exact ih t
  exact loop _ s

/-- A cleanup keeps the parent that the agent goes by. -/
theorem parent_cleanupInfo (s : NodeInfo) (location : LocationId) :
    (cleanupInfo s location).parent = s.parent := by
  have loop : ∀ (comps : List CompInfo) (t : NodeInfo), (comps.foldl (fun s comp =>
      if isEqualLocationId location comp.id.locationId then dropComp s comp else s) t).parent =
        t.parent := by
    intro comps
    induction comps with
    | nil => exact fun _ => rfl
    | cons c comps ih =>
      intro t
      rw [List.foldl_cons, ih]
      split <;> rfl
  exact loop _ s

theorem frame_attachInfo {s : NodeInfo} (h : s.leaf = false) (parent : LocationId) :
    Frame s (attachInfo s parent) := by
  unfold attachInfo
  rw [h]
  simp only [Bool.false_and, Bool.false_eq_true, if_false]
  split <;> exact ⟨rfl, h.symm, rfl⟩

/-- What the attachment sends. -/
def attachMsgs (s : NodeInfo) (parent : LocationId) : List Msg :=
  if !s.leaf && parent.pid != 0 then registerMsgs s (agentId parent) else []

/-- An agent attaches to the parent that was found. -/
theorem attach_found {s : NodeInfo} (hl : s.leaf = false) {parent : LocationId}
    (hp : parent.pid ≠ 0) : attachInfo s parent = registerInfo { s with parent } (agentId parent) ∧
      attachMsgs s parent = registerMsgs s (agentId parent) := by
  have hfound : (!s.leaf && parent.pid != 0) = true := by
    rw [hl, Bool.not_false, Bool.true_and]
    exact bne_iff_ne.2 hp
  refine ⟨?_, if_pos hfound⟩
  unfold attachInfo
  rw [if_neg (by rw [hl]; exact Bool.false_ne_true), if_pos hfound]

theorem utilReconnect_eq (a : Manager N) :
    utilReconnect w a =
      ⟨attachInfo a.info (reconnectResult w a).2.1,
        w.sendAll (attachMsgs a.info (reconnectResult w a).2.1) (reconnectResult w a).2.2⟩ := by
  generalize hr : reconnectResult w a = r
  obtain ⟨ret, parent, net⟩ := r
  unfold reconnectResult at hr
  unfold utilReconnect attachInfo attachMsgs registerMsgs NodeInfo.isPeer
  simp only [hr, isAgent_agentId, Bool.and_true]
  cases hl : a.info.leaf with
  | true =>
    cases hp : parent.pid == 0 with
    | true => simp [sendAll_nil]
    | false => simp [sendAll_nil]
  | false =>
    cases hp : parent.pid == 0 with
    | true => simp [bne, hp, sendAll_nil]
    | false =>
      cases hc : a.info.peers.contains (agentId parent) with
      | true =>
        simp [bne, hp, sendAll_nil]
        have hi : a.info.peers.insert ⟨a.info.nextAddr, agentId parent, .empty⟩ = a.info.peers :=
          KeyList.insert_of_contains hc
        unfold registerInfo
        rw [hi]
      | false =>
        simp [bne, hp]
        exact ⟨rfl, rfl⟩

end FTBMI

namespace FTBM

open FTBMI

variable {N : Type} (w : Network N)

/-! ## Initialisation -/

/-- `FTBMI_info` when `FTBM_Init` connects. -/
def blankInfo (leaf : Bool) (location : LocationId) : NodeInfo where
  parent := default
  self :=
    { agentId location with clientId :=
      { (agentId location).clientId with ext := if leaf then 1 else 0 } }
  errHandling := if leaf then 0 else errHandleRecover
  leaf := leaf
  peers := .empty
  catchEventMap := .empty
  initialized := false
  nextAddr := 0

/-- The result of `FTBN_Connect` in `FTBM_Init`. -/
def initResult (leaf : Bool) (location : LocationId) (net : N) : Ret × LocationId × N :=
  w.connect
    { msgType := .clientReg, src := (blankInfo leaf location).self, dst := default, event := default }
    default net

/-- `FTBM_Init` attaches to the parent as a reconnection does. -/
theorem init_eq (leaf : Bool) (location : LocationId) (net : N) :
    (init w leaf location net).2 =
      ⟨{ attachInfo (blankInfo leaf location) (initResult w leaf location net).2.1 with
          initialized := !(leaf && (initResult w leaf location net).2.1.pid == 0) },
        (initResult w leaf location net).2.2⟩ := by
  generalize hr : initResult w leaf location net = r
  obtain ⟨ret, parent, net'⟩ := r
  unfold initResult blankInfo at hr
  unfold init attachInfo
  simp only [hr]
  cases hp : parent.pid == 0 with
  | true => cases leaf <;> simp [bne, hp, blankInfo]
  | false => cases leaf <;> simp [bne, hp, blankInfo, registerInfo]

/-! ## One theorem a function -/

theorem clientRegister_eq (id : Id) (a : Manager N) :
    (clientRegister w id a).2 =
      if a.info.ready then
        ⟨registerInfo a.info id, w.sendAll (registerMsgs a.info id) a.net⟩
      else a := by
  unfold clientRegister registerMsgs
  rw [ready_guard]
  split
  · show Prod.snd (if a.info.peers.contains id = true then _ else _) = _
    cases hc : a.info.peers.contains id with
    | true => simp [registerInfo_of_contains hc, NodeInfo.isPeer, hc, sendAll_nil]
    | false =>
      cases ha : isAgent id with
      | true => simp [NodeInfo.isPeer, hc, registerInfo, greetMsgs]
      | false => simp [registerInfo, sendAll_nil]
  · split <;> rfl

theorem registerSubscription_eq (id : Id) (event : Event) (a : Manager N) :
    (registerSubscription w id event a).2 =
      if a.info.ready then
        ⟨subscribeInfo a.info id event, w.sendAll (subscribeMsgs a.info id event) a.net⟩
      else a := by
  unfold registerSubscription
  rw [ready_guard]
  split
  · unfold subscribeInfo subscribeMsgs NodeInfo.isPeer NodeInfo.listed lists catchAdd
    rw [KeyList.contains_eq_isSome]
    cases hf : a.info.peers.find? id with
    | none => rfl
    | some comp =>
      have hid : isEqualFtbId comp.ref.id id = true := (KeyList.mem_of_find? hf).2
      have hprop : ∀ map, propMsgs { a.info with
          peers := adjustSet a.info.peers id (·.insert event), catchEventMap := map }
          .regSubscription event id.locationId =
            propMsgs a.info .regSubscription event id.locationId := fun map => by
        apply propMsgs_congr
        · exact map_id_adjustSet a.info.peers id _
        · rfl
      cases hm : a.info.catchEventMap.find? event with
      | none =>
        simp only [hm, utilRegPropagation_eq]
        exact congrArg (fun msgs => Manager.mk _ (w.sendAll msgs a.net)) (hprop _)
      | some ent =>
        have hc : ent.comps.contains id = ent.comps.contains comp.ref.id := by
          rw [KeyList.contains_eq_isSome, KeyList.contains_eq_isSome, KeyList.find?_congr hid]
        simp only [hm, Option.any_some, hc, utilRegPropagation_eq]
        show Prod.snd (if ent.comps.contains comp.ref.id = true then _ else _) = _
        cases ent.comps.contains comp.ref.id with
        | true => rfl
        | false => exact congrArg (fun msgs => Manager.mk _ (w.sendAll msgs a.net)) (hprop _)
  · split <;> rfl

theorem cancelSubscription_eq (id : Id) (event : Event) (a : Manager N) :
    (cancelSubscription w id event a).2 =
      if a.info.ready then
        ⟨cancelInfo a.info id event, w.sendAll (cancelMsgs a.info id event) a.net⟩
      else a := by
  unfold cancelSubscription
  rw [ready_guard]
  split
  · unfold cancelInfo cancelMsgs
    cases hf : a.info.peers.find? id with
    | none => rfl
    | some comp =>
      cases hm : comp.catchEventSet.find? event with
      | none => simp only [hm]; rfl
      | some mask => simp only [hm, utilRemove_eq]; rfl
  · split <;> rfl

/-! ## Functions that drop components -/

/-- What the network went through while only messages were sent and connections closed. -/
inductive Traffic : N → N → Prop
  | refl (net : N) : Traffic net net
  | send {net net' : N} (msg : Msg) : Traffic net net' → Traffic net (w.sendMsg msg net').2
  | disconnect {net net' : N} (location : LocationId) :
      Traffic net net' → Traffic net (w.disconnectPeer location net').2

theorem Traffic.sendAll {net net' : N} (h : Traffic w net net') :
    ∀ msgs : List Msg, Traffic w net (w.sendAll msgs net') := by
  intro msgs
  induction msgs generalizing net' with
  | nil => exact h
  | cons msg msgs ih => exact ih (.send msg h)

theorem Traffic.trans {net net' net'' : N} (h : Traffic w net net') (h' : Traffic w net' net'') :
    Traffic w net net'' := by
  induction h' with
  | refl => exact h
  | send msg _ ih => exact .send msg ih
  | disconnect l _ ih => exact .disconnect l ih

/-- A deregistration drops the component. If that is the parent and the agent recovers, the agent
reconnects. -/
theorem clientDeregister_cases (id : Id) (a : Manager N) :
    (clientDeregister w id a).2 = a ∧ (a.info.ready = true → dropInfo a.info id = a.info) ∨
      ∃ net, Traffic w a.net net ∧ ((clientDeregister w id a).2 = ⟨dropInfo a.info id, net⟩ ∨
        (clientDeregister w id a).2 = utilReconnect w ⟨dropInfo a.info id, net⟩) := by
  unfold clientDeregister
  rw [ready_guard]
  split
  · cases hf : a.info.peers.find? id with
    | none => exact .inl ⟨rfl, fun _ => by simp only [dropInfo, hf]⟩
    | some comp =>
      right
      rw [dropInfo_of_find? hf]
      simp only [utilCleanComponent_eq]
      cases isManagerName comp.id with
      | false => exact ⟨_, Traffic.sendAll w (.refl _) _, .inl rfl⟩
      | true =>
        let msgs := dropMsgs comp.id comp.catchEventSet.nodes a.info
        have ht : Traffic w a.net (w.sendAll msgs a.net) := Traffic.sendAll w (.refl _) msgs
        refine ⟨_, .disconnect comp.id.locationId ht, ?_⟩
        simp only [Bool.true_and, if_true]
        split
        · exact .inr rfl
        · exact .inl rfl
  · rename_i hr
    left
    exact ⟨by split <;> rfl, fun h => absurd h hr⟩

theorem cleanupLoop_eq (location : LocationId) : ∀ (comps : List CompInfo) (a : Manager N),
    cleanupLoop w location comps a =
      ⟨comps.foldl (fun s comp =>
        if isEqualLocationId location comp.id.locationId then dropComp s comp else s) a.info,
        w.sendAll (sweepMsgs location comps a.info) a.net⟩
  | [], _ => rfl
  | comp :: comps, a => by
    unfold cleanupLoop sweepMsgs
    rw [List.foldl_cons, List.foldl_cons]
    split
    · have ih := cleanupLoop_eq location comps ⟨dropComp a.info comp,
        w.sendAll (dropMsgs comp.id comp.catchEventSet.nodes a.info) a.net⟩
      unfold cleanupLoop at ih
      rw [sendAll_append, utilCleanComponent_eq]
      exact ih
    · exact cleanupLoop_eq location comps a

/-- **A cleanup drops the components at a location.** If that is the parent's, the agent
reconnects. -/
theorem cleanupConnection_eq (location : LocationId) {a : Manager N}
    (hi : a.info.initialized = true) :
    (cleanupConnection w location a).2 =
      let swept : Manager N := ⟨cleanupInfo a.info location,
        w.sendAll (sweepMsgs location a.info.peers.nodes a.info) a.net⟩
      if isEqualLocationId swept.info.parent location then utilReconnect w swept else swept := by
  unfold cleanupConnection
  simp only [hi, cleanupLoop_eq, Bool.not_true, Bool.false_eq_true, if_false]
  unfold cleanupInfo
  split <;> rfl

theorem cleanupConnection_cases (location : LocationId) (a : Manager N) :
    (cleanupConnection w location a).2 = a ∧ a.info.initialized = false ∨
      ∃ net, Traffic w a.net net ∧
        ((cleanupConnection w location a).2 = ⟨cleanupInfo a.info location, net⟩ ∨
          (cleanupConnection w location a).2 =
            utilReconnect w ⟨cleanupInfo a.info location, net⟩) := by
  cases hi : a.info.initialized with
  | false =>
    unfold cleanupConnection
    rw [hi]
    exact .inl ⟨rfl, rfl⟩
  | true =>
    right
    refine ⟨_, Traffic.sendAll w (.refl _) (sweepMsgs location a.info.peers.nodes a.info), ?_⟩
    rw [cleanupConnection_eq w location hi]
    dsimp only
    split
    · exact .inr rfl
    · exact .inl rfl

/-! ## A send -/

section
variable {msg : Msg} {a : Manager N}

theorem send_of_success (hi : a.info.initialized = true)
    (hret : (w.sendMsg msg a.net).1 = .success) :
    send w msg a = some (.success, ⟨a.info, (w.sendMsg msg a.net).2⟩) := by
  unfold send
  rw [if_neg (by simp [hi])]
  dsimp only
  rw [if_pos hret, hret]

/-- The network behind a component that an agent drops: its masks are cancelled, and the connection of
a manager is closed. -/
def dropNet (comp : CompInfo) (s : NodeInfo) (net : N) : N :=
  let net := w.sendAll (dropMsgs comp.id comp.catchEventSet.nodes s) net
  if isManagerNameCase comp.id then (w.disconnectPeer comp.id.locationId net).2 else net

theorem traffic_dropNet (comp : CompInfo) (s : NodeInfo) (net : N) :
    Traffic w net (dropNet w comp s net) := by
  have ht := Traffic.sendAll w (.refl net) (dropMsgs comp.id comp.catchEventSet.nodes s)
  unfold dropNet
  dsimp only
  split
  · exact .disconnect comp.id.locationId ht
  · exact ht

/-- The end of a failed send: the agent or client reconnects if it went to its parent. -/
def reattach (msg : Msg) (b : Manager N) : Manager N :=
  if isEqualLocationId b.info.parent msg.dst.locationId then utilReconnect w b else b

theorem reattach_eq (msg : Msg) (ret : Ret) (b : Manager N) :
    (if isEqualLocationId b.info.parent msg.dst.locationId then some (ret, utilReconnect w b)
      else some (ret, b)) = some (ret, reattach w msg b) := by
  unfold reattach
  split <;> rfl

theorem reattach_cases (msg : Msg) (b : Manager N) :
    reattach w msg b = b ∨ reattach w msg b = utilReconnect w b := by
  unfold reattach
  split
  · exact .inr rfl
  · exact .inl rfl

/-- **A send of an agent that fails** drops the destination. No value if there is none. -/
theorem send_of_failure (hi : a.info.initialized = true) (hl : a.info.leaf = false)
    (hret : (w.sendMsg msg a.net).1 ≠ .success) :
    send w msg a = (a.info.peers.find? msg.dst).map fun comp =>
      ((w.sendMsg msg a.net).1, reattach w msg
        ⟨dropComp a.info comp, dropNet w comp a.info (w.sendMsg msg a.net).2⟩) := by
  unfold send
  rw [if_neg (by simp [hi])]
  dsimp only
  rw [if_neg hret, if_pos (by simp [hl])]
  cases a.info.peers.find? msg.dst with
  | none => rfl
  | some comp =>
    simp only [utilCleanComponent_eq, Option.map_some, dropNet]
    cases isManagerNameCase comp.id with
    | true => exact reattach_eq w msg _ ⟨dropComp a.info comp, _⟩
    | false => exact reattach_eq w msg _ ⟨dropComp a.info comp, _⟩

/-- **What a send can do.** -/
theorem send_inv {r : Ret × Manager N} (h : send w msg a = some r) :
    (a.info.initialized = false ∧ r.2 = a) ∨
    ((w.sendMsg msg a.net).1 = .success ∧ r.2 = ⟨a.info, (w.sendMsg msg a.net).2⟩) ∨
    (a.info.leaf = true ∧ r.2 = reattach w msg ⟨a.info, (w.sendMsg msg a.net).2⟩) ∨
    ∃ comp, a.info.peers.find? msg.dst = some comp ∧ r.2 = reattach w msg
      ⟨dropComp a.info comp, dropNet w comp a.info (w.sendMsg msg a.net).2⟩ := by
  cases hi : a.info.initialized with
  | false =>
    unfold send at h
    rw [if_pos (by simp [hi])] at h
    cases h
    exact .inl ⟨rfl, rfl⟩
  | true =>
    by_cases hret : (w.sendMsg msg a.net).1 = .success
    · rw [send_of_success w hi hret] at h
      cases h
      exact .inr (.inl ⟨hret, rfl⟩)
    · cases hl : a.info.leaf with
      | false =>
        rw [send_of_failure w hi hl hret] at h
        obtain ⟨comp, hf, rfl⟩ := Option.map_eq_some_iff.1 h
        exact .inr (.inr (.inr ⟨comp, hf, rfl⟩))
      | true =>
        have hsend : send w msg a = some ((w.sendMsg msg a.net).1,
            reattach w msg ⟨a.info, (w.sendMsg msg a.net).2⟩) := by
          unfold send
          rw [if_neg (by simp [hi])]
          dsimp only
          rw [if_neg hret, if_neg (by simp [hl])]
          exact reattach_eq w msg _ _
        rw [hsend] at h
        cases h
        exact .inr (.inr (.inl ⟨rfl, rfl⟩))

end

/-- A send that succeeds only adds traffic. One that fails drops the destination, at an agent,
and the agent or client reconnects if that was its parent. -/
theorem send_cases {msg : Msg} {a : Manager N} {r : Ret × Manager N} (h : send w msg a = some r) :
    ∃ s net, Traffic w a.net net ∧
      (s = a.info ∧ (a.info.ready = true → (w.sendMsg msg a.net).1 = .success ∧
          r.2 = ⟨a.info, (w.sendMsg msg a.net).2⟩) ∨ s = dropInfo a.info msg.dst) ∧
      (r.2 = ⟨s, net⟩ ∨ r.2 = utilReconnect w ⟨s, net⟩) := by
  have ht : Traffic w a.net (w.sendMsg msg a.net).2 := .send msg (.refl _)
  have hunready : a.info.initialized = false ∨ a.info.leaf = true → a.info.ready ≠ true := by
    intro hno hr
    obtain ⟨hi, hl⟩ := NodeInfo.ready_iff.1 hr
    rw [hi, hl] at hno
    simp at hno
  rcases send_inv w h with ⟨hi, he⟩ | ⟨hret, he⟩ | ⟨hl, he⟩ | ⟨comp, hf, he⟩
  · exact ⟨_, _, .refl _, .inl ⟨rfl, fun hr => absurd hr (hunready (.inl hi))⟩, .inl he⟩
  · exact ⟨_, _, ht, .inl ⟨rfl, fun _ => ⟨hret, he⟩⟩, .inl he⟩
  · rw [he]
    exact ⟨_, _, ht, .inl ⟨rfl, fun hr => absurd hr (hunready (.inr hl))⟩, reattach_cases w msg _⟩
  · rw [he]
    exact ⟨_, _, ht.trans w (traffic_dropNet w comp a.info _), .inr (dropInfo_of_find? hf).symm,
      reattach_cases w msg _⟩

end FTBM
