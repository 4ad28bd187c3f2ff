import Ftb.Agent
import Ftb.Lib.Layout
import Ftb.Util.Map

/-!
# The agent in memory (`ftb_manager_lib.c`, `ftb_agent.c`)

The functions of an agent (`FTBMI_info.leaf` is 0) with the memory they allocate, use and free: the
components, the copies of the masks, the lists of catchers, and the maps. A map is one block, its
head with the nodes behind it in their order (`Ftb.Util.Map` is about the nodes). The key and the
data of a node are pointers; `&comp->id` is the address of the component, whose first field it is.

A function has no value where it touches a block that is not allocated: freed memory is never read,
written or freed again by a run that has one. `malloc` returns any free address and does not fail.
The locks are left out, as in `Ftb.Manager.Ops`.
-/

open FTB FTBU FTBN FTBMI Layout

namespace FTBM.Memory

/-- `FTBU_map_node_t` of an entry: what its key and its data point to. -/
structure Node where
  key : Nat
  data : Nat
  deriving DecidableEq, Repr

/-- What `malloc` was called for. -/
inductive Block
  /-- `FTBMI_comp_info_t`. -/
  | comp (id : Id) (catchEventSet : Nat)
  /-- A copy of a mask. -/
  | mask (event : Event)
  /-- The head of a map and its nodes. -/
  | map (nodes : List Node)
  /-- The list of `FTBM_Get_catcher_comp_list`. -/
  | ids (list : List (Option Id))

section
variable (h : Heap Block)

/-- `comp->id` and `comp->catch_event_set`. -/
def compAt (addr : Nat) : Option (Id × Nat) :=
  match h.cells addr with
  | some (.comp id catchEventSet) => some (id, catchEventSet)
  | _ => none

def maskAt (addr : Nat) : Option Event :=
  match h.cells addr with
  | some (.mask event) => some event
  | _ => none

def mapAt (addr : Nat) : Option (List Node) :=
  match h.cells addr with
  | some (.map nodes) => some nodes
  | _ => none

def idsAt (addr : Nat) : Option (List (Option Id)) :=
  match h.cells addr with
  | some (.ids list) => some list
  | _ => none

/-- `FTBMI_util_is_equal_ftb_id` of a key and an id of the caller. -/
def idEq (id : Id) (key : Nat) : Option Bool := (compAt h key).map fun c => isEqualFtbId c.1 id

/-- `FTBMI_util_is_equal_ftb_id` of a key and `&comp->id`. -/
def compEq (comp key : Nat) : Option Bool := do
  let k ← compAt h key
  let c ← compAt h comp
  pure (isEqualFtbId k.1 c.1)

/-- `FTBMI_util_is_equal_event_mask` of a key and a mask of the caller. -/
def eventEq (event : Event) (key : Nat) : Option Bool :=
  (maskAt h key).map fun m => isEqualEventMask m event

/-- `FTBMI_util_is_equal_event_mask` of a key and a copy. -/
def maskEq (mask key : Nat) : Option Bool := do
  let k ← maskAt h key
  let m ← maskAt h mask
  pure (isEqualEventMask k m)

end

/-! ## Maps -/

/-- The loop of `FTBU_map_find_key`. -/
def mapFindKey (eq : Nat → Option Bool) : List Node → Option (Option Node)
  | [] => some none
  | node :: nodes => do
    if ← eq node.key then pure (some node) else mapFindKey eq nodes

/-- `FTBU_map_insert`. -/
def mapInsert (eq : Nat → Option Bool) (head : Nat) (node : Node) (h : Heap Block) :
    Option (Map.MapRet × Heap Block) := do
  let nodes ← mapAt h head
  match ← mapFindKey eq nodes with
  | some _ => pure (.exist, h)
  | none =>
    let h ← h.store head (.map (nodes ++ [node]))
    pure (.success, h)

/-- `FTBU_map_remove_node` of a node of the map `head`. -/
def mapRemoveNode (head : Nat) (node : Node) (h : Heap Block) : Option (Heap Block) := do
  let nodes ← mapAt h head
  h.store head (.map (nodes.erase node))

/-- `FTBU_map_remove_key`. -/
def mapRemoveKey (eq : Nat → Option Bool) (head : Nat) (h : Heap Block) :
    Option (Map.MapRet × Heap Block) := do
  let nodes ← mapAt h head
  match ← mapFindKey eq nodes with
  | none => pure (.notExist, h)
  | some node =>
    let h ← mapRemoveNode head node h
    pure (.success, h)

/-- `FTBU_map_finalize`. -/
def mapFinalize (head : Nat) (h : Heap Block) : Option (Heap Block) := do
  let _ ← mapAt h head
  h.free head

/-! ## The library -/

/-- `FTBMI_info` of an agent, `FTBMI_initialized`, the memory, and the network. `peers` and
`catchEventMap` point to their maps. -/
structure Image (N : Type) where
  parent : LocationId
  self : Id
  errHandling : UInt8
  initialized : Bool
  peers : Nat
  catchEventMap : Nat
  heap : Heap Block
  net : N
  /-- the sets that `FTBMI_util_reconnect` lost; no step reads them -/
  lostSets : List Nat

variable {N : Type} (w : Network N) (alloc : Allocator Block)

/-- The loop of `FTBMI_util_reg_propagation`. -/
def propagationLoop (msgType : MsgType) (event : Event) (incoming : LocationId) :
    List Node → Image N → Option (Image N)
  | [], a => some a
  | node :: nodes, a => do
    let (id, _) ← compAt a.heap node.key
    if !isAgent id || isEqualLocationId id.locationId incoming then
      propagationLoop msgType event incoming nodes a
    else
      let msg : Msg := { msgType, src := a.self, dst := id, event }
      propagationLoop msgType event incoming nodes { a with net := (w.sendMsg msg a.net).2 }

/-- `FTBMI_util_reg_propagation`. -/
def utilRegPropagation (msgType : MsgType) (event : Event) (incoming : LocationId) (a : Image N) :
    Option (Image N) := do
  let nodes ← mapAt a.heap a.peers
  propagationLoop w msgType event incoming nodes a

/-- `FTBMI_util_remove_com_from_catch_map`. -/
def utilRemoveComFromCatchMap (comp mask : Nat) (a : Image N) : Option (Image N) := do
  let nodes ← mapAt a.heap a.catchEventMap
  match ← mapFindKey (maskEq a.heap mask) nodes with
  | none => pure a
  | some iter =>
    let maskManager := iter.key
    let map := iter.data
    let (ret, heap) ← mapRemoveKey (compEq a.heap comp) map a.heap
    if ret = .notExist then pure a
    else
      let left ← mapAt heap map
      if left.isEmpty then
        let heap ← mapFinalize map heap
        let heap ← mapRemoveNode a.catchEventMap iter heap
        let event ← maskAt heap maskManager
        let (id, _) ← compAt heap comp
        let a ← utilRegPropagation w .subscriptionCancel event id.locationId { a with heap }
        let heap ← a.heap.free maskManager
        pure { a with heap }
      else pure { a with heap }

/-- The loop of `FTBMI_util_clean_component`. -/
def cleanLoop (comp : Nat) : List Node → Image N → Option (Image N)
  | [], a => some a
  | node :: nodes, a => do
    let a ← utilRemoveComFromCatchMap w comp node.data a
    let heap ← a.heap.free node.data
    cleanLoop comp nodes { a with heap }

/-- `FTBMI_util_clean_component`. -/
def utilCleanComponent (comp : Nat) (a : Image N) : Option (Image N) := do
  let (_, catchEventSet) ← compAt a.heap comp
  let nodes ← mapAt a.heap catchEventSet
  let a ← cleanLoop w comp nodes a
  let heap ← mapFinalize catchEventSet a.heap
  pure { a with heap }

/-- `FTBMI_lookup_component`. -/
def lookupComponent (id : Id) (a : Image N) : Option (Option Nat) := do
  let nodes ← mapAt a.heap a.peers
  let node ← mapFindKey (idEq a.heap id) nodes
  pure (node.map Node.data)

/-- A component that is allocated and filled, with `FTBU_map_init` for its set. -/
def newComponent (id : Id) (h : Heap Block) : Option (Nat × Nat × Heap Block) := do
  let (comp, h) := alloc.malloc (.comp id 0) h
  let (catchEventSet, h) := alloc.malloc (.map []) h
  let h ← h.store comp (.comp id catchEventSet)
  pure (comp, catchEventSet, h)

/-- The loop over `catch_event_map` that sends every mask to a new peer. -/
def catchesLoop (dst : Id) : List Node → Image N → Option (Image N)
  | [], a => some a
  | node :: nodes, a => do
    let event ← maskAt a.heap node.key
    let msg : Msg := { msgType := .regSubscription, src := a.self, dst, event }
    catchesLoop dst nodes { a with net := (w.sendMsg msg a.net).2 }

/-- What `FTBM_Client_register` and `FTBMI_util_reconnect` send to a new peer. -/
def sendCatches (dst : Id) (a : Image N) : Option (Image N) := do
  let nodes ← mapAt a.heap a.catchEventMap
  catchesLoop w dst nodes a

/-- `FTBMI_util_reconnect`. The set of a component that is in `peers` already is not freed: it
is lost. -/
def utilReconnect (a : Image N) : Option (Image N) := do
  let msg : Msg := { msgType := .clientReg, src := a.self, dst := default, event := default }
  let (_, parent, net) := w.connect msg a.parent a.net
  let a := { a with parent, net }
  if parent.pid != 0 then
    let (comp, set, heap) ← newComponent alloc (agentId parent) a.heap
    let (ret, heap) ← mapInsert (compEq heap comp) a.peers ⟨comp, comp⟩ heap
    if ret = .exist then
      let heap ← heap.free comp
      pure { a with heap, lostSets := a.lostSets ++ [set] }
    else sendCatches w (agentId parent) { a with heap }
  else pure a

/-- `FTBM_Init(0)`, in the process at `location`. -/
def init (location : LocationId) (net : N) : Option (Ret × Image N) := do
  let (peers, heap) := alloc.malloc (.map []) Heap.empty
  let (catchEventMap, heap) := alloc.malloc (.map []) heap
  let self := agentId location
  let msg : Msg := { msgType := .clientReg, src := self, dst := default, event := default }
  let (_, parent, net) := w.connect msg default net
  let a : Image N :=
    { parent, self, errHandling := errHandleRecover, initialized := false, peers, catchEventMap, heap,
      net, lostSets := [] }
  if parent.pid != 0 then
    let (comp, _, heap) ← newComponent alloc (agentId parent) a.heap
    let (ret, heap) ← mapInsert (compEq heap comp) a.peers ⟨comp, comp⟩ heap
    if ret = .exist then
      let heap ← heap.free comp
      pure (.errGeneral, { a with heap })
    else pure (.success, { a with heap, initialized := true })
  else pure (.success, { a with initialized := true })

/-- `FTBM_Client_register`. -/
def clientRegister (id : Id) (a : Image N) : Option (Ret × Image N) := do
  if !a.initialized then pure (.errGeneral, a)
  else
    let (comp, catchEventSet, heap) ← newComponent alloc id a.heap
    let (ret, heap) ← mapInsert (compEq heap comp) a.peers ⟨comp, comp⟩ heap
    if ret = .exist then
      let heap ← mapFinalize catchEventSet heap
      let heap ← heap.free comp
      pure (.errInvalidParameter, { a with heap })
    else if isAgent id then
      let a ← sendCatches w id { a with heap }
      pure (.success, a)
    else pure (.success, { a with heap })

/-- `FTBM_Client_deregister`. -/
def clientDeregister (id : Id) (a : Image N) : Option (Ret × Image N) := do
  if !a.initialized then pure (.errGeneral, a)
  else match ← lookupComponent id a with
    | none => pure (.errInvalidParameter, a)
    | some comp =>
      let a ← utilCleanComponent w comp a
      let (compId, _) ← compAt a.heap comp
      let a :=
        if isManagerName compId then
          { a with net := (w.disconnectPeer compId.locationId a.net).2 }
        else a
      let isParent := isManagerName compId && isEqualLocationId a.parent compId.locationId
      let (_, heap) ← mapRemoveKey (compEq a.heap comp) a.peers a.heap
      let heap ← heap.free comp
      let a := { a with heap }
      if isParent && a.errHandling &&& errHandleRecover != 0 then
        let a ← utilReconnect w alloc a
        pure (.success, a)
      else pure (.success, a)

/-- `FTBM_Register_subscription`. `temp_mask1` is looked up also when it has been freed. -/
def registerSubscription (id : Id) (event : Event) (a : Image N) : Option (Ret × Image N) := do
  if !a.initialized then pure (.errGeneral, a)
  else match ← lookupComponent id a with
    | none => pure (.errInvalidParameter, a)
    | some comp =>
      let (tempMask1, heap) := alloc.malloc (.mask event) a.heap
      let (_, catchEventSet) ← compAt heap comp
      let (ret, heap) ← mapInsert (maskEq heap tempMask1) catchEventSet ⟨tempMask1, tempMask1⟩ heap
      let heap ← if ret = .exist then heap.free tempMask1 else pure heap
      let nodes ← mapAt heap a.catchEventMap
      match ← mapFindKey (maskEq heap tempMask1) nodes with
      | none =>
        let (tempMask2, heap) := alloc.malloc (.mask event) heap
        let (newMap, heap) := alloc.malloc (.map []) heap
        let (_, heap) ← mapInsert (maskEq heap tempMask2) a.catchEventMap ⟨tempMask2, newMap⟩ heap
        let (_, heap) ← mapInsert (compEq heap comp) newMap ⟨comp, comp⟩ heap
        let a ← utilRegPropagation w .regSubscription event id.locationId { a with heap }
        pure (.success, a)
      | some iter =>
        let (ret, heap) ← mapInsert (compEq heap comp) iter.data ⟨comp, comp⟩ heap
        if ret = .exist then pure (.success, { a with heap })
        else
          let a ← utilRegPropagation w .regSubscription event id.locationId { a with heap }
          pure (.success, a)

/-- `FTBM_Cancel_subscription`. -/
def cancelSubscription (id : Id) (event : Event) (a : Image N) : Option (Ret × Image N) := do
  if !a.initialized then pure (.errGeneral, a)
  else match ← lookupComponent id a with
    | none => pure (.errInvalidParameter, a)
    | some comp =>
      let (_, catchEventSet) ← compAt a.heap comp
      let nodes ← mapAt a.heap catchEventSet
      match ← mapFindKey (eventEq a.heap event) nodes with
      | none => pure (.success, a)
      | some iter =>
        let mask := iter.data
        let heap ← mapRemoveNode catchEventSet iter a.heap
        let a ← utilRemoveComFromCatchMap w comp mask { a with heap }
        let heap ← a.heap.free mask
        pure (.success, { a with heap })

/-- `FTBM_Register_publishable_event` and `FTBM_Publishable_event_registration_cancel`. -/
def lookupOnly (id : Id) (a : Image N) : Option Ret := do
  if !a.initialized then pure .errGeneral
  else match ← lookupComponent id a with
    | none => pure .errInvalidParameter
    | some _ => pure .success

/-- `FTBM_Send`. -/
def send (msg : Msg) (a : Image N) : Option (Ret × Image N) := do
  if !a.initialized then pure (.errGeneral, a)
  else
    let (ret, net) := w.sendMsg msg a.net
    let a := { a with net }
    if ret = .success then pure (ret, a)
    else match ← lookupComponent msg.dst a with
      | none => none
      | some comp =>
        let a ← utilCleanComponent w comp a
        let (compId, _) ← compAt a.heap comp
        let a :=
          if isManagerNameCase compId then
            { a with net := (w.disconnectPeer compId.locationId a.net).2 }
          else a
        let (_, heap) ← mapRemoveKey (compEq a.heap comp) a.peers a.heap
        let heap ← heap.free comp
        let a := { a with heap }
        if isEqualLocationId a.parent msg.dst.locationId then
          let a ← utilReconnect w alloc a
          pure (ret, a)
        else pure (ret, a)

/-- The loop of `FTBM_Cleanup_connection` over the nodes of `peers`, with `count`. -/
def cleanupLoop (location : LocationId) : List Node → Nat → Image N → Option (Image N × Nat)
  | [], count, a => some (a, count)
  | node :: nodes, count, a => do
    let (id, _) ← compAt a.heap node.data
    if isEqualLocationId location id.locationId then
      let a ← utilCleanComponent w node.data a
      let heap ← mapRemoveNode a.peers node a.heap
      let heap ← heap.free node.data
      cleanupLoop location nodes (count + 1) { a with heap }
    else cleanupLoop location nodes count a

/-- `FTBM_Cleanup_connection`. -/
def cleanupConnection (location : LocationId) (a : Image N) : Option (Ret × Image N) := do
  if !a.initialized then pure (.errGeneral, a)
  else
    let nodes ← mapAt a.heap a.peers
    let (a, count) ← cleanupLoop w location nodes 0 a
    let ret := if count > 0 then Ret.success else .errGeneral
    if isEqualLocationId a.parent location then
      let a ← utilReconnect w alloc a
      pure (ret, a)
    else pure (ret, a)

/-! ## Catcher lists -/

/-- The inner loop of `FTBM_Get_catcher_comp_list`: the components of a mask, into `catcherSet`. -/
def compsLoop (catcherSet : Nat) : List Node → Nat → Heap Block → Option (Heap Block × Nat)
  | [], tempLen, heap => some (heap, tempLen)
  | node :: nodes, tempLen, heap => do
    let comp := node.data
    let set ← mapAt heap catcherSet
    match ← mapFindKey (compEq heap comp) set with
    | some _ => compsLoop catcherSet nodes tempLen heap
    | none =>
      let (_, heap) ← mapInsert (compEq heap comp) catcherSet ⟨comp, comp⟩ heap
      compsLoop catcherSet nodes (tempLen + 1) heap

/-- The outer loop: the masks that the event matches. -/
def masksLoop (event : Event) (catcherSet : Nat) :
    List Node → Nat → Heap Block → Option (Heap Block × Nat)
  | [], tempLen, heap => some (heap, tempLen)
  | node :: nodes, tempLen, heap => do
    let mask ← maskAt heap node.key
    if matchMask event mask then
      let comps ← mapAt heap node.data
      let (heap, tempLen) ← compsLoop catcherSet comps tempLen heap
      masksLoop event catcherSet nodes tempLen heap
    else masksLoop event catcherSet nodes tempLen heap

/-- The ids that the nodes of `catcher_set` point to. -/
def readIds (heap : Heap Block) : List Node → Option (List Id)
  | [] => some []
  | node :: nodes => do
    let (id, _) ← compAt heap node.data
    let ids ← readIds heap nodes
    pure (id :: ids)

/-- `FTBM_Get_catcher_comp_list`: `*list` and `*len`. -/
def getCatcherCompList (event : Event) (a : Image N) : Option (Except Ret (Nat × Nat) × Image N) := do
  if !a.initialized then pure (.error .errGeneral, a)
  else
    let (catcherSet, heap) := alloc.malloc (.map []) a.heap
    let nodes ← mapAt heap a.catchEventMap
    let (heap, tempLen) ← masksLoop event catcherSet nodes 0 heap
    let (list, heap) := alloc.malloc (.ids (List.replicate tempLen none)) heap
    let nodes ← mapAt heap catcherSet
    let ids ← readIds heap nodes
    let heap ← heap.store list (.ids (applyWrites tempLen (fillWrites ids tempLen)))
    let heap ← mapFinalize catcherSet heap
    pure (.ok (list, tempLen), { a with heap })

/-- `FTBM_Release_comp_list`. -/
def releaseCompList (list : Nat) (a : Image N) : Option (Image N) := do
  let heap ← a.heap.free list
  pure { a with heap }

/-! ## `progress_loop` -/

/-- The loop over `ids`, from the slots `slots` on. -/
def notifyLoop (msg : Msg) (incomingSrc : LocationId) (list : Nat) :
    List Nat → Image N → Option (Image N)
  | [], a => some a
  | i :: slots, a => do
    let ids ← idsAt a.heap list
    match ids[i]? with
    | some (some id) =>
      if Agent.isIncomingAgent id incomingSrc then notifyLoop msg incomingSrc list slots a
      else
        let copy : Msg := { msgType := .notify, src := msg.src, dst := id, event := msg.event }
        let (_, a) ← send w alloc copy a
        notifyLoop msg incomingSrc list slots a
    | _ => none

/-- One turn of `progress_loop`. -/
def progressLoop (msg : Msg) (incomingSrc : LocationId) (a : Image N) : Option (Image N) :=
  match msg.msgType with
  | .notify => do
    match ← getCatcherCompList alloc msg.event a with
    | (.error _, a) => pure a
    | (.ok (list, len), a) =>
      let a ← notifyLoop w alloc msg incomingSrc list (List.range len) a
      releaseCompList list a
  | .clientReg => (clientRegister w alloc msg.src a).map Prod.snd
  | .clientDereg => (clientDeregister w alloc msg.src a).map Prod.snd
  | .cleanupConn => (cleanupConnection w alloc incomingSrc a).map Prod.snd
  | .regSubscription => (registerSubscription w alloc msg.src msg.event a).map Prod.snd
  | .subscriptionCancel => (cancelSubscription w msg.src msg.event a).map Prod.snd
  | .regPublishableEvent => (lookupOnly msg.src a).map fun _ => a
  | .publishableEventRegCancel => (lookupOnly msg.src a).map fun _ => a
  | .unknown _ => some a

/-! ## The end of an agent -/

/-- The loop of `FTBM_Finalize` over `peers`. -/
def finalizeLoop : List Node → Image N → Option (Image N)
  | [], a => some a
  | node :: nodes, a => do
    let comp := node.data
    let a ← utilCleanComponent w comp a
    let (id, _) ← compAt a.heap comp
    let a :=
      if isAgent id then
        let msg : Msg := { msgType := .clientDereg, src := a.self, dst := id, event := default }
        { a with net := (w.sendMsg msg a.net).2 }
      else a
    let heap ← a.heap.free comp
    finalizeLoop nodes { a with heap }

/-- `FTBM_Finalize`; `closing` is `FTBN_Finalize`. -/
def finalize (closing : N → N) (a : Image N) : Option (Ret × Image N) := do
  if !a.initialized then pure (.success, a)
  else
    let a := { a with initialized := false }
    let nodes ← mapAt a.heap a.peers
    let a ← finalizeLoop w nodes a
    let heap ← mapFinalize a.peers a.heap
    let heap ← mapFinalize a.catchEventMap heap
    pure (.success, { a with heap, net := closing a.net })

end FTBM.Memory
