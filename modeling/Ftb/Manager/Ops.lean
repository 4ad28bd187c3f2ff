import Ftb.Manager.State

/-!
# The functions of the manager library (`ftb_manager_lib.c`)

Every function of the library that reads or changes `FTBMI_info`, over any network layer `w`.
The locks are left out: one thread of an agent runs these functions, and no other thread touches
`FTBMI_info`. A message field that the code leaves uninitialised holds `default`.
-/

open FTB FTBU FTBN

namespace FTBMI

variable {N : Type} (w : Network N)

/-- `FTBMI_util_reg_propagation`: to the other agents in `peers`, but not to those at the
location the message came from. -/
def utilRegPropagation (msgType : MsgType) (event : Event) (incoming : LocationId)
    (a : Manager N) : Manager N :=
  let ids := (a.info.peers.nodes.map CompInfo.id).filter fun id =>
    isAgent id && !isEqualLocationId id.locationId incoming
  let msgs := ids.map fun id => { msgType, src := a.info.self, dst := id, event }
  { a with net := w.sendAll msgs a.net }

/-- `FTBMI_util_remove_com_from_catch_map`. -/
def utilRemoveComFromCatchMap (comp : CompInfo) (mask : Event) (a : Manager N) : Manager N :=
  match a.info.catchEventMap.find? mask with
  | none => a
  | some ent =>
    if !ent.comps.contains comp.id then a
    else
      let map := ent.comps.erase comp.id
      if map.isEmpty then
        let info := { a.info with catchEventMap := a.info.catchEventMap.erase ent.mask }
        utilRegPropagation w .subscriptionCancel ent.mask comp.id.locationId { a with info }
      else
        { a with info := { a.info with
            catchEventMap := a.info.catchEventMap.adjust mask (fun x => { x with comps := map })
              fun _ => rfl } }

/-- `FTBMI_util_clean_component`. The set itself is freed; the callers remove the component from
`peers` next. -/
def utilCleanComponent (comp : CompInfo) (a : Manager N) : Manager N :=
  comp.catchEventSet.nodes.foldl (fun a mask => utilRemoveComFromCatchMap w comp mask a) a

/-- `FTBMI_util_reconnect`. -/
def utilReconnect (a : Manager N) : Manager N :=
  let msg : Msg := { msgType := .clientReg, src := a.info.self, dst := default, event := default }
  let (_, parent, net) := w.connect msg a.info.parent a.net
  let a : Manager N := { info := { a.info with parent }, net }
  if a.info.leaf && parent.pid == 0 then
    { a with info := { a.info with initialized := false } }
  else if !a.info.leaf && parent.pid != 0 then
    let comp : CompInfo := ⟨a.info.nextAddr, agentId parent, .empty⟩
    let info := { a.info with nextAddr := a.info.nextAddr + 1 }
    if info.peers.contains comp.id then { a with info }
    else
      let info := { info with peers := info.peers.insert comp }
      let msgs := info.catchEventMap.nodes.map fun ent =>
        { msgType := .regSubscription, src := info.self, dst := comp.id, event := ent.mask }
      { info, net := w.sendAll msgs a.net }
  else a

end FTBMI

namespace FTBM

open FTBMI

variable {N : Type} (w : Network N)

/-- `FTBM_Init`, from the zeroed `FTBMI_info`, in the process at `location`. -/
def init (leaf : Bool) (location : LocationId) (net : N) : Ret × Manager N :=
  let self : Id :=
    { agentId location with clientId :=
      { (agentId location).clientId with ext := if leaf then 1 else 0 } }
  let msg : Msg := { msgType := .clientReg, src := self, dst := default, event := default }
  let (_, parent, net) := w.connect msg default net
  let info : NodeInfo :=
    { parent, self, errHandling := if leaf then 0 else errHandleRecover, leaf, peers := .empty,
      catchEventMap := .empty, initialized := false, nextAddr := 0 }
  if leaf && parent.pid == 0 then (.errGeneral, { info, net })
  else
    let info :=
      if !leaf && parent.pid != 0 then
        { info with nextAddr := 1, peers := KeyList.empty.insert ⟨0, agentId parent, .empty⟩ }
      else info
    (.success, { info := { info with initialized := true }, net })

/-- `FTBM_Client_register`. -/
def clientRegister (id : Id) (a : Manager N) : Ret × Manager N :=
  if !a.info.initialized then (.errGeneral, a)
  else if a.info.leaf then (.errNotSupported, a)
  else
    let comp : CompInfo := ⟨a.info.nextAddr, id, .empty⟩
    let info := { a.info with nextAddr := a.info.nextAddr + 1 }
    if info.peers.contains comp.id then (.errInvalidParameter, { a with info })
    else
      let info := { info with peers := info.peers.insert comp }
      if isAgent id then
        let msgs := info.catchEventMap.nodes.map fun ent =>
          { msgType := .regSubscription, src := info.self, dst := id, event := ent.mask }
        (.success, { info, net := w.sendAll msgs a.net })
      else (.success, { a with info })

/-- The exact names `FTBM_Client_deregister` tests before it closes the connection. -/
def isManagerName (id : Id) : Bool :=
  id.clientId.compCat == "FTB_COMP_CAT_BACKPLANE".toList
    && id.clientId.comp == "FTB_COMP_MANAGER".toList

/-- `FTBM_Client_deregister`. -/
def clientDeregister (id : Id) (a : Manager N) : Ret × Manager N :=
  if !a.info.initialized then (.errGeneral, a)
  else if a.info.leaf then (.errNotSupported, a)
  else match a.info.peers.find? id with
    | none => (.errInvalidParameter, a)
    | some comp =>
      let a := utilCleanComponent w comp a
      let a :=
        if isManagerName comp.id then
          { a with net := (w.disconnectPeer comp.id.locationId a.net).2 }
        else a
      let isParent := isManagerName comp.id && isEqualLocationId a.info.parent comp.id.locationId
      let a := { a with info := { a.info with peers := a.info.peers.erase comp.id } }
      if isParent && a.info.errHandling &&& errHandleRecover != 0 then
        (.success, utilReconnect w a)
      else (.success, a)

/-- `FTBM_Register_subscription`. A mask that the component has already is looked up through the
released copy; the copy is taken to keep its content. -/
def registerSubscription (id : Id) (event : Event) (a : Manager N) : Ret × Manager N :=
  if !a.info.initialized then (.errGeneral, a)
  else if a.info.leaf then (.errNotSupported, a)
  else match a.info.peers.find? id with
    | none => (.errInvalidParameter, a)
    | some comp =>
      let peers := a.info.peers.adjust id
        (fun c => { c with catchEventSet := c.catchEventSet.insert event }) fun _ => rfl
      let info := { a.info with peers }
      match info.catchEventMap.find? event with
      | none =>
        let ent : CatchEntry := ⟨event, KeyList.empty.insert comp.ref⟩
        let info := { info with catchEventMap := info.catchEventMap.insert ent }
        (.success, utilRegPropagation w .regSubscription event id.locationId { a with info })
      | some ent =>
        if ent.comps.contains comp.id then (.success, { a with info })
        else
          let map := ent.comps.insert comp.ref
          let info := { info with
            catchEventMap := info.catchEventMap.adjust event (fun x => { x with comps := map })
              fun _ => rfl }
          (.success, utilRegPropagation w .regSubscription event id.locationId { a with info })

/-- `FTBM_Cancel_subscription`. -/
def cancelSubscription (id : Id) (event : Event) (a : Manager N) : Ret × Manager N :=
  if !a.info.initialized then (.errGeneral, a)
  else if a.info.leaf then (.errNotSupported, a)
  else match a.info.peers.find? id with
    | none => (.errInvalidParameter, a)
    | some comp =>
      match comp.catchEventSet.find? event with
      | none => (.success, a)
      | some mask =>
        let peers := a.info.peers.adjust id
          (fun c => { c with catchEventSet := c.catchEventSet.erase mask }) fun _ => rfl
        (.success, utilRemoveComFromCatchMap w comp mask { a with info := { a.info with peers } })

/-- `FTBM_Register_publishable_event` and `FTBM_Publishable_event_registration_cancel`: a lookup
and nothing else. -/
def lookupOnly (id : Id) (a : Manager N) : Ret :=
  if !a.info.initialized then .errGeneral
  else if a.info.leaf then .errNotSupported
  else if a.info.peers.contains id then .success
  else .errInvalidParameter

/-- The names `FTBM_Send` tests before it closes the connection. -/
def isManagerNameCase (id : Id) : Bool :=
  CStr.strcaseEq id.clientId.compCat "FTB_COMP_CAT_BACKPLANE".toList
    && CStr.strcaseEq id.clientId.comp "FTB_COMP_MANAGER".toList

/-- `FTBM_Send`. No value when the destination of a failed send is not in `peers`: the code reads
through a null pointer there. -/
def send (msg : Msg) (a : Manager N) : Option (Ret × Manager N) :=
  if !a.info.initialized then some (.errGeneral, a)
  else
    let (ret, net) := w.sendMsg msg a.net
    let a := { a with net }
    if ret = .success then some (ret, a)
    else
      let cleaned : Option (Manager N) :=
        if !a.info.leaf then
          match a.info.peers.find? msg.dst with
          | none => none
          | some comp =>
            let a := utilCleanComponent w comp a
            let a :=
              if isManagerNameCase comp.id then
                { a with net := (w.disconnectPeer comp.id.locationId a.net).2 }
              else a
            some { a with info := { a.info with peers := a.info.peers.erase comp.id } }
        else some a
      match cleaned with
      | none => none
      | some a =>
        if isEqualLocationId a.info.parent msg.dst.locationId then some (ret, utilReconnect w a)
        else some (ret, a)

/-- The loop of `FTBM_Cleanup_connection` over the nodes of `peers`. -/
def cleanupLoop (location : LocationId) (comps : List CompInfo) (a : Manager N) : Manager N :=
  comps.foldl (fun a comp =>
    if isEqualLocationId location comp.id.locationId then
      let a := utilCleanComponent w comp a
      { a with info := { a.info with peers := a.info.peers.erase comp.id } }
    else a) a

/-- `FTBM_Cleanup_connection`. -/
def cleanupConnection (location : LocationId) (a : Manager N) : Ret × Manager N :=
  if !a.info.initialized then (.errGeneral, a)
  else
    let comps := a.info.peers.nodes
    let ret := if comps.any fun c => isEqualLocationId location c.id.locationId then Ret.success
      else .errGeneral
    let a := cleanupLoop w location comps a
    if isEqualLocationId a.info.parent location then (ret, utilReconnect w a)
    else (ret, a)

/-! ## `FTBM_Get_catcher_comp_list` -/

/-- `catcher_set`: the ids of the components, each the first of its equals. -/
abbrev CatcherSet := KeyList (fun id : Id => id) isEqualFtbId

/-- The two loops that fill `catcher_set` and count it. -/
def collectCatchers (event : Event) (s : NodeInfo) : CatcherSet × Nat :=
  s.catchEventMap.nodes.foldl (fun acc ent =>
    if matchMask event ent.mask then
      ent.comps.nodes.foldl (fun acc comp =>
        if acc.1.contains comp.id then acc
        else (acc.1.insert comp.id, acc.2 + 1)) acc
    else acc) (.empty, 0)

/-- The `memcpy` calls of the last loop: the slot of the list and the id that is copied. -/
def fillWrites : List Id → Int → List (Int × Id)
  | [], _ => []
  | id :: ids, tempLen => (tempLen - 1, id) :: fillWrites ids (tempLen - 1)

/-- The slots of the list of `len` ids after the writes; a write outside the list is lost. -/
def applyWrites (len : Nat) (writes : List (Int × Id)) : List (Option Id) :=
  writes.foldl (fun slots w => if w.1 < 0 then slots else slots.set w.1.toNat (some w.2))
    (List.replicate len none)

/-- `*list`, `*len` and the writes to `*list`. -/
structure CatcherList where
  list : List (Option Id)
  len : Nat
  writes : List (Int × Id)
  deriving DecidableEq, Repr

/-- `FTBM_Get_catcher_comp_list`. -/
def getCatcherCompList (event : Event) (s : NodeInfo) : Except Ret CatcherList :=
  if !s.initialized then .error .errGeneral
  else
    let (catcherSet, tempLen) := collectCatchers event s
    let writes := fillWrites catcherSet.nodes tempLen
    .ok { list := applyWrites tempLen writes, len := tempLen, writes }

end FTBM
