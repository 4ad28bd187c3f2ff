import Ftb.Lib.Locks
import Ftb.Client.Declare

/-!
# The client library with its locks (`ftb_client_lib.c`)

The functions of `Ftb.Client.Ops` and `Ftb.Client.Declare` with their operations on `FTBCI_lock` and
on the locks of the clients, in the order of the source. `FTBM_Get`, `FTBM_Send` and the other calls
of the manager library use a lock of their own and none of these. `erase_connect` and the theorems
next to it: without the locks these are the functions of those two modules.
-/

open FTB FTBU FTBN FTBMI FTBM CStr Locks Journal

namespace FTBCI.Locked

variable {N : Type} (w : LeafNetwork N)

/-- `FTBCI_lock`, and the `lock` of a client. -/
inductive Lock
  | clientLib
  | client (clientHandle : ClientHandle)
  deriving DecidableEq

/-- A call that takes none of the locks. -/
def call {α : Type} (f : Lib N → Option (α × Lib N)) : Prog (Op Lock) (Lib N) α := Prog.lift f

/-- `FTBCI_LOOKUP_CLIENT_INFO`. -/
def lookupClientInfo (handle : ClientHandle) : Prog (Op Lock) (Lib N) (Except Ret ClientInfo) := do
  let s ← Prog.get
  match s.clientInfoMap with
  | none => pure (.error .errGeneral)
  | some map => do
    lock .clientLib
    match findClient map handle with
    | none => Prog.undefined
    | some none => do
      unlock .clientLib
      pure (.error .errInvalidHandle)
    | some (some c) => do
      unlock .clientLib
      pure (.ok c)

/-- `FTBCI_util_handle_FTBM_msg`. -/
def utilHandleFTBMMsg (msg : Msg) : Prog (Op Lock) (Lib N) Unit := do
  Prog.modify fun s => { s with handled := s.handled ++ [msg] }
  if msg.msgType ≠ .notify then pure ()
  else do
    let clientHandle := convertClientidToClienthandle msg.dst.clientId
    lock .clientLib
    let s ← Prog.get
    match s.clientInfoMap with
    | none => Prog.undefined
    | some map =>
      match findClient map clientHandle with
      | none => Prog.undefined
      | some none => unlock .clientLib
      | some (some c) => do
        unlock .clientLib
        lock (.client c.clientHandle)
        Prog.modify fun s => s.update clientHandle (receive ⟨msg.event, msg.src⟩)
        if c.notifies && c.callbackEntries.any fun x => matchMask msg.event x.mask then
          unlock (.client c.clientHandle)
        else unlock (.client c.clientHandle)

/-- `FTBCI_util_reconnect`. -/
def utilReconnect : Prog (Op Lock) (Lib N) Unit := do
  lock .clientLib
  call fun s => (FTBCI.utilReconnect w s).map fun s => ((), s)
  unlock .clientLib

/-- The loop of `FTBCI_Check_progress`, at most `n` turns of it. -/
def checkLoop : Nat → Prog (Op Lock) (Lib N) Ret
  | 0 => Prog.undefined
  | n + 1 => do
    let (ret, msg) ← call fun s =>
      let (ret, msg, s) := getMsg w false default s
      some ((ret, msg), s)
    if ret = .success then do
      utilHandleFTBMMsg msg
      checkLoop n
    else pure ret

/-- `FTBCI_Check_progress`. -/
def checkProgress : Prog (Op Lock) (Lib N) Ret := do
  let s ← Prog.get
  if s.enableCallback > 0 then pure .success
  else do
    let ret ← checkLoop w (w.waiting s.manager.net + 1)
    if ret = .errNetworkGeneral then do
      utilReconnect w
      pure ret
    else pure ret

/-- `FTBCI_util_add_to_polling_map`, `FTBCI_util_add_to_callback_map` and
`FTBCI_util_remove_from_subscription_map`, for what they do to the client. -/
def changeMaps (clientHandle : ClientHandle) (c : ClientInfo) (f : ClientInfo → ClientInfo) :
    Prog (Op Lock) (Lib N) Unit := do
  lock (.client c.clientHandle)
  Prog.modify fun s => s.update clientHandle f
  unlock (.client c.clientHandle)

/-- `FTBCI_store_declared_events`, over the client it is given. -/
def storeDeclaredEvents (l : Lock) : List EventInfo → Prog (Op Lock) ClientInfo Ret
  | [] => pure .success
  | e :: eventTable => do
    lock l
    let c ← Prog.get
    if c.totalPublishEvents ≥ maxEventsPerClient then do
      unlock l
      pure .errGeneral
    else do
      unlock l
      if !isEventName e.eventName then pure .errInvalidField
      else if !checkSeverityValues e.severity then pure .errInvalidField
      else do
        lock l
        let c ← Prog.get
        if c.declaredEventsMap.contains e.eventName then do
          unlock l
          pure .success
        else do
          unlock l
          lock l
          Prog.modify fun c => c.insertEvent e
          unlock l
          storeDeclaredEvents l eventTable

/-- `FTBCI_store_declared_events` for the client that a lookup returned. -/
def storeFor (clientHandle : ClientHandle) (c : ClientInfo) (eventTable : List EventInfo) :
    Prog (Op Lock) (Lib N) Ret :=
  Prog.within c (fun c s => s.update clientHandle fun _ => c)
    (storeDeclaredEvents (.client c.clientHandle) eventTable)

/-- What the loop of `FTBCI_check_schema_file` makes of the word in `str`. -/
def scanStr (clientHandle : ClientHandle) (str : CStr) (sc : Scanner) :
    Prog (Op Lock) (Lib N) (Except Ret Scanner) :=
  if sc.state = .init ∨ sc.state = .empty then
    if str == "start".toList then pure (.ok { sc with state := .inStruct })
    else pure (.ok sc)
  else if str == "end".toList then pure (.ok { sc with state := .init })
  else match sc.state with
    | .inStruct =>
      if str.length ≥ maxEventspace then pure (.error .errInvalidSchemaFile)
      else match splitNamespace str with
        | none => Prog.undefined
        | some (.error _) => pure (.error .errInvalidSchemaFile)
        | some (.ok parts) =>
          if !ownEventSpace clientHandle.clientId parts then pure (.error .errInvalidSchemaFile)
          else pure (.ok { sc with state := .foundEventspace })
    | .foundEventspace =>
      if str.length ≥ maxEventName then Prog.undefined
      else pure (.ok { state := .foundEventname, eventName := str })
    | .foundEventname =>
      if !checkSeverityValues str then pure (.error .errInvalidField)
      else do
        match ← lookupClientInfo clientHandle with
        | .error ret => pure (.error ret)
        | .ok c => do
          let ret ← storeFor clientHandle c [⟨sc.eventName, str⟩]
          if ret ≠ .success then pure (.error ret)
          else pure (.ok { sc with state := .foundEventspace })
    | _ => pure (.ok sc)

/-- The loop of `FTBCI_check_schema_file`, at most `n` turns of it. -/
def scanLoop (clientHandle : ClientHandle) : Nat → CStr → Scanner → Prog (Op Lock) (Lib N) Ret
  | 0, _, _ => Prog.undefined
  | n + 1, text, sc =>
    let (str, text) := Words.next isSpace text
    if str.length ≥ sizeofStr then Prog.undefined
    else if text == [] then pure (scanEnd sc.state)
    else do
      match ← scanStr clientHandle str sc with
      | .error ret => pure ret
      | .ok sc => scanLoop clientHandle n text sc

/-- `FTBCI_check_schema_file`. -/
def checkSchemaFile (clientHandle : ClientHandle) (text : CStr) : Prog (Op Lock) (Lib N) Ret :=
  scanLoop clientHandle (text.length + 1) text ⟨.empty, []⟩

end FTBCI.Locked

namespace FTBC.Locked

open FTBCI FTBCI.Locked

variable {N : Type} (w : LeafNetwork N)

/-- `FTBC_Connect` from the insertion into `FTBCI_client_info_map` on. -/
def registerClient (c : ClientInfo) : Prog (Op Lock) (Lib N) Ret := do
  lock .clientLib
  let s ← Prog.get
  match s.clientInfoMap with
  | none => Prog.undefined
  | some map =>
    match findClient map c.clientHandle with
    | none => Prog.undefined
    | some (some _) => do
      unlock .clientLib
      pure .errDupCall
    | some none => do
      Prog.modify fun s => { s with clientInfoMap := some (map.insert c) }
      unlock .clientLib
      let s ← Prog.get
      let msg : Msg :=
        { msgType := .clientReg, src := c.id, dst := parentDst default s.manager, event := default }
      let ret ← call (sendMsg w msg)
      if ret ≠ .success then do
        Prog.modify fun s => s.update c.clientHandle fun c => { c with freed := true }
        pure ret
      else do
        let _ ← checkProgress w
        pure .success

/-- `FTBC_Connect`. -/
def connect (cinfo : Client) (extension : UInt8) (clientHandle : Option ClientHandle) :
    Prog (Op Lock) (Lib N) (Ret × Option ClientHandle) :=
  match clientHandle with
  | none => pure (.errNullPointer, none)
  | some handle =>
    match subscriptionStyle cinfo with
    | none => pure (.errSubscriptionStyle, some handle)
    | some (subscriptionType, maxPollingQueueLen) =>
      match splitNamespace cinfo.eventSpace with
      | none => Prog.undefined
      | some (.error ret) => pure (ret, some handle)
      | some (.ok (region, compCat, comp)) => do
        lock .clientLib
        Prog.modify (addComponent w)
        unlock .clientLib
        if cinfo.clientName.length ≥ maxClientName then pure (.errInvalidValue, some handle)
        else do
          let clientId : ClientId :=
            { region, compCat, comp, clientName := cinfo.clientName, ext := extension }
          let s ← Prog.get
          let id : Id := { clientId, locationId := getLocationId default s.manager.info }
          let c := newClientInfo id cinfo.clientJobid subscriptionType maxPollingQueueLen
          if cinfo.clientJobid.length ≥ maxClientJobid then
            pure (.errInvalidValue, some c.clientHandle)
          else if c.notifies then do
            lock .clientLib
            Prog.modify startCallback
            unlock .clientLib
            let ret ← registerClient w c
            pure (ret, some c.clientHandle)
          else do
            let ret ← registerClient w c
            pure (ret, some c.clientHandle)

/-- `FTBCI_util_finalize_component`, which is called with the lock of the client. What it frees is
the client that `removeClient` takes out of the map. -/
def utilFinalizeComponent (c : ClientInfo) : Prog (Op Lock) (Lib N) Unit :=
  if c.notifies then do
    unlock (.client c.clientHandle)
    -- `pthread_join`
    lock (.client c.clientHandle)
    unlock (.client c.clientHandle)
  else pure ()

/-- `FTBC_Disconnect` from the first lock of the client on. -/
def finalizeClient (clientHandle : ClientHandle) (c : ClientInfo) : Prog (Op Lock) (Lib N) Ret := do
  lock (.client c.clientHandle)
  utilFinalizeComponent c
  unlock (.client c.clientHandle)
  lock .clientLib
  Prog.modify (removeClient w clientHandle c)
  unlock .clientLib
  let _ ← checkProgress w
  pure .success

/-- `FTBC_Disconnect`. -/
def disconnect (clientHandle : ClientHandle) : Prog (Op Lock) (Lib N) Ret :=
  if clientHandle.valid ≠ 1 then pure .errInvalidHandle
  else do
    match ← lookupClientInfo clientHandle with
    | .error ret => pure ret
    | .ok c => do
      let s ← Prog.get
      let msg : Msg :=
        { msgType := .clientDereg, src := c.id, dst := parentDst default s.manager
          event := default }
      let ret ← call (sendMsg w msg)
      if ret ≠ .success then pure ret
      else finalizeClient w clientHandle c

/-- What `FTBC_Subscribe_with_polling` and `FTBC_Subscribe_with_callback` do. -/
def subscribeWith (type : UInt8) (add : Event → ClientInfo → ClientInfo)
    (subscribeHandle : Option SubscribeHandle) (clientHandle : ClientHandle)
    (subscriptionStr : Option CStr) : Prog (Op Lock) (Lib N) (Ret × Option SubscribeHandle) :=
  match subscribeHandle with
  | none => pure (.errNullPointer, none)
  | some old =>
    if clientHandle.valid ≠ 1 then pure (.errInvalidHandle, some old)
    else do
      match ← lookupClientInfo clientHandle with
      | .error ret => pure (ret, some old)
      | .ok c =>
        if c.subscriptionType &&& type == 0 then pure (.errNotSupported, some old)
        else do
          let (ret, event) ← call fun s =>
            (parseSubscriptionString subscriptionStr s.track default).map fun r =>
              ((r.1, r.2.2), { s with track := r.2.1 })
          if ret ≠ .success then pure (ret, some old)
          else do
            let _ ← checkProgress w
            let handle : SubscribeHandle := ⟨clientHandle, event, type, 1⟩
            changeMaps clientHandle c (add event)
            let s ← Prog.get
            let msg : Msg :=
              { msgType := .regSubscription, src := c.id, dst := parentDst default s.manager
                event }
            let ret ← call (sendMsg w msg)
            pure (ret, some handle)

/-- `FTBC_Subscribe_with_polling`. -/
def subscribeWithPolling (subscribeHandle : Option SubscribeHandle) (clientHandle : ClientHandle)
    (subscriptionStr : Option CStr) : Prog (Op Lock) (Lib N) (Ret × Option SubscribeHandle) :=
  subscribeWith w subscriptionPolling utilAddToPollingMap subscribeHandle clientHandle
    subscriptionStr

/-- `FTBC_Subscribe_with_callback`. -/
def subscribeWithCallback (subscribeHandle : Option SubscribeHandle) (clientHandle : ClientHandle)
    (subscriptionStr : Option CStr) (callback arg : Nat) :
    Prog (Op Lock) (Lib N) (Ret × Option SubscribeHandle) :=
  subscribeWith w subscriptionNotify (utilAddToCallbackMap callback arg) subscribeHandle
    clientHandle subscriptionStr

/-- `FTBC_Unsubscribe`. -/
def unsubscribe (subscribeHandle : SubscribeHandle) :
    Prog (Op Lock) (Lib N) (Ret × SubscribeHandle) := do
  match ← lookupClientInfo subscribeHandle.clientHandle with
  | .error ret => pure (ret, subscribeHandle)
  | .ok c =>
    if subscribeHandle.valid == 0 then pure (.errInvalidHandle, subscribeHandle)
    else do
      let event := subscribeHandle.subscriptionEvent
      let s ← Prog.get
      let msg : Msg :=
        { msgType := .subscriptionCancel, src := c.id, dst := parentDst default s.manager, event }
      let handle := { subscribeHandle with valid := 0 }
      let ret ← call (sendMsg w msg)
      if ret ≠ .success then pure (ret, handle)
      else do
        changeMaps subscribeHandle.clientHandle c (utilRemoveFromSubscriptionMap event)
        let _ ← checkProgress w
        pure (ret, handle)

/-- `FTBC_Publish`. With `FTB_TAG` it also copies `tag_string`. -/
def publish (ftbTag : Bool) (clientHandle : ClientHandle) (eventName : CStr)
    (eventProperties : Option EventProperties) (eventHandle : Option EventHandle) :
    Prog (Op Lock) (Lib N) (Ret × Option EventHandle) :=
  if clientHandle.valid ≠ 1 then pure (.errInvalidHandle, eventHandle)
  else if eventHandle.isNone then pure (.errNullPointer, eventHandle)
  else if eventName.length = 0 ∨ eventName.length ≥ maxEventName then
    pure (.errInvalidEventName, eventHandle)
  else do
    let _ ← checkProgress w
    match ← lookupClientInfo clientHandle with
    | .error ret => pure (ret, eventHandle)
    | .ok c => do
      lock (.client c.clientHandle)
      match c.declaredEventsMap.find? eventName with
      | none => do
        unlock (.client c.clientHandle)
        pure (.errInvalidEventName, eventHandle)
      | some details => do
        unlock (.client c.clientHandle)
        copyTagString ftbTag
        let properties := eventProperties.getD { eventType := 1, eventPayload := default }
        if properties.eventType ≠ 1 ∧ properties.eventType ≠ 2 then
          pure (.errInvalidEventType, eventHandle)
        else do
          let c := { c with seqnum := c.seqnum + 1 }
          lock (.client c.clientHandle)
          Prog.modify fun s => s.update clientHandle fun c => { c with seqnum := c.seqnum + 1 }
          unlock (.client c.clientHandle)
          let s ← Prog.get
          let msg : Msg :=
            { msgType := .notify, src := c.id, dst := parentDst default s.manager
              event := publishedEvent clientHandle c eventName details properties }
          let ret ← call (sendMsg w msg)
          pure (ret, some (publishedHandle msg))
where
  /-- The lines between `#ifdef FTB_TAG` and `#endif`. -/
  copyTagString (ftbTag : Bool) : Prog (Op Lock) (Lib N) Unit :=
    if ftbTag then do
      lock .clientLib
      unlock .clientLib
    else pure ()

/-- The loop of `FTBC_Poll_event`, for the client of its lookup: what it copies to
`*receive_event`. -/
def pollLoop (subscribeHandle : SubscribeHandle) (bytes : Cell.Mem Field) (l : Lock) :
    Nat → Prog (Op Lock) (Lib N) (Option ReceiveEvent)
  | 0 => pure none
  | z + 1 => do
    let _ ← checkProgress w
    lock l
    let s ← Prog.get
    match FTBCI.lookupClientInfo subscribeHandle.clientHandle s with
    | some (.ok c) =>
      match pollQueue subscribeHandle.subscriptionEvent bytes c with
      | none => Prog.undefined
      | some none => do
        unlock l
        pollLoop subscribeHandle bytes l z
      | some (some (r, c)) => do
        Prog.modify fun s => s.update subscribeHandle.clientHandle fun _ => c
        unlock l
        pure (some r)
    | _ => Prog.undefined

/-- `FTBC_Poll_event`. -/
def pollEvent (subscribeHandle : SubscribeHandle) (receiveEvent : Option (Cell.Mem Field)) :
    Prog (Op Lock) (Lib N) (Ret × Option ReceiveEvent) :=
  match receiveEvent with
  | none => pure (.errNullPointer, none)
  | some bytes =>
    if subscribeHandle.valid == 0 then pure (.errInvalidHandle, none)
    else do
      match ← lookupClientInfo subscribeHandle.clientHandle with
      | .error ret => pure (ret, none)
      | .ok c =>
        if !c.polls then pure (.errNotSupported, none)
        else do
          match ← pollLoop w subscribeHandle bytes (.client c.clientHandle) 2 with
          | some r => pure (.success, some r)
          | none => do
            unlock (.client c.clientHandle)
            pure (.gotNoEvent, none)

/-- `FTBC_Declare_publishable_events`. -/
def declarePublishableEvents (clientHandle : ClientHandle) (schemaFile : Option CStr)
    (einfo : List EventInfo) : Prog (Op Lock) (Lib N) Ret :=
  if clientHandle.valid ≠ 1 then pure .errInvalidHandle
  else match schemaFile with
    | some text => do
      let ret ← checkSchemaFile clientHandle text
      if ret ≠ .success then pure ret
      else do
        let _ ← checkProgress w
        pure .success
    | none => do
      match ← lookupClientInfo clientHandle with
      | .error ret => pure ret
      | .ok c => storeFor clientHandle c einfo

end FTBC.Locked
