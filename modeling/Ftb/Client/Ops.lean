import Ftb.Client.Receive

/-!
# The functions of the client library (`ftb_client_lib.c`)

The calls of the API and the functions of the two threads, over any network layer `w`. A result
`none` is undefined behaviour: a search that reads a freed client, a map that is NULL, or what
`FTBCI_split_namespace` does with too few dots. A variable the code leaves uninitialised holds
`default`. The locks are left out: a call, and a turn of a thread's loop, is one step.
-/

open FTB FTBU FTBN FTBMI FTBM CStr

namespace FTBCI

variable {N : Type} (w : LeafNetwork N)

/-! ## Queues and maps -/

/-- `FTBCI_util_push_to_comp_polling_list`. -/
def utilPushToCompPollingList (entry : EventInst) (c : ClientInfo) : ClientInfo :=
  if c.polls then
    let c :=
      if c.eventQueueSize == c.maxPollingQueueLen then
        { c with eventQueue := c.eventQueue.tail, eventQueueSize := c.eventQueueSize - 1 }
      else c
    { c with eventQueue := c.eventQueue ++ [entry], eventQueueSize := c.eventQueueSize + 1 }
  else c

/-- The entries of `callback_map`, the first one first. -/
def ClientInfo.callbackEntries (c : ClientInfo) : List CallbackEntry :=
  (c.callbackMap.map KeyList.nodes).getD []

/-- The masks of `polling_map`, the first one first. -/
def ClientInfo.pollingMasks (c : ClientInfo) : List Event :=
  (c.pollingMap.map KeyList.nodes).getD []

/-- The masks `FTBCI_util_reconnect` sends for a client, in its order. -/
def ClientInfo.masks (c : ClientInfo) : List Event :=
  c.pollingMasks ++ c.callbackEntries.map CallbackEntry.mask

/-- `FTBCI_util_add_to_polling_map`. -/
def utilAddToPollingMap (event : Event) (c : ClientInfo) : ClientInfo :=
  { c with pollingMap := c.pollingMap.map fun map => map.insert event }

/-- `FTBCI_util_add_to_callback_map`. -/
def utilAddToCallbackMap (callback arg : Nat) (event : Event) (c : ClientInfo) : ClientInfo :=
  { c with callbackMap := c.callbackMap.map fun map => map.insert ⟨event, callback, arg⟩ }

/-- `FTBCI_util_remove_from_subscription_map`. -/
def utilRemoveFromSubscriptionMap (event : Event) (c : ClientInfo) : ClientInfo :=
  { c with
    pollingMap := c.pollingMap.map fun map => map.erase event
    callbackMap := c.callbackMap.map fun map => map.erase event }

/-! ## Messages from the parent -/

/-- `FTBCI_util_handle_FTBM_msg` once it has the client: to the callback queue when a mask of
`callback_map` matches, else to the polling queue. -/
def receive (entry : EventInst) (c : ClientInfo) : ClientInfo :=
  if c.notifies && c.callbackEntries.any fun x => matchMask entry.eventInst x.mask then
    { c with callbackEventQueue := c.callbackEventQueue ++ [entry] }
  else utilPushToCompPollingList entry c

/-- `FTBCI_util_handle_FTBM_msg`. -/
def utilHandleFTBMMsg (msg : Msg) (s : Lib N) : Option (Lib N) :=
  let s := { s with handled := s.handled ++ [msg] }
  if msg.msgType ≠ .notify then some s
  else
    let clientHandle := convertClientidToClienthandle msg.dst.clientId
    match s.clientInfoMap with
    | none => none
    | some map =>
      match findClient map clientHandle with
      | none => none
      | some none => some s
      | some (some _) => some (s.update clientHandle (receive ⟨msg.event, msg.src⟩))

/-- `FTBM_Get`, with the history of what it returned. -/
def getMsg (blocking : Bool) (msg : Msg) (s : Lib N) : Ret × Msg × Lib N :=
  let (ret, msg, manager) := FTBM.get w blocking msg s.manager
  let delivered := if ret = .success then s.delivered ++ [msg] else s.delivered
  (ret, msg, { s with manager, delivered })

/-- The destination the library gives its messages: only the location is filled. -/
def parentDst (dst : Id) (a : Manager N) : Id :=
  { dst with locationId := getParentLocationId dst.locationId a.info }

/-- `FTBM_Send` of a message, whose result is returned. -/
def sendMsg (msg : Msg) (s : Lib N) : Option (Ret × Lib N) := do
  let (ret, manager) ← FTBM.send w.toNetwork msg s.manager
  pure (ret, { s with manager })

/-- The two loops of `FTBCI_util_reconnect` over the maps of a client. -/
def resendMasks (masks : List Event) (msg : Msg) (s : Lib N) : Option (Msg × Lib N) :=
  masks.foldlM (fun (msg, s) mask => do
    let msg : Msg := { msg with event := mask }
    let (_, s) ← sendMsg w msg s
    pure (msg, s)) (msg, s)

/-- The turn of `FTBCI_util_reconnect` for one client. `msg` is filled anew in part only. -/
def resendClient (c : ClientInfo) (msg : Msg) (s : Lib N) : Option (Msg × Lib N) :=
  if c.freed then none
  else do
    let msg : Msg :=
      { msg with msgType := .clientReg, src := c.id, dst := parentDst msg.dst s.manager }
    let (_, s) ← sendMsg w msg s
    resendMasks w c.masks { msg with msgType := .regSubscription } s

/-- `FTBCI_util_reconnect`. -/
def utilReconnect (s : Lib N) : Option (Lib N) :=
  match s.clientInfoMap with
  | none => none
  | some map => do
    let (_, s) ← map.nodes.foldlM (fun (msg, s) c => resendClient w c msg s) (default, s)
    pure s

/-- The loop of `FTBCI_Check_progress`, at most `n` turns of it. -/
def checkLoop : Nat → Lib N → Option (Ret × Lib N)
  | 0, _ => none
  | n + 1, s => do
    let (ret, msg, s) := getMsg w false default s
    if ret = .success then
      let s ← utilHandleFTBMMsg msg s
      checkLoop n s
    else pure (ret, s)

/-- `FTBCI_Check_progress`. The loop ends before its bound does (`checkLoop_bound`). -/
def checkProgress (s : Lib N) : Option (Ret × Lib N) :=
  if s.enableCallback > 0 then some (.success, s)
  else do
    let (ret, s) ← checkLoop w (w.waiting s.manager.net + 1) s
    if ret = .errNetworkGeneral then
      let s ← utilReconnect w s
      pure (ret, s)
    else pure (ret, s)

/-! ## Threads -/

/-- One turn of the loop of `FTBCI_callback_thread_client`, if the thread runs: the result of
`FTBM_Get`, and the state after it. -/
def callbackThreadClient (s : Lib N) : Option (Option Ret × Lib N) :=
  match s.callbackThread with
  | .none => some (none, s)
  | .returned => some (none, s)
  | .receiving msg => do
    let (ret, msg, s) := getMsg w true msg s
    if ret = .errNetworkGeneral then
      let s ← utilReconnect w s
      pure (some ret, { s with callbackThread := .returned })
    else
      let s ← utilHandleFTBMMsg msg { s with callbackThread := .receiving msg }
      pure (some ret, s)

/-- One turn of the loop of `FTBCI_callback_component`: the entry whose callback is run with the
first event of the queue, and what it is given. With an empty queue the thread waits. No value
where no mask matches: the event is freed after it was moved to the other queue. -/
def callbackComponent (c : ClientInfo) :
    Option (Option (CallbackEntry × ReceiveEvent) × ClientInfo) :=
  match c.callbackEventQueue with
  | [] => some (none, c)
  | entry :: rest =>
    match c.callbackEntries.find? fun x => matchMask entry.eventInst x.mask with
    | none => none
    | some x => do
      let r ← receiveEvent entry Cell.blank
      pure (some (x, r), { c with callbackEventQueue := rest })

end FTBCI

namespace FTBC

open FTBCI

variable {N : Type} (w : LeafNetwork N)

/-! ## `FTBC_Connect` and `FTBC_Disconnect` -/

/-- The branches on the subscription style: `subscription_type` and `max_polling_queue_len`. -/
def subscriptionStyle (cinfo : Client) : Option (UInt8 × Int) :=
  let queueLen :=
    if cinfo.clientPollingQueueLen > 0 then cinfo.clientPollingQueueLen else defaultPollingQLen
  let style := cinfo.clientSubscriptionStyle
  if strcaseEq style "FTB_SUBSCRIPTION_POLLING".toList then some (subscriptionPolling, queueLen)
  else if strcaseEq style "FTB_SUBSCRIPTION_NONE".toList then some (0, 0)
  else if strcaseEq style "FTB_SUBSCRIPTION_NOTIFY".toList then some (subscriptionNotify, 0)
  else if strcaseEq style "FTB_SUBSCRIPTION_BOTH".toList then
    some (subscriptionPolling + subscriptionNotify, queueLen)
  else none

/-- The first locked section of `FTBC_Connect`. -/
def addComponent (s : Lib N) : Lib N :=
  let s :=
    if s.numComponents == 0 then
      { s with clientInfoMap := some .empty, manager := (FTBM.initLeaf w s.manager).2 }
    else s
  { s with numComponents := s.numComponents + 1 }

/-- The locked section of `FTBC_Connect` for a client with callbacks. -/
def startCallback (s : Lib N) : Lib N :=
  let s := if s.enableCallback == 0 then { s with callbackThread := .receiving default } else s
  { s with enableCallback := s.enableCallback + 1 }

/-- The `client_info` that `FTBC_Connect` fills. -/
def newClientInfo (id : Id) (jobid : CStr) (subscriptionType : UInt8) (maxPollingQueueLen : Int) :
    ClientInfo where
  clientHandle := convertClientidToClienthandle id.clientId
  id := id
  jobid := jobid
  subscriptionType := subscriptionType
  maxPollingQueueLen := maxPollingQueueLen
  eventQueueSize := 0
  eventQueue := []
  callbackEventQueue := []
  pollingMap := if subscriptionType &&& subscriptionPolling != 0 then some .empty else none
  callbackMap := if subscriptionType &&& subscriptionNotify != 0 then some .empty else none
  declaredEventsMap := .empty
  totalPublishEvents := 0
  seqnum := 0
  finalizing := false
  freed := false

/-- `FTBC_Connect` from the insertion into `FTBCI_client_info_map` on. -/
def registerClient (c : ClientInfo) (s : Lib N) : Option (Ret × Lib N) :=
  match s.clientInfoMap with
  | none => none
  | some map =>
    match findClient map c.clientHandle with
    | none => none
    | some (some _) => some (.errDupCall, s)
    | some none => do
      let s := { s with clientInfoMap := some (map.insert c) }
      let msg : Msg :=
        { msgType := .clientReg, src := c.id, dst := parentDst default s.manager, event := default }
      let (ret, s) ← sendMsg w msg s
      if ret ≠ .success then
        -- the node of the freed client stays in the map
        pure (ret, s.update c.clientHandle fun c => { c with freed := true })
      else
        let (_, s) ← checkProgress w s
        pure (.success, s)

/-- `FTBC_Connect`, with what it leaves in `*client_handle`; a `none` handle is NULL. -/
def connect (cinfo : Client) (extension : UInt8) (clientHandle : Option ClientHandle) (s : Lib N) :
    Option (Ret × Option ClientHandle × Lib N) :=
  match clientHandle with
  | none => some (.errNullPointer, none, s)
  | some handle =>
    match subscriptionStyle cinfo with
    | none => some (.errSubscriptionStyle, some handle, s)
    | some (subscriptionType, maxPollingQueueLen) =>
      match splitNamespace cinfo.eventSpace with
      | none => none
      | some (.error ret) => some (ret, some handle, s)
      | some (.ok (region, compCat, comp)) =>
        let s := addComponent w s
        if cinfo.clientName.length ≥ maxClientName then some (.errInvalidValue, some handle, s)
        else
          let clientId : ClientId :=
            { region, compCat, comp, clientName := cinfo.clientName, ext := extension }
          let id : Id := { clientId, locationId := getLocationId default s.manager.info }
          let c := newClientInfo id cinfo.clientJobid subscriptionType maxPollingQueueLen
          if cinfo.clientJobid.length ≥ maxClientJobid then
            some (.errInvalidValue, some c.clientHandle, s)
          else do
            let s := if c.notifies then startCallback s else s
            let (ret, s) ← registerClient w c s
            pure (ret, some c.clientHandle, s)

/-- The last locked section of `FTBC_Disconnect`. -/
def removeClient (clientHandle : ClientHandle) (c : ClientInfo) (s : Lib N) : Lib N :=
  let s : Lib N := { s with clientInfoMap := s.clientInfoMap.map fun map => map.erase clientHandle }
  let s : Lib N :=
    if c.notifies then
      let enableCallback := s.enableCallback - 1
      if enableCallback == 0 then { s with enableCallback, callbackThread := .none }
      else { s with enableCallback }
    else s
  let numComponents := s.numComponents - 1
  if numComponents == 0 then
    { s with
      numComponents, clientInfoMap := none, manager := (FTBM.finalizeLeaf w s.manager).2 }
  else { s with numComponents }

/-- `FTBC_Disconnect`. `FTBM_Client_deregister` does nothing in a leaf. -/
def disconnect (clientHandle : ClientHandle) (s : Lib N) : Option (Ret × Lib N) :=
  if clientHandle.valid ≠ 1 then some (.errInvalidHandle, s)
  else match lookupClientInfo clientHandle s with
    | none => none
    | some (.error ret) => some (ret, s)
    | some (.ok c) => do
      let msg : Msg :=
        { msgType := .clientDereg, src := c.id, dst := parentDst default s.manager
          event := default }
      let (ret, s) ← sendMsg w msg s
      if ret ≠ .success then pure (ret, s)
      else
        let (_, s) ← checkProgress w (removeClient w clientHandle c s)
        pure (.success, s)

/-! ## Subscriptions -/

/-- What `FTBC_Subscribe_with_polling` and `FTBC_Subscribe_with_callback` do for their type of
subscription, with `add` to the client's map, and what is left in `*subscribe_handle`. -/
def subscribeWith (type : UInt8) (add : Event → ClientInfo → ClientInfo)
    (subscribeHandle : Option SubscribeHandle) (clientHandle : ClientHandle)
    (subscriptionStr : Option CStr) (s : Lib N) :
    Option (Ret × Option SubscribeHandle × Lib N) :=
  match subscribeHandle with
  | none => some (.errNullPointer, none, s)
  | some old =>
    if clientHandle.valid ≠ 1 then some (.errInvalidHandle, some old, s)
    else match lookupClientInfo clientHandle s with
      | none => none
      | some (.error ret) => some (ret, some old, s)
      | some (.ok c) =>
        if c.subscriptionType &&& type == 0 then some (.errNotSupported, some old, s)
        else match parseSubscriptionString subscriptionStr s.track default with
          | none => none
          | some (ret, track, event) =>
            let s := { s with track }
            if ret ≠ .success then some (ret, some old, s)
            else do
              let (_, s) ← checkProgress w s
              let handle : SubscribeHandle := ⟨clientHandle, event, type, 1⟩
              let s := s.update clientHandle (add event)
              let msg : Msg :=
                { msgType := .regSubscription, src := c.id, dst := parentDst default s.manager
                  event }
              let (ret, s) ← sendMsg w msg s
              pure (ret, some handle, s)

/-- `FTBC_Subscribe_with_polling`. -/
def subscribeWithPolling (subscribeHandle : Option SubscribeHandle) (clientHandle : ClientHandle)
    (subscriptionStr : Option CStr) (s : Lib N) : Option (Ret × Option SubscribeHandle × Lib N) :=
  subscribeWith w subscriptionPolling utilAddToPollingMap subscribeHandle clientHandle
    subscriptionStr s

/-- `FTBC_Subscribe_with_callback`. -/
def subscribeWithCallback (subscribeHandle : Option SubscribeHandle) (clientHandle : ClientHandle)
    (subscriptionStr : Option CStr) (callback arg : Nat) (s : Lib N) :
    Option (Ret × Option SubscribeHandle × Lib N) :=
  subscribeWith w subscriptionNotify (utilAddToCallbackMap callback arg) subscribeHandle
    clientHandle subscriptionStr s

/-- `FTBC_Unsubscribe`, with what it leaves in `*subscribe_handle`. -/
def unsubscribe (subscribeHandle : SubscribeHandle) (s : Lib N) :
    Option (Ret × SubscribeHandle × Lib N) :=
  match lookupClientInfo subscribeHandle.clientHandle s with
  | none => none
  | some (.error ret) => some (ret, subscribeHandle, s)
  | some (.ok c) =>
    if subscribeHandle.valid == 0 then some (.errInvalidHandle, subscribeHandle, s)
    else do
      let event := subscribeHandle.subscriptionEvent
      let msg : Msg :=
        { msgType := .subscriptionCancel, src := c.id, dst := parentDst default s.manager, event }
      let handle := { subscribeHandle with valid := 0 }
      let (ret, s) ← sendMsg w msg s
      if ret ≠ .success then pure (ret, handle, s)
      else
        let s := s.update subscribeHandle.clientHandle (utilRemoveFromSubscriptionMap event)
        let (_, s) ← checkProgress w s
        pure (ret, handle, s)

/-! ## Events -/

/-- `FTB_event_properties_t`. -/
structure EventProperties where
  eventType : UInt8
  eventPayload : CStr
  deriving DecidableEq, Repr, Inhabited

/-- The event that `FTBC_Publish` sends. -/
def publishedEvent (clientHandle : ClientHandle) (c : ClientInfo) (eventName : CStr)
    (details : DeclaredEvent) (properties : EventProperties) : Event where
  region := clientHandle.clientId.region
  compCat := clientHandle.clientId.compCat
  comp := clientHandle.clientId.comp
  eventName := eventName
  severity := details.severity
  clientJobid := c.jobid
  clientName := c.id.clientId.clientName
  hostname := c.id.locationId.hostname
  seqnum := c.seqnum
  eventType := properties.eventType
  eventPayload := properties.eventPayload

/-- The handle that `FTBC_Publish` fills from its message. -/
def publishedHandle (msg : Msg) : EventHandle where
  eventName := msg.event.eventName
  severity := msg.event.severity
  clientId :=
    { region := msg.event.region, compCat := msg.event.compCat, comp := msg.event.comp,
      clientName := msg.event.clientName, ext := msg.src.clientId.ext }
  seqnum := msg.event.seqnum
  locationId := msg.src.locationId

/-- `FTBC_Publish`, with what it leaves in `*event_handle`; a `none` pointer is NULL. -/
def publish (clientHandle : ClientHandle) (eventName : CStr)
    (eventProperties : Option EventProperties) (eventHandle : Option EventHandle) (s : Lib N) :
    Option (Ret × Option EventHandle × Lib N) :=
  if clientHandle.valid ≠ 1 then some (.errInvalidHandle, eventHandle, s)
  else if eventHandle.isNone then some (.errNullPointer, eventHandle, s)
  else if eventName.length = 0 ∨ eventName.length ≥ maxEventName then
    some (.errInvalidEventName, eventHandle, s)
  else do
    let (_, s) ← checkProgress w s
    match lookupClientInfo clientHandle s with
    | none => none
    | some (.error ret) => pure (ret, eventHandle, s)
    | some (.ok c) =>
      match c.declaredEventsMap.find? eventName with
      | none => pure (.errInvalidEventName, eventHandle, s)
      | some details =>
        let properties := eventProperties.getD { eventType := 1, eventPayload := default }
        if properties.eventType ≠ 1 ∧ properties.eventType ≠ 2 then
          pure (.errInvalidEventType, eventHandle, s)
        else
          let c := { c with seqnum := c.seqnum + 1 }
          let s := s.update clientHandle fun c => { c with seqnum := c.seqnum + 1 }
          let msg : Msg :=
            { msgType := .notify, src := c.id, dst := parentDst default s.manager
              event := publishedEvent clientHandle c eventName details properties }
          let (ret, s) ← sendMsg w msg s
          pure (ret, some (publishedHandle msg), s)

/-- The search of `FTBC_Poll_event` in `event_queue`. -/
def pollQueue (mask : Event) (bytes : Cell.Mem Field) (c : ClientInfo) :
    Option (Option (ReceiveEvent × ClientInfo)) :=
  if c.eventQueueSize > 0 then
    match c.eventQueue.find? fun entry => matchMask entry.eventInst mask with
    | none => some none
    | some entry => do
      let r ← receiveEvent entry bytes
      let eventQueue := c.eventQueue.eraseP fun entry => matchMask entry.eventInst mask
      pure (some (r, { c with eventQueue, eventQueueSize := c.eventQueueSize - 1 }))
  else some none

/-- The loop of `FTBC_Poll_event`. -/
def pollLoop (subscribeHandle : SubscribeHandle) (bytes : Cell.Mem Field) :
    Nat → Lib N → Option (Ret × Option ReceiveEvent × Lib N)
  | 0, s => some (.gotNoEvent, none, s)
  | z + 1, s => do
    let (_, s) ← checkProgress w s
    match lookupClientInfo subscribeHandle.clientHandle s with
    | some (.ok c) =>
      match ← pollQueue subscribeHandle.subscriptionEvent bytes c with
      | none => pollLoop subscribeHandle bytes z s
      | some (r, c) => pure (.success, some r, s.update subscribeHandle.clientHandle fun _ => c)
    | _ => none

/-- `FTBC_Poll_event`, with what it writes to `*receive_event`, which holds `bytes`; a `none` pointer
is NULL. -/
def pollEvent (subscribeHandle : SubscribeHandle) (receiveEvent : Option (Cell.Mem Field))
    (s : Lib N) : Option (Ret × Option ReceiveEvent × Lib N) :=
  match receiveEvent with
  | none => some (.errNullPointer, none, s)
  | some bytes =>
    if subscribeHandle.valid == 0 then some (.errInvalidHandle, none, s)
    else match lookupClientInfo subscribeHandle.clientHandle s with
      | none => none
      | some (.error ret) => some (ret, none, s)
      | some (.ok c) =>
        if !c.polls then some (.errNotSupported, none, s)
        else pollLoop w subscribeHandle bytes 2 s

/-- `FTBC_Get_event_handle`, with what it leaves in `*event_handle`. No value where it reads bytes
that hold no field. -/
def getEventHandle (receiveEvent : ReceiveEvent) (eventHandle : EventHandle) (s : Lib N) :
    Option (Ret × EventHandle × Lib N) :=
  match splitNamespace receiveEvent.eventSpace with
  | none => none
  | some (.error ret) => some (ret, eventHandle, s)
  | some (.ok (region, compCat, comp)) => do
    let ext ← receiveEvent.clientExtension
    let locationId ← receiveEvent.incomingSrc
    let seqnum ← receiveEvent.seqnum
    let handle : EventHandle :=
      { eventName := receiveEvent.eventName, severity := receiveEvent.severity
        clientId := { region, compCat, comp, clientName := receiveEvent.clientName, ext }
        seqnum, locationId }
    let (_, s) ← checkProgress w s
    pure (.success, handle, s)

/-- The comparison of `FTBC_Compare_event_handles`. -/
def equalEventHandles (h₁ h₂ : EventHandle) : Bool :=
  strcaseEq h₁.clientId.region h₂.clientId.region
    && strcaseEq h₁.clientId.compCat h₂.clientId.compCat
    && strcaseEq h₁.clientId.comp h₂.clientId.comp
    && strcaseEq h₁.clientId.clientName h₂.clientId.clientName
    && h₁.clientId.ext == h₂.clientId.ext
    && strcaseEq h₁.locationId.hostname h₂.locationId.hostname
    && h₁.locationId.pid == h₂.locationId.pid
    && strcaseEq h₁.locationId.pidStarttime h₂.locationId.pidStarttime
    && strcaseEq h₁.eventName h₂.eventName
    && strcaseEq h₁.severity h₂.severity
    && h₁.seqnum == h₂.seqnum

/-- `FTBC_Compare_event_handles`. -/
def compareEventHandles (h₁ h₂ : EventHandle) (s : Lib N) : Option (Ret × Lib N) := do
  let (_, s) ← checkProgress w s
  pure (if equalEventHandles h₁ h₂ then .success else .failure, s)

/-! ## Any call -/

/-- A call of the API with its arguments. -/
inductive ApiCall
  | connect (cinfo : Client) (extension : UInt8) (clientHandle : Option ClientHandle)
  | disconnect (clientHandle : ClientHandle)
  | subscribeWithPolling (subscribeHandle : Option SubscribeHandle) (clientHandle : ClientHandle)
      (subscriptionStr : Option CStr)
  | subscribeWithCallback (subscribeHandle : Option SubscribeHandle) (clientHandle : ClientHandle)
      (subscriptionStr : Option CStr) (callback arg : Nat)
  | unsubscribe (subscribeHandle : SubscribeHandle)
  | publish (clientHandle : ClientHandle) (eventName : CStr)
      (eventProperties : Option EventProperties) (eventHandle : Option EventHandle)
  | pollEvent (subscribeHandle : SubscribeHandle) (receiveEvent : Option (Cell.Mem Field))
  | getEventHandle (receiveEvent : ReceiveEvent) (eventHandle : EventHandle)
  | compareEventHandles (h₁ h₂ : EventHandle)

/-- The state that a call leaves. -/
def ApiCall.run : ApiCall → Lib N → Option (Lib N)
  | .connect cinfo extension handle, s => (FTBC.connect w cinfo extension handle s).map (·.2.2)
  | .disconnect handle, s => (FTBC.disconnect w handle s).map (·.2)
  | .subscribeWithPolling subscribeHandle handle str, s =>
    (FTBC.subscribeWithPolling w subscribeHandle handle str s).map (·.2.2)
  | .subscribeWithCallback subscribeHandle handle str callback arg, s =>
    (FTBC.subscribeWithCallback w subscribeHandle handle str callback arg s).map (·.2.2)
  | .unsubscribe subscribeHandle, s => (FTBC.unsubscribe w subscribeHandle s).map (·.2.2)
  | .publish handle eventName properties eventHandle, s =>
    (FTBC.publish w handle eventName properties eventHandle s).map (·.2.2)
  | .pollEvent subscribeHandle bytes, s => (FTBC.pollEvent w subscribeHandle bytes s).map (·.2.2)
  | .getEventHandle r eventHandle, s => (FTBC.getEventHandle w r eventHandle s).map (·.2.2)
  | .compareEventHandles h₁ h₂, s => (FTBC.compareEventHandles w h₁ h₂ s).map (·.2)

end FTBC
