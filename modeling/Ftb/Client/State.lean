import Ftb.Client.Subscription
import Ftb.Manager.Leaf

/-!
# The state of the client library (`ftb_client_lib.c`)

The clients of the process with their queues and maps, the two counters, the thread that receives
for the clients with callbacks, and the manager library below. A `client_info` that an error exit
of `FTBC_Connect` freed can still be in `FTBCI_client_info_map`: `freed` marks it, and a search that
reads it has no value.
-/

open FTB FTBU FTBN FTBMI

namespace FTBCI

/-! ## Constants -/

def subscriptionPolling : UInt8 := 1
def subscriptionNotify : UInt8 := 2
def defaultPollingQLen : Int := 64

/-! ## Clients -/

/-- `FTB_client_t`. -/
structure Client where
  eventSpace : CStr
  clientName : CStr
  clientJobid : CStr
  clientSubscriptionStyle : CStr
  clientPollingQueueLen : Int
  deriving DecidableEq, Repr, Inhabited

/-- `FTBCI_event_inst_list_t`. -/
structure EventInst where
  eventInst : Event
  src : Id
  deriving DecidableEq, Repr, Inhabited

/-- `FTBCI_callback_entry_t`; `callback` and `arg` are addresses. -/
structure CallbackEntry where
  mask : Event
  callback : Nat
  arg : Nat
  deriving DecidableEq, Repr, Inhabited

/-- A node of `declared_events_map`. -/
structure DeclaredEvent where
  eventName : CStr
  severity : CStr
  deriving DecidableEq, Repr, Inhabited

/-- `polling_map`: the mask of an entry is its key. -/
abbrev PollingMap := KeyList (fun m : Event => m) isEqualEvent

/-- `callback_map`. -/
abbrev CallbackMap := KeyList CallbackEntry.mask isEqualEvent

/-- `declared_events_map`. -/
abbrev DeclaredEventsMap := KeyList DeclaredEvent.eventName CStr.strcaseEq

/-- `FTBCI_client_info_t`. The maps are `none` where the pointer is NULL. -/
structure ClientInfo where
  clientHandle : ClientHandle
  id : Id
  jobid : CStr
  subscriptionType : UInt8
  maxPollingQueueLen : Int
  eventQueueSize : Int
  eventQueue : List EventInst
  callbackEventQueue : List EventInst
  pollingMap : Option PollingMap
  callbackMap : Option CallbackMap
  declaredEventsMap : DeclaredEventsMap
  totalPublishEvents : Int
  seqnum : UInt16
  finalizing : Bool
  freed : Bool
  deriving DecidableEq

/-- `subscription_type & FTB_SUBSCRIPTION_POLLING`. -/
def ClientInfo.polls (c : ClientInfo) : Bool := c.subscriptionType &&& subscriptionPolling != 0

/-- `subscription_type & FTB_SUBSCRIPTION_NOTIFY`. -/
def ClientInfo.notifies (c : ClientInfo) : Bool := c.subscriptionType &&& subscriptionNotify != 0

/-- `FTBCI_map_client_handle_2_client_info_t`. -/
abbrev ClientInfoMap := KeyList ClientInfo.clientHandle isEqualClienthandle

/-- The thread of `FTBCI_callback_thread_client`, with its `msg`. -/
inductive CallbackThread
  | none
  | receiving (msg : Msg)
  | returned
  deriving DecidableEq

/-- The static variables of the client library, over the manager library. Two histories are ghost
state: the messages that `FTBM_Get` returned with `FTB_SUCCESS`, and the messages that
`FTBCI_util_handle_FTBM_msg` was called with. -/
structure Lib (N : Type) where
  clientInfoMap : Option ClientInfoMap
  enableCallback : Int
  numComponents : Int
  callbackThread : CallbackThread
  track : UInt8
  manager : Manager N
  delivered : List Msg
  handled : List Msg

/-- The library before the first call, over a manager library that was never initialised. -/
def Lib.initial {N : Type} (net : N) : Lib N where
  clientInfoMap := none
  enableCallback := 0
  numComponents := 0
  callbackThread := .none
  track := 0
  manager :=
    { net, info :=
        { parent := default, self := default, errHandling := 0, leaf := false, peers := .empty,
          catchEventMap := .empty, initialized := false, nextAddr := 0 } }
  delivered := []
  handled := []

/-- `FTBU_map_find_key` in `FTBCI_client_info_map`; no value where the search reads a client that was
freed. -/
def findClient (map : ClientInfoMap) (handle : ClientHandle) : Option (Option ClientInfo) :=
  match map.nodes.find? fun c => c.freed || isEqualClienthandle c.clientHandle handle with
  | none => some none
  | some c => if c.freed then none else some (some c)

/-- `FTBCI_LOOKUP_CLIENT_INFO`. -/
def lookupClientInfo {N : Type} (handle : ClientHandle) (s : Lib N) :
    Option (Except Ret ClientInfo) :=
  match s.clientInfoMap with
  | none => some (.error .errGeneral)
  | some map =>
    match findClient map handle with
    | none => none
    | some none => some (.error .errInvalidHandle)
    | some (some c) => some (.ok c)

/-- A write through `client_info`, which leaves the handle as it is. -/
def Lib.update {N : Type} (handle : ClientHandle) (f : ClientInfo → ClientInfo) (s : Lib N) :
    Lib N :=
  { s with clientInfoMap := s.clientInfoMap.map fun map =>
      map.adjust handle (fun c => { f c with clientHandle := c.clientHandle }) fun _ => rfl }

/-- `FTBCI_convert_clientid_to_clienthandle`. -/
def convertClientidToClienthandle (clientId : ClientId) : ClientHandle := ⟨1, clientId⟩

end FTBCI
