import Ftb.Lib.KeyList

/-!
# Types of the backplane

The data types of `ftb_def.h`, `ftb_client_lib_defs.h` and `ftb_manager_lib.h`, and the string
comparisons of the C library that the code compares them with. A `char` array holds a C string:
the characters before its terminating NUL (`CStr`). A comparison is the Boolean that the code
tests, `strcasecmp(..) == 0`.
-/

/-- A C string: the characters before the NUL. -/
abbrev CStr := List Char

namespace CStr

/-- `strcasecmp(a, b) == 0`. -/
def strcaseEq (a b : CStr) : Bool := a.map Char.toLower == b.map Char.toLower

/-- `strncasecmp(a, b, n) == 0`. -/
def strncaseEq (n : Nat) (a b : CStr) : Bool := strcaseEq (a.take n) (b.take n)

/-- `strncmp(a, b, n) == 0`. -/
def strncmpEq (n : Nat) (a b : CStr) : Bool := a.take n == b.take n

/-- The string in lower case: the canonical form of `strcaseEq`. -/
def lower (a : CStr) : CStr := a.map Char.toLower

theorem strcaseEq_iff {a b : CStr} : strcaseEq a b = true ↔ lower a = lower b := by
  simp [strcaseEq, lower]

theorem strncaseEq_iff {n : Nat} {a b : CStr} :
    strncaseEq n a b = true ↔ lower (a.take n) = lower (b.take n) :=
  strcaseEq_iff

theorem strncmpEq_iff {n : Nat} {a b : CStr} : strncmpEq n a b = true ↔ a.take n = b.take n := by
  simp [strncmpEq]

end CStr

namespace FTB

/-! ## Constants and return codes -/

def maxEventspace : Nat := 64
def maxClientName : Nat := 16
def maxClientJobid : Nat := 16
def maxEventName : Nat := 32
def maxSeverity : Nat := 16
def maxHostAddr : Nat := 64
def maxPidTime : Nat := 32

/-- The `FTB_SUCCESS` and `FTB_ERR_*` codes the modelled functions return. -/
inductive Ret
  | success
  | errGeneral
  | errEventspaceFormat
  | errNullPointer
  | errNotSupported
  | errSubscriptionStr
  | errFilterAttr
  | errFilterValue
  | errInvalidParameter
  | errNetworkGeneral
  | errNetworkNoRoute
  | noMsg
  | errSubscriptionStyle
  | errInvalidValue
  | errDupCall
  | errInvalidField
  | errInvalidHandle
  | errInvalidSchemaFile
  | errInvalidEventName
  | errInvalidEventType
  | gotNoEvent
  | failure
  deriving DecidableEq, Repr

/-! ## Identities and events -/

/-- `FTB_location_id_t`: a process. -/
structure LocationId where
  hostname : CStr
  pidStarttime : CStr
  pid : Int
  deriving DecidableEq, Repr, Inhabited

/-- `FTB_client_id_t`. -/
structure ClientId where
  region : CStr
  compCat : CStr
  comp : CStr
  clientName : CStr
  ext : UInt8
  deriving DecidableEq, Repr, Inhabited

/-- `FTB_client_handle_t`. -/
structure ClientHandle where
  valid : UInt8
  clientId : ClientId
  deriving DecidableEq, Repr, Inhabited

/-- `FTB_id_t`: a component of a process. -/
structure Id where
  locationId : LocationId
  clientId : ClientId
  deriving DecidableEq, Repr, Inhabited

/-- `FTB_event_t`: an event, or the mask of a subscription. -/
structure Event where
  region : CStr
  compCat : CStr
  comp : CStr
  eventName : CStr
  severity : CStr
  clientJobid : CStr
  clientName : CStr
  hostname : CStr
  seqnum : UInt16 := 0
  eventType : UInt8 := 0
  eventPayload : CStr := []
  deriving DecidableEq, Repr, Inhabited

/-- `FTB_subscribe_handle_t`. -/
structure SubscribeHandle where
  clientHandle : ClientHandle
  subscriptionEvent : Event
  subscriptionType : UInt8
  valid : UInt8
  deriving DecidableEq, Repr, Inhabited

/-- `FTB_event_handle_t`. -/
structure EventHandle where
  eventName : CStr
  severity : CStr
  clientId : ClientId
  seqnum : UInt16
  locationId : LocationId
  deriving DecidableEq, Repr, Inhabited

/-! ## Messages -/

/-- `FTBM_MSG_TYPE_*`. -/
inductive MsgType
  | notify
  | clientReg
  | clientDereg
  | cleanupConn
  | regPublishableEvent
  | regSubscription
  | publishableEventRegCancel
  | subscriptionCancel
  | unknown (type : Int)
  deriving DecidableEq, Repr, Inhabited

/-- `FTBM_msg_t`. -/
structure Msg where
  msgType : MsgType
  src : Id
  dst : Id
  event : Event
  deriving DecidableEq, Repr, Inhabited

end FTB
