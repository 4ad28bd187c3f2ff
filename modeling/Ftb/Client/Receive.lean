import Ftb.Client.State
import Ftb.Lib.Cells

/-!
# The event a receiver gets (`FTB_receive_event_t`)

`FTBC_Poll_event` and `FTBCI_callback_component` fill an `FTB_receive_event_t` from an event of a
queue. The strings are copied as strings; the fields behind them are copied as bytes, the extension
and the sequence number with the size of an `int`, so these are bytes here (`Cell.Mem`) at the
offsets the two structures have with 1, 2 and 4 byte alignment.
-/

open FTB Cell

namespace FTBCI

/-- An object that the bytes hold. -/
inductive Field
  | ext (v : UInt8)
  | seqnum (v : UInt16)
  | eventType (v : UInt8)
  | eventPayload (v : CStr)
  | locationId (v : LocationId)
  deriving DecidableEq

/-! ## Offsets in `FTB_receive_event_t` -/

def offClientExtension : Nat := 144
def offSeqnum : Nat := 146
def offIncomingSrc : Nat := 148
def offEventType : Nat := 248
def offEventPayload : Nat := 249

/-! ## Offsets in `FTBCI_event_inst_list_t` -/

def offInstSeqnum : Nat := 336
def offInstEventType : Nat := 338
def offInstEventPayload : Nat := 339
def offInstLocationId : Nat := 708
def offInstExt : Nat := 1016

def maxPayloadData : Nat := 368
def sizeofLocationId : Nat := 100
def sizeofInt : Nat := 4

/-- `FTB_receive_event_t`: the strings, and the bytes behind them. -/
structure ReceiveEvent where
  eventSpace : CStr
  eventName : CStr
  severity : CStr
  clientJobid : CStr
  clientName : CStr
  bytes : Mem Field

/-- The bytes of an event of a queue from `seqnum` on; the padding is not written. -/
def EventInst.bytes (entry : EventInst) : Mem Field :=
  store offInstExt 1 (.ext entry.src.clientId.ext)
    (store offInstLocationId sizeofLocationId (.locationId entry.src.locationId)
      (store offInstEventPayload maxPayloadData (.eventPayload entry.eventInst.eventPayload)
        (store offInstEventType 1 (.eventType entry.eventInst.eventType)
          (store offInstSeqnum 2 (.seqnum entry.eventInst.seqnum) blank))))

/-- The `memcpy` calls that fill the bytes, in the order of the code. -/
def copyBytes (entry : EventInst) (bytes : Mem Field) : Mem Field :=
  let bytes := memcpy offClientExtension entry.bytes offInstExt sizeofInt bytes
  let bytes := memcpy offSeqnum entry.bytes offInstSeqnum sizeofInt bytes
  let bytes := memcpy offEventType entry.bytes offInstEventType 1 bytes
  let bytes := memcpy offEventPayload entry.bytes offInstEventPayload maxPayloadData bytes
  memcpy offIncomingSrc entry.bytes offInstLocationId sizeofLocationId bytes

/-- `concatenate_strings` of an event space. -/
def concatenateStrings (region compCat comp : CStr) : CStr :=
  region ++ '.' :: compCat ++ '.' :: comp

/-- What the two functions copy to the receiver's structure. No value where the event space
overflows its array. -/
def receiveEvent (entry : EventInst) (bytes : Mem Field) : Option ReceiveEvent :=
  let e := entry.eventInst
  let eventSpace := concatenateStrings e.region e.compCat e.comp
  if eventSpace.length ≥ maxEventspace then none
  else some
    { eventSpace, eventName := e.eventName, severity := e.severity, clientJobid := e.clientJobid,
      clientName := e.clientName, bytes := copyBytes entry bytes }

/-! ## Reading the bytes -/

def ReceiveEvent.clientExtension (r : ReceiveEvent) : Option UInt8 :=
  match load r.bytes offClientExtension 1 with
  | some (.ext v) => some v
  | _ => none

def ReceiveEvent.seqnum (r : ReceiveEvent) : Option UInt16 :=
  match load r.bytes offSeqnum 2 with
  | some (.seqnum v) => some v
  | _ => none

def ReceiveEvent.incomingSrc (r : ReceiveEvent) : Option LocationId :=
  match load r.bytes offIncomingSrc sizeofLocationId with
  | some (.locationId v) => some v
  | _ => none

/-! ## What the copies leave -/

section
variable (entry : EventInst) (bytes : Mem Field)

/-- The copy of the extension reaches into the sequence number, which is copied next. -/
theorem holds_clientExtension :
    Holds (copyBytes entry bytes) offClientExtension 1 (.ext entry.src.clientId.ext) := by
  have hsrc : Holds entry.bytes offInstExt 1 (.ext entry.src.clientId.ext) := holds_store _ _ _ _
  have hext := hsrc.copied offClientExtension (n := sizeofInt) (by decide) bytes
  exact (((hext.kept _ (by decide)).kept _ (by decide)).kept _ (by decide)).kept _ (by decide)

/-- The copy of the sequence number reaches into the location, which is copied last. -/
theorem holds_seqnum :
    Holds (copyBytes entry bytes) offSeqnum 2 (.seqnum entry.eventInst.seqnum) := by
  have hsrc : Holds entry.bytes offInstSeqnum 2 (.seqnum entry.eventInst.seqnum) :=
    ((((holds_store _ _ _ _).store _ (by decide)).store _ (by decide)).store _ (by decide)).store _
      (by decide)
  have hseq := hsrc.copied offSeqnum (n := sizeofInt) (by decide)
    (memcpy offClientExtension entry.bytes offInstExt sizeofInt bytes)
  exact ((hseq.kept _ (by decide)).kept _ (by decide)).kept _ (by decide)

theorem holds_incomingSrc :
    Holds (copyBytes entry bytes) offIncomingSrc sizeofLocationId
      (.locationId entry.src.locationId) := by
  have hsrc : Holds entry.bytes offInstLocationId sizeofLocationId
      (.locationId entry.src.locationId) := (holds_store _ _ _ _).store _ (by decide)
  exact hsrc.copied offIncomingSrc (n := sizeofLocationId) (by decide) _

end

/-- The received event has the source and the sequence number of the event that was queued. -/
theorem receiveEvent_fields {entry : EventInst} {bytes : Mem Field} {r : ReceiveEvent}
    (h : receiveEvent entry bytes = some r) :
    r.clientExtension = some entry.src.clientId.ext ∧ r.seqnum = some entry.eventInst.seqnum ∧
      r.incomingSrc = some entry.src.locationId := by
  simp only [receiveEvent] at h
  split at h
  · cases h
  · cases h
    refine ⟨?_, ?_, ?_⟩
    · simp only [ReceiveEvent.clientExtension,
        load_of_holds (by decide) (holds_clientExtension entry bytes)]
    · simp only [ReceiveEvent.seqnum, load_of_holds (by decide) (holds_seqnum entry bytes)]
    · simp only [ReceiveEvent.incomingSrc,
        load_of_holds (by decide) (holds_incomingSrc entry bytes)]

end FTBCI
