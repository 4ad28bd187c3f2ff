import Ftb.Client.Subscribing
import Ftb.Lib.Words

/-!
# The declaration of events (`ftb_client_lib.c`)

`FTBC_Declare_publishable_events` takes a table or a schema file. The text of the file is what the
pipe gives, with the comments removed by `sed`. A result `none` is undefined behaviour: a word that
overflows `str`, a name that overflows `einfo.event_name`, or what `FTBCI_split_namespace` does with
too few dots.
-/

open FTB FTBU FTBN FTBMI CStr

namespace FTBCI

variable {N : Type}

/-- `FTB_event_info_t`. -/
structure EventInfo where
  eventName : CStr
  severity : CStr
  deriving DecidableEq, Repr, Inhabited

/-- `FTBCI_MAX_EVENTS_PER_CLIENT`. -/
def maxEventsPerClient : Int := 100

/-! ## A table -/

/-- `FTBCI_check_severity_values`. -/
def checkSeverityValues (severity : CStr) : Bool :=
  strcaseEq severity "fatal".toList || strcaseEq severity "info".toList
    || strcaseEq severity "warning".toList || strcaseEq severity "error".toList

/-- The check of a name in `FTBCI_store_declared_events`. -/
def isEventName (eventName : CStr) : Bool :=
  decide (eventName.length < maxEventName) && checkAlphanumericUnderscoreFormat eventName

/-- The insertion in `FTBCI_store_declared_events`. -/
def ClientInfo.insertEvent (c : ClientInfo) (e : EventInfo) : ClientInfo :=
  { c with
    declaredEventsMap := c.declaredEventsMap.insert ⟨e.eventName, e.severity⟩
    totalPublishEvents := c.totalPublishEvents + 1 }

/-- `FTBCI_store_declared_events`. -/
def storeDeclaredEvents : List EventInfo → ClientInfo → Ret × ClientInfo
  | [], c => (.success, c)
  | e :: eventTable, c =>
    if c.totalPublishEvents ≥ maxEventsPerClient then (.errGeneral, c)
    else if !isEventName e.eventName then (.errInvalidField, c)
    else if !checkSeverityValues e.severity then (.errInvalidField, c)
    -- a duplicate ends the loop
    else if c.declaredEventsMap.contains e.eventName then (.success, c)
    else storeDeclaredEvents eventTable (c.insertEvent e)

/-! ## A schema file -/

/-- `sizeof(str)`. -/
def sizeofStr : Nat := 1024

/-- `isspace`. -/
def isSpace (c : Char) : Bool := c == ' ' || decide ('\t' ≤ c ∧ c ≤ '\r')

/-- `state_t`. -/
inductive ScanState
  | init
  | inStruct
  | foundEventspace
  | foundEventname
  | empty
  deriving DecidableEq, Repr

/-- `state` and `einfo.event_name`. -/
structure Scanner where
  state : ScanState
  eventName : CStr
  deriving DecidableEq, Repr

/-- The comparison of an event space with that of the client. -/
def ownEventSpace (clientId : ClientId) (parts : CStr × CStr × CStr) : Bool :=
  strcaseEq clientId.region parts.1 && strcaseEq clientId.compCat parts.2.1
    && strcaseEq clientId.comp parts.2.2

/-- What the loop of `FTBCI_check_schema_file` makes of the word in `str`: the code that it returns,
or where it goes on. -/
def scanStr (clientHandle : ClientHandle) (str : CStr) (sc : Scanner) (s : Lib N) :
    Option (Except Ret Scanner × Lib N) :=
  if sc.state = .init ∨ sc.state = .empty then
    if str == "start".toList then some (.ok { sc with state := .inStruct }, s)
    else some (.ok sc, s)
  else if str == "end".toList then some (.ok { sc with state := .init }, s)
  else match sc.state with
    | .inStruct =>
      if str.length ≥ maxEventspace then some (.error .errInvalidSchemaFile, s)
      else match splitNamespace str with
        | none => none
        | some (.error _) => some (.error .errInvalidSchemaFile, s)
        | some (.ok parts) =>
          if !ownEventSpace clientHandle.clientId parts then some (.error .errInvalidSchemaFile, s)
          else some (.ok { sc with state := .foundEventspace }, s)
    | .foundEventspace =>
      if str.length ≥ maxEventName then none
      else some (.ok { state := .foundEventname, eventName := str }, s)
    | .foundEventname =>
      if !checkSeverityValues str then some (.error .errInvalidField, s)
      else match lookupClientInfo clientHandle s with
        | none => none
        | some (.error ret) => some (.error ret, s)
        | some (.ok c) =>
          let (ret, c) := storeDeclaredEvents [⟨sc.eventName, str⟩] c
          let s := s.update clientHandle fun _ => c
          if ret ≠ .success then some (.error ret, s)
          else some (.ok { sc with state := .foundEventspace }, s)
    | _ => some (.ok sc, s)

/-- The end of `FTBCI_check_schema_file`. -/
def scanEnd (state : ScanState) : Ret :=
  if state = .empty then .errInvalidSchemaFile
  else if state ≠ .init then .errInvalidSchemaFile
  else .success

/-- The loop of `FTBCI_check_schema_file`, at most `n` turns of it. -/
def scanLoop (clientHandle : ClientHandle) : Nat → CStr → Scanner → Lib N → Option (Ret × Lib N)
  | 0, _, _, _ => none
  | n + 1, text, sc, s =>
    -- `fscanf(fp, "%s", str)`
    let (str, text) := Words.next isSpace text
    if str.length ≥ sizeofStr then none
    -- `feof(fp)`: also when the file ends behind the word
    else if text == [] then some (scanEnd sc.state, s)
    else match scanStr clientHandle str sc s with
      | none => none
      | some (.error ret, s) => some (ret, s)
      | some (.ok sc, s) => scanLoop clientHandle n text sc s

/-- `FTBCI_check_schema_file`, with the text of the file. The loop ends before its bound does
(`scanLoop_eq`). -/
def checkSchemaFile (clientHandle : ClientHandle) (text : CStr) (s : Lib N) : Option (Ret × Lib N) :=
  scanLoop clientHandle (text.length + 1) text ⟨.empty, []⟩ s

end FTBCI

namespace FTBC

open FTBCI

variable {N : Type} (w : LeafNetwork N)

/-- `FTBC_Declare_publishable_events`; a `none` file is NULL, and `num_events` is the length of the
table. -/
def declarePublishableEvents (clientHandle : ClientHandle) (schemaFile : Option CStr)
    (einfo : List EventInfo) (s : Lib N) : Option (Ret × Lib N) :=
  if clientHandle.valid ≠ 1 then some (.errInvalidHandle, s)
  else match schemaFile with
    | some text => do
      let (ret, s) ← checkSchemaFile clientHandle text s
      if ret ≠ .success then pure (ret, s)
      else
        let (_, s) ← checkProgress w s
        pure (.success, s)
    | none =>
      match lookupClientInfo clientHandle s with
      | none => none
      | some (.error ret) => some (ret, s)
      | some (.ok c) =>
        let (ret, c) := storeDeclaredEvents einfo c
        some (ret, s.update clientHandle fun _ => c)

end FTBC
