import Ftb.Util
import Mathlib.Data.List.DropRight

/-!
# Subscription strings (`ftb_client_lib.c`, `ftb_auxil.c`)

The parser of `attribute=value,..` strings. A result `none` is undefined behaviour of the C code:
`strcmp` of the NULL that `strsep` leaves behind an event space without a dot, and a write behind
`pair` for a string of too many fields.
-/

open FTB

namespace CStr

/-- `strsep(&p, delim)` for a `p` that is not NULL: the token, and what is left in `p`. -/
def strsep (delim : Char) : CStr → CStr × Option CStr
  | [] => ([], none)
  | c :: s =>
    if c == delim then ([], some s)
    else
      let (token, p) := strsep delim s
      (c :: token, p)

/-- What a loop of `strsep` stores until `p` is NULL (`tokens_eq`). -/
def tokens (delim : Char) : CStr → List CStr
  | [] => [[]]
  | c :: s =>
    if c == delim then [] :: tokens delim s
    else match tokens delim s with
      | [] => [[c]]
      | token :: rest => (c :: token) :: rest

theorem tokens_eq (delim : Char) (s : CStr) :
    tokens delim s = (strsep delim s).1 :: ((strsep delim s).2.map (tokens delim)).getD [] := by
  induction s with
  | nil => rfl
  | cons c s ih =>
    by_cases hc : (c == delim) = true
    · simp [tokens, strsep, hc]
    · simp [tokens, strsep, hc, ih]

def isBlank (c : Char) : Bool := c == ' ' || c == '\t'

/-- `soft_trim` of a string of less than 2^31 characters (`Ftb.Auxil.Trim`); its loops, with their `int`
counters, are `Auxil.softTrim`. -/
def softTrim (str : CStr) : CStr := (str.dropWhile isBlank).rdropWhile isBlank

/-- `check_alphanumeric_underscore_format`. -/
def checkAlphanumericUnderscoreFormat (str : CStr) : Bool :=
  str.all fun c => decide ('A' ≤ c ∧ c ≤ 'Z') || decide ('a' ≤ c ∧ c ≤ 'z') || c == '_'
    || decide ('0' ≤ c ∧ c ≤ '9')

end CStr

namespace FTBCI

open CStr

/-- `FTBCI_MAX_SUBSCRIPTION_FIELDS`. -/
def maxSubscriptionFields : Nat := 10

/-- `FTBCI_split_namespace`: the region, the category and the component. -/
def splitNamespace (eventSpace : CStr) : Option (Except Ret (CStr × CStr × CStr)) :=
  if eventSpace.length ≥ maxEventspace then some (.error .errEventspaceFormat)
  else
    let (regionName, tempstr) := strsep '.' eventSpace
    if regionName == [] then some (.error .errEventspaceFormat)
    else match tempstr with
    | none => none
    | some [] => some (.error .errEventspaceFormat)
    | some tempstr =>
      let (categoryName, tempstr) := strsep '.' tempstr
      if categoryName == [] then some (.error .errEventspaceFormat)
      else match tempstr with
      | none => none
      | some [] => some (.error .errEventspaceFormat)
      | some tempstr =>
        let (componentName, tempstr) := strsep '.' tempstr
        if componentName == [] then some (.error .errEventspaceFormat)
        else if tempstr.isSome || !checkAlphanumericUnderscoreFormat regionName
            || !checkAlphanumericUnderscoreFormat categoryName
            || !checkAlphanumericUnderscoreFormat componentName then
          some (.error .errEventspaceFormat)
        else some (.ok (regionName, categoryName, componentName))

theorem splitNamespace_error {eventSpace : CStr} {ret : Ret}
    (h : splitNamespace eventSpace = some (.error ret)) : ret = .errEventspaceFormat := by
  unfold splitNamespace at h
  grind

/-- The wildcard. -/
def all : CStr := "all".toList

/-- `FTBCI_check_subscription_value_pair`, with its static `track`: one bit for each attribute that
was seen since the call with two empty strings. -/
def checkSubscriptionValuePair (lhs rhs : CStr) (track : UInt8) (subscriptionEvent : Event) :
    Option (Ret × UInt8 × Event) :=
  let reject := fun (ret : Ret) (track : UInt8) => some (ret, track, subscriptionEvent)
  if strcaseEq lhs [] && strcaseEq rhs [] then
    some (.success, 1, { subscriptionEvent with
      severity := all, region := all, compCat := all, comp := all, eventName := all,
      clientJobid := all, hostname := all, clientName := all })
  else if strcaseEq lhs "severity".toList then
    if track &&& 2 != 0 then reject .errSubscriptionStr track
    else
      let track := track ||| 2
      if strcaseEq rhs "fatal".toList || strcaseEq rhs "info".toList
          || strcaseEq rhs "warning".toList || strcaseEq rhs "error".toList
          || strcaseEq rhs "all".toList then
        some (.success, track, { subscriptionEvent with severity := rhs })
      else reject .errFilterValue track
  else if strcaseEq lhs "event_space".toList then
    if track &&& 4 != 0 then reject .errSubscriptionStr track
    else
      let track := track ||| 4
      if rhs.length ≥ maxEventspace then reject .errEventspaceFormat track
      else match splitNamespace rhs with
      | none => none
      | some (.error _) => reject .errEventspaceFormat track
      | some (.ok (region, compCat, comp)) =>
        some (.success, track, { subscriptionEvent with region, compCat, comp })
  else if strcaseEq lhs "jobid".toList then
    if track &&& 8 != 0 then reject .errSubscriptionStr track
    else
      let track := track ||| 8
      if rhs.length ≥ maxClientJobid then reject .errFilterValue track
      else some (.success, track, { subscriptionEvent with clientJobid := rhs })
  else if strcaseEq lhs "host_name".toList then
    if track &&& 16 != 0 then reject .errSubscriptionStr track
    else
      let track := track ||| 16
      if rhs.length ≥ maxHostAddr then reject .errFilterValue track
      else some (.success, track, { subscriptionEvent with hostname := rhs })
  else if strcaseEq lhs "event_name".toList then
    if track &&& 32 != 0 then reject .errSubscriptionStr track
    else
      let track := track ||| 32
      -- it is `lhs` that is checked, not `rhs`
      if decide (rhs.length ≥ maxEventName) || !checkAlphanumericUnderscoreFormat lhs then
        reject .errFilterValue track
      else some (.success, track, { subscriptionEvent with eventName := rhs })
  else if strcaseEq lhs "client_name".toList then
    if track &&& 64 != 0 then reject .errSubscriptionStr track
    else
      let track := track ||| 64
      if decide (rhs.length ≥ maxClientName) || !checkAlphanumericUnderscoreFormat lhs then
        reject .errFilterValue track
      else some (.success, track, { subscriptionEvent with clientName := rhs })
  else reject .errFilterAttr track

/-- The texts before and after the first `=` of a field, the second up to the next one. -/
def splitPair (pair : CStr) : Option (CStr × CStr) :=
  let (lhs, pair) := strsep '=' pair
  match pair with
  | none => none
  | some pair => some (softTrim lhs, softTrim (strsep '=' pair).1)

/-- One turn of the second loop of `FTBCI_parse_subscription_string`. -/
def parseField (pair : CStr) (track : UInt8) (subscriptionEvent : Event) :
    Option (Ret × UInt8 × Event) :=
  match splitPair pair with
  | none => some (.errSubscriptionStr, track, subscriptionEvent)
  | some (lhs, rhs) =>
    if lhs == [] || rhs == [] then some (.errSubscriptionStr, track, subscriptionEvent)
    else if lhs.any isBlank then some (.errFilterAttr, track, subscriptionEvent)
    else if rhs.any isBlank then some (.errFilterValue, track, subscriptionEvent)
    else checkSubscriptionValuePair lhs rhs track subscriptionEvent

/-- The second loop of `FTBCI_parse_subscription_string`. -/
def parseFields : List CStr → UInt8 → Event → Option (Ret × UInt8 × Event)
  | [], track, subscriptionEvent => some (.success, track, subscriptionEvent)
  | pair :: pairs, track, subscriptionEvent =>
    match parseField pair track subscriptionEvent with
    | some (.success, track, subscriptionEvent) => parseFields pairs track subscriptionEvent
    | other => other

/-- `FTBCI_parse_subscription_string`. A `none` string is NULL. -/
def parseSubscriptionString (subscriptionStr : Option CStr) (track : UInt8)
    (subscriptionEvent : Event) : Option (Ret × UInt8 × Event) :=
  match subscriptionStr with
  | none => some (.errSubscriptionStr, track, subscriptionEvent)
  | some str =>
    match checkSubscriptionValuePair [] [] track subscriptionEvent with
    | none => none
    | some (ret, track, subscriptionEvent) =>
      if str == [] then some (ret, track, subscriptionEvent)
      else
        let pair := tokens ',' str
        -- the check of the number of fields comes after they are stored
        if pair.length > maxSubscriptionFields then none
        else parseFields pair track subscriptionEvent

end FTBCI
