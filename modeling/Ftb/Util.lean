import Ftb.Def

/-!
# Comparisons of identities, events and masks (`ftb_util.c`)

The equality functions of the maps and `FTBU_match_mask`. Every equality ignores letter case
and a part of the fields. It is equality of a canonical form (`canon`), hence an equivalence
relation, and `matchMask` depends on the canonical form of the mask only
(`matchMask_congr`): masks that a map identifies match the same events.
-/

namespace FTBU

open FTB CStr

/-- `FTBU_match_mask`. -/
def matchMask (event mask : Event) : Bool :=
  if (strcaseEq event.region mask.region || strcaseEq mask.region "ALL".toList)
      && (strcaseEq event.clientJobid mask.clientJobid
        || strcaseEq mask.clientJobid "ALL".toList)
      && (strcaseEq event.clientName mask.clientName
        || strcaseEq mask.clientName "ALL".toList)
      && (strcaseEq event.hostname mask.hostname || strcaseEq mask.hostname "ALL".toList) then
    if !strcaseEq mask.eventName "ALL".toList then
      strcaseEq event.eventName mask.eventName
    else
      (strcaseEq event.severity mask.severity || strcaseEq mask.severity "ALL".toList)
        && (strcaseEq event.compCat mask.compCat || strcaseEq mask.compCat "ALL".toList)
        && (strcaseEq event.comp mask.comp || strcaseEq mask.comp "ALL".toList)
  else false

/-- `FTBU_is_equal_location_id`. -/
def isEqualLocationId (lhs rhs : LocationId) : Bool :=
  lhs.pid == rhs.pid && strncaseEq maxHostAddr lhs.hostname rhs.hostname
    && strncaseEq maxPidTime lhs.pidStarttime rhs.pidStarttime

/-- `FTBU_is_equal_ftb_id`: the region is not compared. -/
def isEqualFtbId (lhs rhs : Id) : Bool :=
  if strcaseEq lhs.clientId.compCat rhs.clientId.compCat
      && strcaseEq lhs.clientId.comp rhs.clientId.comp
      && strcaseEq lhs.clientId.clientName rhs.clientId.clientName
      && lhs.clientId.ext == rhs.clientId.ext then
    isEqualLocationId lhs.locationId rhs.locationId
  else false

/-- `FTBU_is_equal_event`. -/
def isEqualEvent (lhs rhs : Event) : Bool :=
  strcaseEq lhs.severity rhs.severity && strcaseEq lhs.compCat rhs.compCat
    && strcaseEq lhs.comp rhs.comp && strcaseEq lhs.eventName rhs.eventName

/-- `FTBU_is_equal_event_mask`. -/
def isEqualEventMask (lhs rhs : Event) : Bool :=
  strcaseEq lhs.severity rhs.severity && strcaseEq lhs.compCat rhs.compCat
    && strcaseEq lhs.comp rhs.comp && strcaseEq lhs.clientName rhs.clientName
    && strcaseEq lhs.clientJobid rhs.clientJobid && strcaseEq lhs.hostname rhs.hostname
    && strcaseEq lhs.region rhs.region && strcaseEq lhs.eventName rhs.eventName

/-- `FTBU_is_equal_clienthandle`: the region is not compared. -/
def isEqualClienthandle (lhs rhs : ClientHandle) : Bool :=
  strcaseEq lhs.clientId.compCat rhs.clientId.compCat
    && strcaseEq lhs.clientId.comp rhs.clientId.comp
    && strcaseEq lhs.clientId.clientName rhs.clientId.clientName
    && lhs.clientId.ext == rhs.clientId.ext

/-! ## Canonical forms -/

/-- The fields `isEqualLocationId` compares, in lower case. -/
def canonLocation (l : LocationId) : LocationId where
  hostname := lower (l.hostname.take maxHostAddr)
  pidStarttime := lower (l.pidStarttime.take maxPidTime)
  pid := l.pid

/-- The fields `isEqualFtbId` compares, in lower case. -/
def canonId (i : Id) : Id where
  locationId := canonLocation i.locationId
  clientId :=
    { region := [], compCat := lower i.clientId.compCat, comp := lower i.clientId.comp,
      clientName := lower i.clientId.clientName, ext := i.clientId.ext }

/-- The fields `isEqualEvent` compares, in lower case. -/
def canonEvent (e : Event) : Event where
  region := []
  compCat := lower e.compCat
  comp := lower e.comp
  eventName := lower e.eventName
  severity := lower e.severity
  clientJobid := []
  clientName := []
  hostname := []

/-- The fields `isEqualClienthandle` compares, in lower case. -/
def canonHandle (h : ClientHandle) : ClientHandle where
  valid := 0
  clientId :=
    { region := [], compCat := lower h.clientId.compCat, comp := lower h.clientId.comp,
      clientName := lower h.clientId.clientName, ext := h.clientId.ext }

/-- The fields `isEqualEventMask` compares, in lower case. -/
def canonMask (m : Event) : Event where
  region := lower m.region
  compCat := lower m.compCat
  comp := lower m.comp
  eventName := lower m.eventName
  severity := lower m.severity
  clientJobid := lower m.clientJobid
  clientName := lower m.clientName
  hostname := lower m.hostname

theorem isEqualLocationId_iff {a b : LocationId} :
    isEqualLocationId a b = true ↔ canonLocation a = canonLocation b := by
  simp only [isEqualLocationId, canonLocation, Bool.and_eq_true, beq_iff_eq, strncaseEq_iff,
    LocationId.mk.injEq]
  tauto

theorem isEqualFtbId_iff {a b : Id} : isEqualFtbId a b = true ↔ canonId a = canonId b := by
  simp only [isEqualFtbId, canonId, Bool.and_eq_true, beq_iff_eq, strcaseEq_iff,
    Id.mk.injEq, ClientId.mk.injEq, Bool.ite_eq_true_distrib, Bool.false_eq_true,
    isEqualLocationId_iff]
  split <;> tauto

theorem isEqualEventMask_iff {a b : Event} :
    isEqualEventMask a b = true ↔ canonMask a = canonMask b := by
  simp only [isEqualEventMask, canonMask, Bool.and_eq_true, strcaseEq_iff, Event.mk.injEq]
  tauto

theorem isEqualEvent_iff {a b : Event} :
    isEqualEvent a b = true ↔ canonEvent a = canonEvent b := by
  simp only [isEqualEvent, canonEvent, Bool.and_eq_true, strcaseEq_iff, Event.mk.injEq]
  tauto

theorem isEqualClienthandle_iff {a b : ClientHandle} :
    isEqualClienthandle a b = true ↔ canonHandle a = canonHandle b := by
  simp only [isEqualClienthandle, canonHandle, Bool.and_eq_true, beq_iff_eq, strcaseEq_iff,
    ClientHandle.mk.injEq, ClientId.mk.injEq]
  tauto

instance : KeyEq strcaseEq := .of_canon lower fun _ _ => strcaseEq_iff

instance : KeyEq isEqualLocationId := .of_canon canonLocation fun _ _ => isEqualLocationId_iff

instance : KeyEq isEqualFtbId := .of_canon canonId fun _ _ => isEqualFtbId_iff

instance : KeyEq isEqualEventMask := .of_canon canonMask fun _ _ => isEqualEventMask_iff

instance : KeyEq isEqualEvent := .of_canon canonEvent fun _ _ => isEqualEvent_iff

instance : KeyEq isEqualClienthandle := .of_canon canonHandle fun _ _ => isEqualClienthandle_iff

/-- Equal masks are equal events. -/
theorem isEqualEvent_of_mask {a b : Event} (h : isEqualEventMask a b = true) :
    isEqualEvent a b = true := by
  simp only [isEqualEventMask, isEqualEvent, Bool.and_eq_true] at h ⊢
  tauto

/-- Components with equal ids are in one process. -/
theorem isEqualLocationId_of_ftbId {a b : Id} (h : isEqualFtbId a b = true) :
    isEqualLocationId a.locationId b.locationId = true := by
  rw [isEqualFtbId_iff] at h
  exact isEqualLocationId_iff.2 (congrArg Id.locationId h)

theorem strcaseEq_congr_right {a b c : CStr} (h : lower b = lower c) :
    strcaseEq a b = strcaseEq a c := by
  rw [Bool.eq_iff_iff, strcaseEq_iff, strcaseEq_iff, h]

theorem strcaseEq_congr_left {a b c : CStr} (h : lower a = lower b) :
    strcaseEq a c = strcaseEq b c := by
  rw [Bool.eq_iff_iff, strcaseEq_iff, strcaseEq_iff, h]

/-- Equal masks match the same events. -/
theorem matchMask_congr {m m' : Event} (h : isEqualEventMask m m' = true) (e : Event) :
    matchMask e m = matchMask e m' := by
  rw [isEqualEventMask_iff] at h
  simp only [canonMask, Event.mk.injEq] at h
  obtain ⟨h1, h2, h3, h4, h5, h6, h7, h8, -⟩ := h
  simp only [matchMask, strcaseEq_congr_right h1, strcaseEq_congr_right h2,
    strcaseEq_congr_right h3, strcaseEq_congr_right h4, strcaseEq_congr_right h5,
    strcaseEq_congr_right h6, strcaseEq_congr_right h7, strcaseEq_congr_right h8,
    strcaseEq_congr_left h1, strcaseEq_congr_left h2, strcaseEq_congr_left h3,
    strcaseEq_congr_left h4, strcaseEq_congr_left h5, strcaseEq_congr_left h6,
    strcaseEq_congr_left h7, strcaseEq_congr_left h8]

end FTBU
