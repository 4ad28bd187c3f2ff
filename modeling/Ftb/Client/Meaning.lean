import Ftb.Client.EventSpace

/-!
# What a subscription means

A string that the parser accepts is a list of `attribute=value` pairs (`written`), no attribute twice,
and its mask holds the value of every attribute that is written and the wildcard for every other
(`Stored`). `FTBU_match_mask` does not look at all of them: a mask that names an event is matched
without its severity, category and component (`matchMask_iff_means`).
-/

open FTB FTBU CStr

namespace FTBCI

/-- The attributes of a subscription string. -/
inductive Attr
  | severity
  | eventSpace
  | jobid
  | hostName
  | eventName
  | clientName
  deriving DecidableEq, Repr

namespace Attr

def name : Attr → CStr
  | severity => "severity".toList
  | eventSpace => "event_space".toList
  | jobid => "jobid".toList
  | hostName => "host_name".toList
  | eventName => "event_name".toList
  | clientName => "client_name".toList

/-- Its bit in `track`. -/
def bit : Attr → UInt8
  | severity => 2
  | eventSpace => 4
  | jobid => 8
  | hostName => 16
  | eventName => 32
  | clientName => 64

/-- What an event or a mask holds for the attribute. -/
def fields (e : Event) : Attr → List CStr
  | severity => [e.severity]
  | eventSpace => [e.region, e.compCat, e.comp]
  | jobid => [e.clientJobid]
  | hostName => [e.hostname]
  | eventName => [e.eventName]
  | clientName => [e.clientName]

/-- The parts of a value: an event space has three. -/
def parts (v : CStr) : Attr → List CStr
  | eventSpace => tokens '.' v
  | _ => [v]

/-- The wildcard for each field. -/
def wild : Attr → List CStr
  | eventSpace => [all, all, all]
  | _ => [all]

theorem name_inj {A B : Attr} (h : lower A.name = lower B.name) : A = B := by
  cases A <;> cases B <;> first | rfl | exact absurd h (by decide)

theorem bit_and {A B : Attr} : A.bit &&& B.bit ≠ 0 ↔ A = B := by
  cases A <;> cases B <;> decide

end Attr

/-! ## The specification -/

/-- A field satisfies a value, or a part of one. -/
def sat (x v : CStr) : Bool := strcaseEq x v || strcaseEq v all

/-- The pairs of a string. -/
def written (s : CStr) : List (CStr × CStr) := (tokens ',' s).filterMap splitPair

/-- The value `v` is written for the attribute. -/
def Written (ps : List (CStr × CStr)) (A : Attr) (v : CStr) : Prop :=
  ∃ a, (a, v) ∈ ps ∧ strcaseEq a A.name = true

/-- The event satisfies every pair of the string. -/
def SatisfiesAll (s : CStr) (e : Event) : Prop :=
  ∀ A v, Written (written s) A v → List.Forall₂ (sat · ·) (A.fields e) (A.parts v)

/-- The string asks for one event name. -/
def NamesEvent (s : CStr) : Prop :=
  ∃ v, Written (written s) .eventName v ∧ strcaseEq v all = false

/-- The event satisfies the pairs that are looked at: all of them, but for the severity, the category
and the component of a string that names an event. -/
structure Means (s : CStr) (e : Event) : Prop where
  jobid : ∀ v, Written (written s) .jobid v → sat e.clientJobid v
  hostName : ∀ v, Written (written s) .hostName v → sat e.hostname v
  clientName : ∀ v, Written (written s) .clientName v → sat e.clientName v
  eventName : ∀ v, Written (written s) .eventName v → sat e.eventName v
  region : ∀ v, Written (written s) .eventSpace v → sat e.region ((tokens '.' v).getD 0 [])
  severity : ¬NamesEvent s → ∀ v, Written (written s) .severity v → sat e.severity v
  category : ¬NamesEvent s → ∀ v, Written (written s) .eventSpace v →
    sat e.compCat ((tokens '.' v).getD 1 [])
  component : ¬NamesEvent s → ∀ v, Written (written s) .eventSpace v →
    sat e.comp ((tokens '.' v).getD 2 [])

/-! ## One pair -/

/-- A text is of letters, digits and underscores if it is in lower case. -/
theorem format_of_lower {s : CStr} (h : checkAlphanumericUnderscoreFormat (lower s) = true) :
    checkAlphanumericUnderscoreFormat s = true := by
  unfold checkAlphanumericUnderscoreFormat at h ⊢
  rw [List.all_eq_true] at h ⊢
  intro c hc
  by_cases hu : c.val ≥ 'A'.val ∧ c.val ≤ 'Z'.val
  · have hrange : 'A' ≤ c ∧ c ≤ 'Z' := hu
    rw [decide_eq_true hrange]
    rfl
  · have hl := h c.toLower (List.mem_map_of_mem hc)
    have hsame : c.toLower = c := by
      unfold Char.toLower
      exact dif_neg hu
    rwa [hsame] at hl

theorem IsWord.of_lower {s : CStr} (h : IsWord (lower s)) : IsWord s where
  nonempty hs := h.nonempty (congrArg lower hs)
  format := format_of_lower h.format

/-- An attribute's name is a word, in any letter case. -/
theorem isWord_of_name {name : CStr} {A : Attr} (h : strcaseEq name A.name = true) :
    IsWord name := by
  apply IsWord.of_lower
  rw [strcaseEq_iff.1 h]
  cases A <;> decide

/-- The severities a subscription can ask for. -/
def severities : List CStr :=
  ["fatal".toList, "info".toList, "warning".toList, "error".toList, "all".toList]

namespace Attr

/-- What becomes of the value of an attribute: the mask with it, or the error. -/
def store (v : CStr) (ev : Event) : Attr → Option (Except Ret Event)
  | severity =>
    if lower v ∈ severities then some (.ok { ev with severity := v })
    else some (.error .errFilterValue)
  | eventSpace =>
    if v.length ≥ maxEventspace then some (.error .errEventspaceFormat)
    else match splitNamespace v with
    | none => none
    | some (.error _) => some (.error .errEventspaceFormat)
    | some (.ok (region, compCat, comp)) => some (.ok { ev with region, compCat, comp })
  | jobid =>
    if v.length ≥ maxClientJobid then some (.error .errFilterValue)
    else some (.ok { ev with clientJobid := v })
  | hostName =>
    if v.length ≥ maxHostAddr then some (.error .errFilterValue)
    else some (.ok { ev with hostname := v })
  | eventName =>
    if v.length ≥ maxEventName then some (.error .errFilterValue)
    else some (.ok { ev with eventName := v })
  | clientName =>
    if v.length ≥ maxClientName then some (.error .errFilterValue)
    else some (.ok { ev with clientName := v })

/-- The result for an attribute that was not seen. -/
def outcome (A : Attr) (track : UInt8) (ev : Event) : Except Ret Event → Ret × UInt8 × Event
  | .ok ev' => (.success, track ||| A.bit, ev')
  | .error ret => (ret, track ||| A.bit, ev)

/-- A stored value changes the fields of its attribute. -/
theorem store_ok {A : Attr} {v : CStr} {ev ev' : Event} (h : A.store v ev = some (.ok ev')) :
    A.fields ev' = A.parts v ∧ ∀ B ≠ A, B.fields ev' = B.fields ev := by
  have kept : (∀ B, B = A ∨ B.fields ev' = B.fields ev) → ∀ B ≠ A, B.fields ev' = B.fields ev :=
    fun h B hB => (h B).resolve_left hB
  unfold store at h
  cases A with
  | eventSpace =>
    dsimp only at h
    split at h
    · cases h
    · split at h <;> cases h
      rename_i hs
      exact ⟨(tokens_of_split hs).symm, kept fun B => by cases B <;> simp [fields]⟩
  | _ =>
    dsimp only at h
    split at h <;> cases h
    exact ⟨rfl, kept fun B => by cases B <;> simp [fields]⟩

theorem store_ne_error_success {A : Attr} {v : CStr} {ev : Event} :
    A.store v ev ≠ some (.error .success) := by
  intro h
  unfold store at h
  cases A with
  | eventSpace =>
    dsimp only at h
    split at h
    · cases h
    · split at h <;> cases h
  | _ =>
    dsimp only at h
    split at h <;> cases h

end Attr

/-- **A pair of an attribute**: an error if it was seen before, or what becomes of its value. The
format of the attribute's own name, which two of them check, is right. -/
theorem checkSubscriptionValuePair_attr {A : Attr} {lhs : CStr}
    (hn : strcaseEq lhs A.name = true) (rhs : CStr) (track : UInt8) (ev : Event) :
    checkSubscriptionValuePair lhs rhs track ev =
      if track &&& A.bit != 0 then some (.errSubscriptionStr, track, ev)
      else (A.store rhs ev).map (A.outcome track ev) := by
  have hname : ∀ s, strcaseEq lhs s = strcaseEq A.name s := fun s =>
    strcaseEq_congr_left (strcaseEq_iff.1 hn)
  have hempty : strcaseEq A.name [] = false := by cases A <;> decide
  have hformat := (isWord_of_name hn).format
  have hsev : (strcaseEq rhs "fatal".toList || strcaseEq rhs "info".toList
      || strcaseEq rhs "warning".toList || strcaseEq rhs "error".toList
      || strcaseEq rhs "all".toList) = decide (lower rhs ∈ severities) := by
    rw [Bool.eq_iff_iff]
    simp only [Bool.or_eq_true, strcaseEq_iff, or_assoc, decide_eq_true_eq, severities,
      List.mem_cons, List.not_mem_nil, or_false]
    exact Iff.rfl
  unfold checkSubscriptionValuePair
  simp only [hname, hempty, hformat, hsev, Bool.false_and, Bool.false_eq_true, if_false,
    Bool.not_true, Bool.or_false, decide_eq_true_eq]
  cases A with
  | severity =>
    rw [if_pos (by decide)]
    refine if_congr Iff.rfl rfl ?_
    dsimp only [Attr.store]
    split <;> rfl
  | eventSpace =>
    rw [if_neg (by decide), if_pos (by decide)]
    refine if_congr Iff.rfl rfl ?_
    dsimp only [Attr.store]
    split
    · rfl
    · cases splitNamespace rhs with
      | none => rfl
      | some r => cases r <;> rfl
  | jobid =>
    rw [if_neg (by decide), if_neg (by decide), if_pos (by decide)]
    refine if_congr Iff.rfl rfl ?_
    dsimp only [Attr.store]
    split <;> rfl
  | hostName =>
    rw [if_neg (by decide), if_neg (by decide), if_neg (by decide), if_pos (by decide)]
    refine if_congr Iff.rfl rfl ?_
    dsimp only [Attr.store]
    split <;> rfl
  | eventName =>
    rw [if_neg (by decide), if_neg (by decide), if_neg (by decide), if_neg (by decide),
      if_pos (by decide)]
    refine if_congr Iff.rfl rfl ?_
    dsimp only [Attr.store]
    split <;> rfl
  | clientName =>
    rw [if_neg (by decide), if_neg (by decide), if_neg (by decide), if_neg (by decide),
      if_neg (by decide), if_pos (by decide)]
    refine if_congr Iff.rfl rfl ?_
    dsimp only [Attr.store]
    split <;> rfl

/-- A pair of no attribute. -/
theorem checkSubscriptionValuePair_other {lhs : CStr} (hl : lhs ≠ [])
    (hn : ∀ A : Attr, strcaseEq lhs A.name = false) (rhs : CStr) (track : UInt8) (ev : Event) :
    checkSubscriptionValuePair lhs rhs track ev = some (.errFilterAttr, track, ev) := by
  have hl' : strcaseEq lhs [] = false := by
    cases lhs with
    | nil => exact absurd rfl hl
    | cons c lhs => rfl
  have hno : ∀ A : Attr, ¬strcaseEq lhs A.name = true := fun A => Bool.eq_false_iff.1 (hn A)
  unfold checkSubscriptionValuePair
  rw [if_neg (by simp [hl'])]
  calc
    _ = _ := if_neg (hno .severity)
    _ = _ := if_neg (hno .eventSpace)
    _ = _ := if_neg (hno .jobid)
    _ = _ := if_neg (hno .hostName)
    _ = _ := if_neg (hno .eventName)
    _ = _ := if_neg (hno .clientName)

/-- A pair is accepted for an attribute that was not seen, whose fields take its value. -/
structure Accepts (A : Attr) (lhs rhs : CStr) (track : UInt8) (ev : Event) (track' : UInt8)
    (ev' : Event) : Prop where
  name : strcaseEq lhs A.name = true
  unseen : track &&& A.bit = 0
  seen : track' = track ||| A.bit
  stored : A.fields ev' = A.parts rhs
  kept : ∀ B ≠ A, B.fields ev' = B.fields ev

theorem checkSubscriptionValuePair_success {lhs rhs : CStr} {track track' : UInt8} {ev ev' : Event}
    (hl : lhs ≠ [])
    (h : checkSubscriptionValuePair lhs rhs track ev = some (.success, track', ev')) :
    ∃ A, A.store rhs ev = some (.ok ev') ∧ Accepts A lhs rhs track ev track' ev' := by
  by_cases hn : ∃ A : Attr, strcaseEq lhs A.name = true
  · obtain ⟨A, hn⟩ := hn
    rw [checkSubscriptionValuePair_attr hn] at h
    split at h
    · cases h
    rename_i hu
    obtain ⟨r, hr, hout⟩ := Option.map_eq_some_iff.1 h
    cases r with
    | error ret =>
      have hret : ret = .success := congrArg Prod.fst hout
      rw [hret] at hr
      exact absurd hr Attr.store_ne_error_success
    | ok ev₁ =>
      cases hout
      obtain ⟨hstored, hkept⟩ := Attr.store_ok hr
      exact ⟨A, hr, hn, by simpa using hu, rfl, hstored, hkept⟩
  · have hno : ∀ A : Attr, strcaseEq lhs A.name = false := fun A =>
      Bool.eq_false_iff.2 fun hA => hn ⟨A, hA⟩
    rw [checkSubscriptionValuePair_other hl hno] at h
    cases h

/-! ## The pairs in order -/

/-- After the pairs `ps`: `track` has the bits of their attributes, and the mask their values. -/
structure Stored (ps : List (CStr × CStr)) (track : UInt8) (ev : Event) : Prop where
  seen : ∀ A : Attr, track &&& A.bit ≠ 0 ↔ ∃ v, Written ps A v
  value : ∀ (A : Attr) v, Written ps A v → A.fields ev = A.parts v
  unset : ∀ A : Attr, (¬∃ v, Written ps A v) → A.fields ev = A.wild

theorem not_written_nil {A : Attr} {v : CStr} : ¬Written [] A v := fun ⟨_, h, _⟩ => by cases h

/-- The call that resets `track`. -/
theorem stored_reset (ev : Event) : ∃ ev', (∀ track, checkSubscriptionValuePair [] [] track ev =
    some (.success, 1, ev')) ∧ Stored [] 1 ev' := by
  refine ⟨_, fun _ => rfl, ⟨fun A => ?_, fun A v h => absurd h not_written_nil, fun A _ => ?_⟩⟩
  · have h0 : 1 &&& A.bit = 0 := by cases A <;> rfl
    exact iff_of_false (fun h => h h0) fun ⟨v, h⟩ => not_written_nil h
  · cases A <;> rfl

theorem written_concat {ps : List (CStr × CStr)} {lhs rhs v : CStr} {A B : Attr}
    (hA : strcaseEq lhs A.name = true) :
    Written (ps ++ [(lhs, rhs)]) B v ↔ Written ps B v ∨ (B = A ∧ v = rhs) := by
  refine ⟨?_, ?_⟩
  · rintro ⟨a, hm, ha⟩
    rcases List.mem_append.1 hm with hm | hm
    · exact .inl ⟨a, hm, ha⟩
    · simp only [List.mem_singleton, Prod.mk.injEq] at hm
      obtain ⟨rfl, rfl⟩ := hm
      exact .inr ⟨Attr.name_inj ((strcaseEq_iff.1 ha).symm.trans (strcaseEq_iff.1 hA)), rfl⟩
  · rintro (⟨a, hm, ha⟩ | ⟨rfl, rfl⟩)
    · exact ⟨a, List.mem_append_left _ hm, ha⟩
    · exact ⟨lhs, by simp, hA⟩

theorem or_and (a b c : UInt8) : (a ||| b) &&& c = a &&& c ||| b &&& c := by
  rw [← UInt8.toBitVec_inj]
  simp [BitVec.and_or_distrib_right]

theorem Stored.pair {ps : List (CStr × CStr)} {track track' : UInt8} {ev ev' : Event} {A : Attr}
    {lhs rhs : CStr} (h : Stored ps track ev) (ha : Accepts A lhs rhs track ev track' ev') :
    Stored (ps ++ [(lhs, rhs)]) track' ev' := by
  have hnew : ¬∃ v, Written ps A v := fun hv => (h.seen A).2 hv ha.unseen
  refine ⟨fun B => ?_, fun B v hv => ?_, fun B hv => ?_⟩
  · simp only [written_concat ha.name, exists_or, ← h.seen B]
    rw [ha.seen, or_and, Ne, UInt8.or_eq_zero_iff, not_and_or]
    refine or_congr_right ?_
    rw [← Ne, Attr.bit_and]
    exact ⟨fun h => ⟨rhs, h.symm, rfl⟩, fun ⟨_, h, _⟩ => h.symm⟩
  · rcases (written_concat ha.name).1 hv with hv | ⟨rfl, rfl⟩
    · have hBA : B ≠ A := fun hBA => hnew ⟨v, hBA ▸ hv⟩
      rw [ha.kept B hBA, h.value B v hv]
    · exact ha.stored
  · have hBA : B ≠ A := fun hBA => hv ⟨rhs, (written_concat ha.name).2 (.inr ⟨hBA, rfl⟩)⟩
    rw [ha.kept B hBA]
    exact h.unset B fun ⟨v, hw⟩ => hv ⟨v, (written_concat ha.name).2 (.inl hw)⟩

theorem parseField_success {pair : CStr} {track track' : UInt8} {ev ev' : Event}
    (h : parseField pair track ev = some (.success, track', ev')) :
    ∃ A lhs rhs, splitPair pair = some (lhs, rhs) ∧ A.store rhs ev = some (.ok ev') ∧
      Accepts A lhs rhs track ev track' ev' := by
  unfold parseField at h
  split at h
  · cases h
  rename_i lhs rhs hp
  split at h
  · cases h
  rename_i hne
  split at h
  · cases h
  split at h
  · cases h
  have hl : lhs ≠ [] := by
    rintro rfl
    simp at hne
  obtain ⟨A, hA⟩ := checkSubscriptionValuePair_success hl h
  exact ⟨A, lhs, rhs, hp, hA⟩

theorem Stored.parseFields {pairs : List CStr} {ps : List (CStr × CStr)} {track track' : UInt8}
    {ev ev' : Event} (h : Stored ps track ev)
    (hp : parseFields pairs track ev = some (.success, track', ev')) :
    Stored (ps ++ pairs.filterMap splitPair) track' ev' := by
  induction pairs generalizing ps track ev with
  | nil =>
    cases hp
    simpa using h
  | cons pair pairs ih =>
    rw [FTBCI.parseFields] at hp
    split at hp
    · rename_i track₁ ev₁ hf
      obtain ⟨A, lhs, rhs, hs, -, hA⟩ := parseField_success hf
      have := ih (h.pair hA) hp
      rw [List.filterMap_cons_some hs]
      simpa using this
    · rename_i hne
      exact absurd hp (hne _ _)

/-- The mask of an accepted string. -/
theorem stored_of_parse {s : CStr} {track track' : UInt8} {ev m : Event}
    (h : parseSubscriptionString (some s) track ev = some (.success, track', m)) :
    Stored (written s) track' m := by
  obtain ⟨ev', hc, hs⟩ := stored_reset ev
  simp only [parseSubscriptionString, hc] at h
  split at h
  · rename_i hnil
    cases h
    rw [beq_iff_eq.1 hnil]
    exact hs
  · split at h
    · cases h
    · exact hs.parseFields h

/-! ## The mask and the string -/

/-- A field of the mask asks what the values written for it ask. -/
theorem sat_iff {x f : CStr} {W : CStr → Prop} {g : CStr → CStr} (hv : ∀ v, W v → f = g v)
    (hu : (¬∃ v, W v) → f = all) : sat x f = true ↔ ∀ v, W v → sat x (g v) = true := by
  refine ⟨fun h v hw => hv v hw ▸ h, fun h => ?_⟩
  by_cases hw : ∃ v, W v
  · obtain ⟨v, hw⟩ := hw
    exact hv v hw ▸ h v hw
  · rw [hu hw, sat, Bool.or_eq_true]
    exact .inr (by decide)

section
variable {ps : List (CStr × CStr)} {track : UInt8} {m : Event}

theorem Stored.single {A : Attr} (h : Stored ps track m) (hp : ∀ v, A.parts v = [v])
    (hw : A.wild = [all]) {f : CStr} (hf : A.fields m = [f]) :
    (∀ v, Written ps A v → f = v) ∧ ((¬∃ v, Written ps A v) → f = all) := by
  refine ⟨fun v hv => ?_, fun hn => ?_⟩
  · have := h.value A v hv
    rw [hf, hp] at this
    exact List.singleton_inj.1 this
  · have := h.unset A hn
    rw [hf, hw] at this
    exact List.singleton_inj.1 this

/-- An attribute with one field. -/
theorem Stored.sat_field {A : Attr} (h : Stored ps track m) (hp : ∀ v, A.parts v = [v])
    (hw : A.wild = [all]) {f : CStr} (hf : A.fields m = [f]) (x : CStr) :
    sat x f = true ↔ ∀ v, Written ps A v → sat x v = true :=
  have ⟨hv, hu⟩ := h.single hp hw hf
  sat_iff hv hu

/-- A part of the event space. -/
theorem Stored.sat_part (h : Stored ps track m) (n : Nat) (hn : n < 3) (x : CStr) :
    sat x ([m.region, m.compCat, m.comp].getD n []) = true ↔
      ∀ v, Written ps .eventSpace v → sat x ((tokens '.' v).getD n []) = true := by
  refine sat_iff (fun v hv => ?_) fun hu => ?_
  · rw [show tokens '.' v = [m.region, m.compCat, m.comp] from (h.value .eventSpace v hv).symm]
  · rw [show [m.region, m.compCat, m.comp] = [all, all, all] from h.unset .eventSpace hu]
    match n, hn with
    | 0, _ | 1, _ | 2, _ => rfl

theorem namesEvent_iff {s : CStr} (h : Stored (written s) track m) :
    NamesEvent s ↔ strcaseEq m.eventName all = false := by
  have ⟨hv, hu⟩ := h.single (A := .eventName) (f := m.eventName) (fun _ => rfl) rfl rfl
  refine ⟨fun ⟨v, hw, hne⟩ => hv v hw ▸ hne, fun hne => ?_⟩
  by_cases hw : ∃ v, Written (written s) .eventName v
  · obtain ⟨v, hw⟩ := hw
    exact ⟨v, hw, hv v hw ▸ hne⟩
  · rw [hu hw] at hne
    exact absurd hne (by decide)

end

theorem matchMask_eq (e m : Event) : matchMask e m =
    (sat e.region m.region && sat e.clientJobid m.clientJobid && sat e.clientName m.clientName
      && sat e.hostname m.hostname &&
      if strcaseEq m.eventName all then
        sat e.severity m.severity && sat e.compCat m.compCat && sat e.comp m.comp
      else strcaseEq e.eventName m.eventName) := by
  have hall : ∀ a, strcaseEq a "ALL".toList = strcaseEq a all := fun _ =>
    strcaseEq_congr_right (by decide)
  simp only [matchMask, hall, sat]
  by_cases hn : strcaseEq m.eventName all = true <;> simp [hn]

/-- **An accepted string matches an event exactly if the event satisfies the pairs that are looked
at.** -/
theorem matchMask_iff_means (s : CStr) (track : UInt8) (ev : Event) (track' : UInt8) (m e : Event)
    (h : parseSubscriptionString (some s) track ev = some (.success, track', m)) :
    matchMask e m = true ↔ Means s e := by
  have hs := stored_of_parse h
  have hj := hs.sat_field (A := .jobid) (fun _ => rfl) rfl rfl e.clientJobid
  have hh := hs.sat_field (A := .hostName) (fun _ => rfl) rfl rfl e.hostname
  have hc := hs.sat_field (A := .clientName) (fun _ => rfl) rfl rfl e.clientName
  have hn := hs.sat_field (A := .eventName) (fun _ => rfl) rfl rfl e.eventName
  have hv := hs.sat_field (A := .severity) (fun _ => rfl) rfl rfl e.severity
  have hr := hs.sat_part 0 (by decide) e.region
  have hk := hs.sat_part 1 (by decide) e.compCat
  have hp := hs.sat_part 2 (by decide) e.comp
  simp only [List.getD_cons_zero, List.getD_cons_succ] at hr hk hp
  rw [matchMask_eq]
  simp only [Bool.and_eq_true, and_assoc]
  rw [hr, hj, hc, hh]
  by_cases hname : strcaseEq m.eventName all = true
  · -- the wildcard: every field is compared
    have hnot : ¬NamesEvent s := fun h => by
      rw [(namesEvent_iff hs).1 h] at hname
      cases hname
    have hsat : sat e.eventName m.eventName = true := by
      rw [sat, hname, Bool.or_true]
    rw [if_pos hname]
    simp only [Bool.and_eq_true, and_assoc]
    rw [hv, hk, hp]
    exact ⟨fun ⟨h1, h2, h3, h4, h5, h6, h7⟩ => ⟨h2, h4, h3, hn.1 hsat, h1, fun _ => h5, fun _ => h6,
      fun _ => h7⟩, fun h => ⟨h.region, h.jobid, h.clientName, h.hostName, h.severity hnot,
      h.category hnot, h.component hnot⟩⟩
  · have hname := Bool.eq_false_iff.2 hname
    have hnamed := (namesEvent_iff hs).2 hname
    have hsat : sat e.eventName m.eventName = strcaseEq e.eventName m.eventName := by
      rw [sat, hname, Bool.or_false]
    rw [if_neg (by rw [hname]; decide), ← hsat, hn]
    exact ⟨fun ⟨h1, h2, h3, h4, h5⟩ => ⟨h2, h4, h3, h5, h1, fun h => absurd hnamed h,
      fun h => absurd hnamed h, fun h => absurd hnamed h⟩,
      fun h => ⟨h.region, h.jobid, h.clientName, h.hostName, h.eventName⟩⟩

/-- A severity beside an event name. -/
theorem matchMask_iff_means_fatal :
    matchMask { (default : Event) with eventName := "foo".toList, severity := "info".toList }
      { (default : Event) with
        severity := "fatal".toList, eventName := "foo".toList, region := all, compCat := all,
        comp := all, clientJobid := all, clientName := all, hostname := all } = true ↔
    Means "severity=fatal,event_name=foo".toList
      { (default : Event) with eventName := "foo".toList, severity := "info".toList } :=
  matchMask_iff_means "severity=fatal,event_name=foo".toList 0 default 35 _ _ (by decide)

/-- The severity of a string that names an event is not looked at. -/
theorem matchMask_not_satisfiesAll : ¬∀ s track ev track' m e,
    parseSubscriptionString (some s) track ev = some (.success, track', m) →
      (matchMask e m = true ↔ SatisfiesAll s e) := by
  intro h
  let s : CStr := "severity=fatal,event_name=foo".toList
  let e : Event := { (default : Event) with eventName := "foo".toList, severity := "info".toList }
  let m : Event := { (default : Event) with
    severity := "fatal".toList, eventName := "foo".toList, region := all, compCat := all, comp := all,
    clientJobid := all, clientName := all, hostname := all }
  have hall := (h s 0 default 35 m e (by decide)).1 (by decide)
  have hw : Written (written s) .severity "fatal".toList := ⟨"severity".toList, by decide, by decide⟩
  have := hall .severity _ hw
  simp only [Attr.fields, Attr.parts, List.forall₂_cons, List.Forall₂.nil, and_true] at this
  exact absurd this (by decide)

end FTBCI
