import Mathlib.Data.List.Perm.Subperm
import Ftb.Client.Meaning

/-!
# Subscription strings, written and read back

A subscription is a choice of attributes with valid values (`Attr.IsValue`), written in any order and
letter case and with any padding (`Subscription.render`). The parser reads it back
(`parseFields_render`, with `Attr.IsValue.stored` for one pair); and whatever it accepts is such a
choice (`parseFields_reads`).
-/

open FTB FTBU CStr

namespace FTBCI

/-! ## Texts -/

/-- A text that no step of the parser cuts or trims. -/
structure IsText (v : CStr) : Prop where
  nonempty : v ≠ []
  comma : ',' ∉ v
  equals : '=' ∉ v
  blank : v.any isBlank = false

theorem IsWord.text {s : CStr} (h : IsWord s) : IsText s where
  nonempty := h.nonempty
  comma := not_mem_of_format h.format (by decide)
  equals := not_mem_of_format h.format (by decide)
  blank := by
    rw [List.any_eq_false]
    intro c hc hb
    unfold isBlank at hb
    rw [Bool.or_eq_true, beq_iff_eq, beq_iff_eq] at hb
    rcases hb with rfl | rfl
    · exact not_mem_of_format h.format (by decide) hc
    · exact not_mem_of_format h.format (by decide) hc

theorem IsEventSpace.text {s region compCat comp : CStr} (h : IsEventSpace s region compCat comp) :
    IsText s := by
  have hr := h.region.text
  have hc := h.compCat.text
  have hk := h.comp.text
  rw [← h.joined]
  refine ⟨?_, ?_, ?_, ?_⟩
  · simp [concatenateStrings]
  · simp [concatenateStrings, hr.comma, hc.comma, hk.comma]
  · simp [concatenateStrings, hr.equals, hc.equals, hk.equals]
  · have hdot : isBlank '.' = false := by decide
    simp [concatenateStrings, List.any_append, List.any_cons, hr.blank, hc.blank, hk.blank, hdot]

/-! ## Values -/

namespace Attr

/-- The valid values of an attribute. -/
def IsValue (v : CStr) : Attr → Prop
  | severity => lower v ∈ severities
  | eventSpace => ∃ region compCat comp, IsEventSpace v region compCat comp
  | jobid => IsText v ∧ v.length < maxClientJobid
  | hostName => IsText v ∧ v.length < maxHostAddr
  | eventName => IsWord v ∧ v.length < maxEventName
  | clientName => IsWord v ∧ v.length < maxClientName

theorem IsValue.text {A : Attr} {v : CStr} (h : A.IsValue v) : IsText v := by
  cases A with
  | severity =>
    have hw : ∀ s ∈ severities, IsWord s := by decide
    exact (IsWord.of_lower (hw _ h)).text
  | eventSpace =>
    obtain ⟨region, compCat, comp, hs⟩ := h
    exact hs.text
  | jobid => exact h.1
  | hostName => exact h.1
  | eventName => exact h.1.text
  | clientName => exact h.1.text

end Attr

/-- A valid value is stored. -/
theorem Attr.IsValue.stored {A : Attr} {v : CStr} (h : A.IsValue v) (ev : Event) :
    ∃ ev', A.store v ev = some (.ok ev') := by
  unfold Attr.store
  cases A with
  | severity => exact ⟨_, if_pos h⟩
  | eventSpace =>
    obtain ⟨region, compCat, comp, hs⟩ := h
    have hshort := hs.short
    dsimp only
    rw [if_neg (by omega), splitNamespace_ok_iff.2 hs]
    exact ⟨_, rfl⟩
  | _ => exact ⟨_, if_neg (Nat.not_le.2 h.2)⟩

/-! ## Fields -/

/-- A field of a subscription string: an attribute with a valid value, and how they are written. -/
structure FilterField where
  attr : Attr
  value : CStr
  name : CStr
  beforeName : CStr
  afterName : CStr
  beforeValue : CStr
  afterValue : CStr
  valid : attr.IsValue value
  named : strcaseEq name attr.name = true
  blank : Blank (beforeName ++ afterName ++ beforeValue ++ afterValue)

/-- Its text. -/
def FilterField.text (f : FilterField) : CStr :=
  (f.beforeName ++ f.name ++ f.afterName) ++ '=' :: (f.beforeValue ++ f.value ++ f.afterValue)

/-- A field says that the attribute has the value: its texts before the first `=` and up to the
second, without padding. -/
def Reads (text : CStr) (p : Attr × CStr) : Prop :=
  ∃ a b, text = a ++ '=' :: b ∧ '=' ∉ a ∧ strcaseEq (softTrim a) p.1.name = true ∧
    p.2 = softTrim (b.takeWhile (· ≠ '='))

theorem splitPair_of_not_mem {s : CStr} (h : '=' ∉ s) : splitPair s = none := by
  unfold splitPair
  rw [strsep_of_not_mem h]

theorem splitPair_append {a : CStr} (h : '=' ∉ a) (b : CStr) :
    splitPair (a ++ '=' :: b) = some (softTrim a, softTrim (b.takeWhile (· ≠ '='))) := by
  unfold splitPair
  rw [strsep_append h, ← strsep_fst]

/-- The parser cuts a field as it is read. -/
theorem reads_of_splitPair {s lhs rhs : CStr} {A : Attr} (h : splitPair s = some (lhs, rhs))
    (hn : strcaseEq lhs A.name = true) : Reads s (A, rhs) := by
  by_cases hs : '=' ∈ s
  · obtain ⟨a, b, rfl, ha⟩ := List.eq_append_cons_of_mem hs
    rw [splitPair_append ha] at h
    cases h
    exact ⟨a, b, rfl, ha, hn, rfl⟩
  · rw [splitPair_of_not_mem hs] at h
    cases h

namespace FilterField

variable (f : FilterField)

theorem not_mem_pad {p : CStr} (hp : Blank p) {c : Char} (hc : isBlank c = false) : c ∉ p := by
  intro hm
  rw [hp c hm] at hc
  cases hc

theorem blanks : (Blank f.beforeName ∧ Blank f.afterName) ∧
    Blank f.beforeValue ∧ Blank f.afterValue := by
  have h := f.blank
  unfold Blank at h ⊢
  simp only [List.forall_mem_append] at h
  exact ⟨h.1.1, h.1.2, h.2⟩

/-- The parser cuts the text into the name and the value. -/
theorem splitPair_text : splitPair f.text = some (f.name, f.value) := by
  obtain ⟨⟨hbn, han⟩, hbv, hav⟩ := f.blanks
  have hname := (isWord_of_name f.named).text
  have hvalue := f.valid.text
  have hpad : ∀ {p : CStr}, Blank p → '=' ∉ p := fun hp => not_mem_pad hp (by decide)
  have hn : '=' ∉ f.beforeName ++ f.name ++ f.afterName := by
    simp [hpad hbn, hname.equals, hpad han]
  have hv : '=' ∉ f.beforeValue ++ f.value ++ f.afterValue := by
    simp [hpad hbv, hvalue.equals, hpad hav]
  unfold text
  rw [splitPair_append hn, ← strsep_fst, strsep_of_not_mem hv,
    softTrim_padded hbn han hname.blank, softTrim_padded hbv hav hvalue.blank]

theorem comma_not_mem_text : ',' ∉ f.text := by
  obtain ⟨⟨hbn, han⟩, hbv, hav⟩ := f.blanks
  have hpad : ∀ {p : CStr}, Blank p → ',' ∉ p := fun hp => not_mem_pad hp (by decide)
  simp [text, hpad hbn, hpad han, hpad hbv, hpad hav, (isWord_of_name f.named).text.comma,
    f.valid.text.comma]

/-- The text says nothing else. -/
theorem eq_of_reads {p : Attr × CStr} (h : Reads f.text p) : p = (f.attr, f.value) := by
  obtain ⟨a, b, ht, ha, hn, hv⟩ := h
  have hs := f.splitPair_text
  rw [ht, splitPair_append ha, Option.some.injEq, Prod.mk.injEq] at hs
  rw [hs.1] at hn
  rw [hs.2] at hv
  have hA : p.1 = f.attr :=
    Attr.name_inj ((strcaseEq_iff.1 hn).symm.trans (strcaseEq_iff.1 f.named))
  exact Prod.ext hA hv

theorem parseField_text {track : UInt8} (hu : track &&& f.attr.bit = 0) (ev : Event) :
    ∃ ev', parseField f.text track ev = some (.success, track ||| f.attr.bit, ev') := by
  have hname := (isWord_of_name f.named).text
  have hvalue := f.valid.text
  obtain ⟨ev', he⟩ := f.valid.stored ev
  refine ⟨ev', ?_⟩
  unfold parseField
  simp only [f.splitPair_text, hname.blank, hvalue.blank, Bool.false_eq_true, if_false]
  rw [if_neg (by simp [hname.nonempty, hvalue.nonempty]),
    checkSubscriptionValuePair_attr f.named, if_neg (by simp [hu]), he]
  rfl

end FilterField

/-! ## All fields -/

theorem unseen_or {A B : Attr} (h : A ≠ B) {track : UInt8} :
    (track ||| A.bit) &&& B.bit = 0 ↔ track &&& B.bit = 0 := by
  have hAB : A.bit &&& B.bit = 0 := by
    by_contra hb
    exact h (Attr.bit_and.1 hb)
  rw [or_and, hAB, UInt8.or_zero]

theorem parseFields_render {fs : List FilterField} (hd : fs.Pairwise fun f g => f.attr ≠ g.attr)
    {track : UInt8} (hu : ∀ f ∈ fs, track &&& f.attr.bit = 0) (ev : Event) :
    ∃ track' ev', parseFields (fs.map FilterField.text) track ev = some (.success, track', ev') := by
  induction fs generalizing track ev with
  | nil => exact ⟨track, ev, rfl⟩
  | cons f fs ih =>
    obtain ⟨hf, hd⟩ := List.pairwise_cons.1 hd
    obtain ⟨ev₁, h₁⟩ := f.parseField_text (hu f List.mem_cons_self) ev
    obtain ⟨track', ev', h'⟩ := ih hd
      (fun g hg => (unseen_or (hf g hg)).2 (hu g (List.mem_cons_of_mem _ hg))) ev₁
    refine ⟨track', ev', ?_⟩
    rw [List.map_cons, parseFields, h₁]
    exact h'

/-- **What the second loop accepts**: every field names an attribute, none of them twice, and the
mask holds the values. -/
theorem parseFields_reads {pairs : List CStr} {track track' : UInt8} {ev m : Event}
    (h : parseFields pairs track ev = some (.success, track', m)) :
    ∃ ps : List (Attr × CStr), List.Forall₂ Reads pairs ps ∧ (ps.map Prod.fst).Nodup ∧
      (∀ A ∈ ps.map Prod.fst, track &&& A.bit = 0) ∧
      (∀ p ∈ ps, p.1.fields m = p.1.parts p.2) ∧
      ∀ A ∉ ps.map Prod.fst, A.fields m = A.fields ev := by
  induction pairs generalizing track ev with
  | nil =>
    cases h
    exact ⟨[], .nil, List.nodup_nil, by simp, by simp, fun _ _ => rfl⟩
  | cons pair pairs ih =>
    rw [parseFields] at h
    split at h
    swap
    · rename_i hne
      exact absurd h (hne _ _)
    rename_i track₁ ev₁ hf
    obtain ⟨A, lhs, rhs, hs, -, hA⟩ := parseField_success hf
    obtain ⟨ps, hr, hnd, hu, hv, hk⟩ := ih h
    -- the bit of the attribute is set for the fields that follow
    have hnew : A ∉ ps.map Prod.fst := by
      intro hm
      have h0 := hu A hm
      rw [hA.seen, or_and, UInt8.or_eq_zero_iff] at h0
      exact Attr.bit_and.2 rfl h0.2
    refine ⟨(A, rhs) :: ps, .cons (reads_of_splitPair hs hA.name) hr, ?_, ?_, ?_, ?_⟩
    · exact List.nodup_cons.2 ⟨hnew, hnd⟩
    · intro B hB
      rcases List.mem_cons.1 hB with rfl | hB
      · exact hA.unseen
      · have hne : A ≠ B := fun he => hnew (he ▸ hB)
        have h0 := hu B hB
        rw [hA.seen] at h0
        exact (unseen_or hne).1 h0
    · intro p hp
      rcases List.mem_cons.1 hp with rfl | hp
      · rw [hk A hnew]
        exact hA.stored
      · exact hv p hp
    · intro B hB
      rw [List.map_cons, List.mem_cons, not_or] at hB
      rw [hk B hB.2]
      exact hA.kept B hB.1

/-- The mask of pairs: their values, and the wildcard for the attributes without one. -/
structure MaskOf (ps : List (Attr × CStr)) (m : Event) : Prop where
  value : ∀ p ∈ ps, p.1.fields m = p.1.parts p.2
  wild : ∀ A ∉ ps.map Prod.fst, A.fields m = A.wild

/-- A subscription: some attributes, none of them twice. -/
structure Subscription where
  fields : List FilterField
  nonempty : fields ≠ []
  distinct : fields.Pairwise fun f g => f.attr ≠ g.attr

namespace Subscription

variable (sub : Subscription)

/-- Its string. -/
def render : CStr := List.intercalate [','] (sub.fields.map FilterField.text)

def pairs : List (Attr × CStr) := sub.fields.map fun f => (f.attr, f.value)

theorem tokens_render : tokens ',' sub.render = sub.fields.map FilterField.text := by
  apply tokens_intercalate
  · exact fun h => sub.nonempty (List.map_eq_nil_iff.1 h)
  · intro l hl
    obtain ⟨f, -, rfl⟩ := List.mem_map.1 hl
    exact f.comma_not_mem_text

/-- There are six attributes. -/
theorem length_fields : sub.fields.length ≤ 6 := by
  let attrs : List Attr := [.severity, .eventSpace, .jobid, .hostName, .eventName, .clientName]
  have hnd : (sub.fields.map FilterField.attr).Nodup := List.pairwise_map.2 sub.distinct
  have hsub : sub.fields.map FilterField.attr ⊆ attrs := fun A _ => by cases A <;> decide
  have hle := (hnd.subperm hsub).length_le
  rwa [List.length_map] at hle

end Subscription

theorem forall₂_reads {fs : List FilterField} {ps : List (Attr × CStr)}
    (h : List.Forall₂ Reads (fs.map FilterField.text) ps) :
    ps = fs.map fun f => (f.attr, f.value) := by
  induction fs generalizing ps with
  | nil =>
    cases h
    rfl
  | cons f fs ih =>
    cases h with
    | cons hr hrest => rw [List.map_cons, f.eq_of_reads hr, ih hrest]

/-- The texts between the commas of a string, and what each of them says. -/
structure ReadAs (s : CStr) (ps : List (Attr × CStr)) : Prop where
  fields : ∃ texts : List CStr, List.intercalate [','] texts = s ∧ (∀ t ∈ texts, ',' ∉ t) ∧
    List.Forall₂ Reads texts ps
  distinct : (ps.map Prod.fst).Nodup

/-- The reading of a string that is not empty. -/
theorem reads_of_parse {s : CStr} (hs : s ≠ []) {track track' : UInt8} {ev m : Event}
    (h : parseSubscriptionString (some s) track ev = some (.success, track', m)) :
    ∃ ps, List.Forall₂ Reads (tokens ',' s) ps ∧ (ps.map Prod.fst).Nodup ∧ MaskOf ps m := by
  obtain ⟨ev₀, hc, hstored⟩ := stored_reset ev
  simp only [parseSubscriptionString, hc] at h
  rw [if_neg (by simpa using hs)] at h
  split at h
  · cases h
  obtain ⟨ps, hr, hnd, -, hv, hk⟩ := parseFields_reads h
  refine ⟨ps, hr, hnd, hv, fun A hA => ?_⟩
  rw [hk A hA]
  apply hstored.unset
  rintro ⟨v, hw⟩
  exact not_written_nil hw

/-- The string of a subscription gives its mask. -/
theorem parse_render (sub : Subscription) (track : UInt8) (ev : Event) : ∃ track' m,
    parseSubscriptionString (some sub.render) track ev = some (.success, track', m) ∧
      MaskOf sub.pairs m := by
  obtain ⟨ev₀, hc, -⟩ := stored_reset ev
  have hlen := sub.length_fields
  have hne : sub.render ≠ [] := by
    intro hn
    have ht := sub.tokens_render
    rw [hn] at ht
    obtain ⟨f, fs, hf⟩ := List.exists_cons_of_ne_nil sub.nonempty
    rw [hf, List.map_cons] at ht
    have hnil : f.text = [] := (List.cons.inj ht).1.symm
    simp [FilterField.text] at hnil
  have hunseen : ∀ f ∈ sub.fields, 1 &&& f.attr.bit = 0 := fun f _ => by cases f.attr <;> rfl
  obtain ⟨track', m, hp⟩ := parseFields_render sub.distinct hunseen ev₀
  have hparse : parseSubscriptionString (some sub.render) track ev = some (.success, track', m) := by
    simp only [parseSubscriptionString, hc]
    rw [if_neg (by simpa using hne), sub.tokens_render, List.length_map,
      if_neg (by unfold maxSubscriptionFields; omega)]
    exact hp
  obtain ⟨ps, hr, -, hm⟩ := reads_of_parse hne hparse
  rw [sub.tokens_render] at hr
  rw [forall₂_reads hr] at hm
  exact ⟨track', m, hparse, hm⟩

/-- **A subscription is read back, and only subscriptions are accepted.** The string of any
subscription gives the mask of its pairs, whatever `track` was. A string that is accepted, and is not
empty, names an attribute in every field, none of them twice, and gives the mask of its fields. -/
theorem subscription_read_back (sub : Subscription) (s : CStr) (track : UInt8) (ev : Event) :
    (∃ track' m, parseSubscriptionString (some sub.render) track ev = some (.success, track', m) ∧
      MaskOf sub.pairs m) ∧
    ∀ track' m, s ≠ [] →
      parseSubscriptionString (some s) track ev = some (.success, track', m) →
      ∃ ps, ReadAs s ps ∧ MaskOf ps m := by
  refine ⟨parse_render sub track ev, fun track' m hs h => ?_⟩
  obtain ⟨ps, hr, hnd, hm⟩ := reads_of_parse hs h
  have hcut : ∀ t ∈ tokens ',' s, ',' ∉ t := fun t => not_mem_of_mem_tokens
  exact ⟨ps, ⟨⟨tokens ',' s, intercalate_tokens ',' s, hcut, hr⟩, hnd⟩, hm⟩

/-- Two fields, the first one in capitals and with blanks. -/
def fatalFoo : Subscription where
  fields :=
    [⟨.severity, "fatal".toList, "SEVERITY".toList, [' '], [], ['\t'], [],
        (by decide : lower "fatal".toList ∈ severities), by decide, by decide⟩,
      ⟨.eventName, "foo".toList, "event_name".toList, [], [], [], [], ⟨by decide, by decide⟩,
        by decide, by decide⟩]
  nonempty := List.cons_ne_nil _ _
  distinct := by decide

theorem subscription_read_back_fatal : ∃ track' m,
    parseSubscriptionString (some " SEVERITY=\tfatal,event_name=foo".toList) 0 default =
      some (.success, track', m) ∧
    MaskOf [(.severity, "fatal".toList), (.eventName, "foo".toList)] m ∧
    ∃ ps, ReadAs " SEVERITY=\tfatal,event_name=foo".toList ps ∧ MaskOf ps m := by
  obtain ⟨⟨track', m, h, hm⟩, hback⟩ := subscription_read_back fatalFoo
    " SEVERITY=\tfatal,event_name=foo".toList 0 default
  exact ⟨track', m, h, hm, hback track' m (by decide) h⟩

end FTBCI
