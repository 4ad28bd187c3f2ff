import Ftb.Client.Receive
import Ftb.Client.Tokens

/-!
# Event spaces (`FTBCI_split_namespace`)

An event space is short and has three words with dots between them (`IsEventSpace`). The function
looks behind the first and the second dot without asking whether there is one, so it is defined on
strings of two dots and more, and on the few others that fail before (`splitNamespace_none_iff`).
There it accepts the event spaces and nothing else (`splitNamespace_exact_iff`).
-/

open FTB CStr

namespace FTBCI

/-- A word: not empty, and of letters, digits and underscores. -/
structure IsWord (s : CStr) : Prop where
  nonempty : s ≠ []
  format : checkAlphanumericUnderscoreFormat s = true

instance (s : CStr) : Decidable (IsWord s) :=
  decidable_of_iff (s ≠ [] ∧ checkAlphanumericUnderscoreFormat s = true)
    ⟨fun h => ⟨h.1, h.2⟩, fun h => ⟨h.nonempty, h.format⟩⟩

/-- `s` is the event space of the three words. -/
structure IsEventSpace (s region compCat comp : CStr) : Prop where
  short : s.length < maxEventspace
  joined : concatenateStrings region compCat comp = s
  region : IsWord region
  compCat : IsWord compCat
  comp : IsWord comp

theorem not_mem_of_format {s : CStr} {c : Char} (h : checkAlphanumericUnderscoreFormat s = true)
    (hc : checkAlphanumericUnderscoreFormat [c] = false) : c ∉ s := by
  intro hm
  unfold checkAlphanumericUnderscoreFormat at h hc
  rw [List.all_cons, List.all_nil, Bool.and_true] at hc
  rw [List.all_eq_true] at h
  have ht := h c hm
  rw [hc] at ht
  cases ht

theorem IsWord.not_dot {s : CStr} (h : IsWord s) : '.' ∉ s := not_mem_of_format h.format (by decide)

/-! ## By the number of dots -/

section
variable {s r c k : CStr}

theorem splitNamespace_long (h : maxEventspace ≤ s.length) :
    splitNamespace s = some (.error .errEventspaceFormat) := by
  unfold splitNamespace
  rw [if_pos h]

/-- Without a dot: what is left after the first word is NULL. -/
theorem splitNamespace_zero (hs : s.length < maxEventspace) (h : '.' ∉ s) :
    splitNamespace s = if s = [] then some (.error .errEventspaceFormat) else none := by
  unfold splitNamespace
  rw [if_neg (by omega), strsep_of_not_mem h]
  by_cases hn : s = [] <;> simp [hn]

/-- With one dot: what is left after the second word is NULL. -/
theorem splitNamespace_one (hs : (r ++ '.' :: c).length < maxEventspace) (hr : '.' ∉ r)
    (hc : '.' ∉ c) : splitNamespace (r ++ '.' :: c) =
      if r = [] ∨ c = [] then some (.error .errEventspaceFormat) else none := by
  unfold splitNamespace
  rw [if_neg (by omega), strsep_append hr]
  by_cases hrn : r = []
  · simp [hrn]
  · cases c with
    | nil => simp [hrn]
    | cons x c => simp [hrn, strsep_of_not_mem hc]

/-- With two dots and more: three words, or an error. -/
theorem splitNamespace_two (hs : (r ++ '.' :: (c ++ '.' :: k)).length < maxEventspace)
    (hr : '.' ∉ r) (hc : '.' ∉ c) : splitNamespace (r ++ '.' :: (c ++ '.' :: k)) =
      if IsWord r ∧ IsWord c ∧ IsWord k then some (.ok (r, c, k))
      else some (.error .errEventspaceFormat) := by
  have hword : ∀ {w : CStr}, w ≠ [] →
      (IsWord w ↔ checkAlphanumericUnderscoreFormat w = true) := fun hw =>
    ⟨IsWord.format, fun h => ⟨hw, h⟩⟩
  have hempty : ¬IsWord [] := fun h => h.nonempty rfl
  unfold splitNamespace
  rw [if_neg (by omega), strsep_append hr]
  by_cases hrn : r = []
  · simp [hrn, hempty]
  have hrest : ∃ x l, c ++ '.' :: k = x :: l := List.exists_cons_of_ne_nil (by simp)
  obtain ⟨x, l, hx⟩ := hrest
  simp only [beq_iff_eq, hrn, if_false, hx]
  rw [← hx, strsep_append hc]
  by_cases hcn : c = []
  · simp [hcn, hempty]
  by_cases hkn : k = []
  · simp [hcn, hkn, hempty]
  obtain ⟨y, m, rfl⟩ := List.exists_cons_of_ne_nil hkn
  simp only [hcn, if_false, hword hrn, hword hcn, hword hkn]
  by_cases hk : '.' ∈ y :: m
  · -- a third dot: the rest is not a word, nor does the code go on
    have hkw : checkAlphanumericUnderscoreFormat (y :: m) = false :=
      Bool.eq_false_iff.2 fun h => not_mem_of_format h (by decide) hk
    obtain ⟨a, b, he, ha⟩ := List.eq_append_cons_of_mem hk
    rw [he] at hkw ⊢
    rw [strsep_append ha]
    simp [hkw]
  · rw [strsep_of_not_mem hk]
    cases checkAlphanumericUnderscoreFormat r <;> cases checkAlphanumericUnderscoreFormat c <;>
      cases checkAlphanumericUnderscoreFormat (y :: m) <;> simp

end

/-- The three words of an event space, or no two dots: how a short string is written. -/
theorem dots_cases (s : CStr) :
    '.' ∉ s ∨ (∃ r c, s = r ++ '.' :: c ∧ '.' ∉ r ∧ '.' ∉ c) ∨
      ∃ r c k, s = r ++ '.' :: (c ++ '.' :: k) ∧ '.' ∉ r ∧ '.' ∉ c := by
  by_cases h : '.' ∈ s
  · obtain ⟨r, t, rfl, hr⟩ := List.eq_append_cons_of_mem h
    by_cases ht : '.' ∈ t
    · obtain ⟨c, k, rfl, hc⟩ := List.eq_append_cons_of_mem ht
      exact .inr (.inr ⟨r, c, k, rfl, hr, hc⟩)
    · exact .inr (.inl ⟨r, t, rfl, hr, ht⟩)
  · exact .inl h

/-! ## The grammar -/

/-- **The event spaces are split into their words.** -/
theorem splitNamespace_ok_iff {s region compCat comp : CStr} :
    splitNamespace s = some (.ok (region, compCat, comp)) ↔ IsEventSpace s region compCat comp := by
  constructor
  · intro h
    have hs : s.length < maxEventspace := by
      by_contra hn
      rw [splitNamespace_long (by omega)] at h
      cases h
    rcases dots_cases s with hd | ⟨r, c, rfl, hr, hc⟩ | ⟨r, c, k, rfl, hr, hc⟩
    · rw [splitNamespace_zero hs hd] at h
      split at h <;> cases h
    · rw [splitNamespace_one hs hr hc] at h
      split at h <;> cases h
    · rw [splitNamespace_two hs hr hc] at h
      split at h
      · rename_i hw
        cases h
        exact ⟨hs, by simp [concatenateStrings], hw.1, hw.2.1, hw.2.2⟩
      · cases h
  · intro h
    have hs : s = region ++ '.' :: (compCat ++ '.' :: comp) := by
      rw [← h.joined]
      simp [concatenateStrings]
    have hshort := h.short
    rw [hs] at hshort ⊢
    rw [splitNamespace_two hshort h.region.not_dot h.compCat.not_dot,
      if_pos ⟨h.region, h.compCat, h.comp⟩]

/-- The words are the pieces between the dots. -/
theorem tokens_of_split {s region compCat comp : CStr}
    (h : splitNamespace s = some (.ok (region, compCat, comp))) :
    tokens '.' s = [region, compCat, comp] := by
  have hs := splitNamespace_ok_iff.1 h
  have hjoined : region ++ '.' :: (compCat ++ '.' :: comp) = s := by
    rw [← hs.joined]
    simp [concatenateStrings]
  rw [← hjoined, tokens_append hs.region.not_dot, tokens_append hs.compCat.not_dot,
    tokens_of_not_mem hs.comp.not_dot]

/-- **Where the code reads through the NULL of `strsep`**: a short string of less than two dots that
neither is empty nor has a dot at an end. -/
theorem splitNamespace_none_iff {s : CStr} : splitNamespace s = none ↔
    s.length < maxEventspace ∧ s.count '.' < 2 ∧ s ≠ [] ∧ s.head? ≠ some '.' ∧
      s.getLast? ≠ some '.' := by
  by_cases hs : s.length < maxEventspace
  swap
  · rw [splitNamespace_long (by omega)]
    simp [hs]
  rw [and_iff_right hs]
  rcases dots_cases s with hd | ⟨r, c, rfl, hr, hc⟩ | ⟨r, c, k, rfl, hr, hc⟩
  · have hh : s.head? ≠ some '.' := fun h => hd (List.mem_of_head? h)
    have hl : s.getLast? ≠ some '.' := fun h => hd (List.mem_of_getLast? h)
    rw [splitNamespace_zero hs hd, List.count_eq_zero.2 hd]
    by_cases hn : s = [] <;> simp [hn, hh, hl]
  · have hcount : (r ++ '.' :: c).count '.' = 1 := by
      rw [List.count_append, List.count_cons_self, List.count_eq_zero.2 hr, List.count_eq_zero.2 hc]
    have hhead : (r ++ '.' :: c).head? = some '.' ↔ r = [] := by
      cases r with
      | nil => simp
      | cons x r =>
        rw [List.mem_cons, not_or] at hr
        simpa using Ne.symm hr.1
    have hlast : (r ++ '.' :: c).getLast? = some '.' ↔ c = [] := by
      induction c using List.reverseRecOn with
      | nil => simp
      | append_singleton c x =>
        have hx : x ≠ '.' := fun he => hc (he ▸ List.mem_append_right _ List.mem_cons_self)
        rw [← List.cons_append, ← List.append_assoc, List.getLast?_concat]
        simp [hx]
    rw [splitNamespace_one hs hr hc, hcount, Ne, Ne, Ne, hhead, hlast]
    by_cases hrn : r = []
    · simp [hrn]
    · by_cases hcn : c = []
      · simp [hcn]
      · simp [hrn, hcn]
  · have hcount : 2 ≤ (r ++ '.' :: (c ++ '.' :: k)).count '.' := by
      rw [List.count_append, List.count_cons_self, List.count_append, List.count_cons_self]
      omega
    rw [splitNamespace_two hs hr hc]
    refine iff_of_false ?_ fun h => by omega
    split <;> exact Option.some_ne_none _

/-- What is asked of the function at `s`: it never reads through NULL, it accepts an event space with
its words, and any other string is an error. -/
structure SplitsExactly (s : CStr) : Prop where
  total : splitNamespace s ≠ none
  accepts : ∀ region compCat comp,
    splitNamespace s = some (.ok (region, compCat, comp)) ↔ IsEventSpace s region compCat comp
  rejects : (¬∃ region compCat comp, IsEventSpace s region compCat comp) →
    splitNamespace s = some (.error .errEventspaceFormat)

theorem splitsExactly_iff {s : CStr} : SplitsExactly s ↔ splitNamespace s ≠ none := by
  refine ⟨SplitsExactly.total, fun h => ⟨h, fun _ _ _ => splitNamespace_ok_iff, fun hn => ?_⟩⟩
  cases hs : splitNamespace s with
  | none => exact absurd hs h
  | some r =>
    cases r with
    | error ret => rw [splitNamespace_error hs]
    | ok p => exact absurd ⟨p.1, p.2.1, p.2.2, splitNamespace_ok_iff.1 hs⟩ hn

/-- **The function is exact where it is defined**: on long strings, on strings of two dots and more,
and on those that are empty or have a dot at an end. -/
theorem splitNamespace_exact_iff (s : CStr) : SplitsExactly s ↔
    (s.length < maxEventspace → s.count '.' < 2 →
      s = [] ∨ s.head? = some '.' ∨ s.getLast? = some '.') := by
  rw [splitsExactly_iff, Ne, splitNamespace_none_iff]
  tauto

/-- A word is not an event space, and not refused either. -/
theorem word_not_split : ¬∀ s, SplitsExactly s := by
  intro h
  exact (h "abc".toList).total (by decide)

end FTBCI
