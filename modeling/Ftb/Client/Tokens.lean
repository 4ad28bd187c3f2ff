import Ftb.Client.Subscription

/-!
# Cutting a string (`strsep`, `soft_trim`)

What `strsep` gives at the first delimiter and without one, and what a loop of it gives: the pieces
between the delimiters, which join to the string again. `soft_trim` takes the padding off a text.
-/

namespace CStr

variable {delim : Char}

/-! ## One cut -/

theorem strsep_of_not_mem {s : CStr} (h : delim ∉ s) : strsep delim s = (s, none) := by
  induction s with
  | nil => rfl
  | cons c s ih =>
    rw [List.mem_cons, not_or] at h
    rw [strsep, if_neg (by simpa using Ne.symm h.1), ih h.2]

theorem strsep_append {a : CStr} (h : delim ∉ a) (b : CStr) :
    strsep delim (a ++ delim :: b) = (a, some b) := by
  induction a with
  | nil =>
    show strsep delim (delim :: b) = _
    rw [strsep, if_pos (beq_self_eq_true delim)]
  | cons c a ih =>
    rw [List.mem_cons, not_or] at h
    rw [List.cons_append, strsep, if_neg (by simpa using Ne.symm h.1), ih h.2]

/-- The token goes up to the delimiter. -/
theorem strsep_fst (delim : Char) (s : CStr) : (strsep delim s).1 = s.takeWhile (· ≠ delim) := by
  induction s with
  | nil => rfl
  | cons c s ih =>
    rw [strsep, List.takeWhile_cons]
    by_cases hc : c = delim
    · simp [hc]
    · simp [hc, ih]

/-- **Induction on the cuts**: a string without the delimiter, and one cut at the first. -/
@[elab_as_elim]
theorem cut_induction (delim : Char) {motive : CStr → Prop}
    (whole : ∀ s, delim ∉ s → motive s)
    (cut : ∀ a b, delim ∉ a → motive b → motive (a ++ delim :: b)) (s : CStr) : motive s := by
  induction hn : s.length using Nat.strong_induction_on generalizing s with
  | _ n ih =>
    by_cases h : delim ∈ s
    · obtain ⟨a, b, rfl, ha⟩ := List.eq_append_cons_of_mem h
      rw [List.length_append, List.length_cons] at hn
      exact cut a b ha (ih _ (by omega) b rfl)
    · exact whole s h

/-! ## All cuts -/

theorem tokens_eq_splitOn (delim : Char) (s : CStr) : tokens delim s = s.splitOn delim := by
  induction s with
  | nil => rfl
  | cons c s ih =>
    rw [tokens, List.splitOn_cons_eq_if_modifyHead, ih]
    split
    · rfl
    · cases hs : s.splitOn delim with
      | nil => exact absurd hs (List.splitOn_ne_nil delim s)
      | cons token rest => rfl

/-- The tokens of a string, joined again. -/
theorem intercalate_tokens (delim : Char) (s : CStr) :
    List.intercalate [delim] (tokens delim s) = s := by
  rw [tokens_eq_splitOn]
  exact List.intercalate_splitOn delim

/-- Pieces without the delimiter, joined, are cut into themselves. -/
theorem tokens_intercalate {ls : List CStr} (hne : ls ≠ []) (h : ∀ l ∈ ls, delim ∉ l) :
    tokens delim (List.intercalate [delim] ls) = ls := by
  rw [tokens_eq_splitOn]
  exact List.splitOn_intercalate delim h hne

theorem tokens_of_not_mem {s : CStr} (h : delim ∉ s) : tokens delim s = [s] := by
  rw [tokens_eq_splitOn]
  exact List.splitOn_eq_singleton h

theorem tokens_append {a : CStr} (h : delim ∉ a) (b : CStr) :
    tokens delim (a ++ delim :: b) = a :: tokens delim b := by
  rw [tokens_eq_splitOn, tokens_eq_splitOn]
  exact List.splitOn_append_cons_self_of_not_mem h b

theorem length_tokens (delim : Char) (s : CStr) :
    (tokens delim s).length = s.count delim + 1 := by
  induction s using cut_induction delim with
  | whole s h =>
    rw [tokens_of_not_mem h, List.count_eq_zero.2 h]
    rfl
  | cut a b ha ih =>
    rw [tokens_append ha, List.length_cons, ih, List.count_append, List.count_eq_zero.2 ha,
      List.count_cons_self]
    omega

theorem not_mem_of_mem_tokens {s t : CStr} (h : t ∈ tokens delim s) : delim ∉ t := by
  induction s using cut_induction delim with
  | whole s hs =>
    rw [tokens_of_not_mem hs, List.mem_singleton] at h
    rwa [h]
  | cut a b ha ih =>
    rw [tokens_append ha, List.mem_cons] at h
    rcases h with rfl | h
    · exact ha
    · exact ih h

/-! ## Padding -/

/-- Blanks and tabs. -/
def Blank (s : CStr) : Prop := ∀ c ∈ s, isBlank c = true

instance (s : CStr) : Decidable (Blank s) :=
  decidable_of_iff (s.all isBlank = true) List.all_eq_true

theorem rdropWhile_append (s : CStr) {q : CStr} (hq : Blank q) :
    (s ++ q).rdropWhile isBlank = s.rdropWhile isBlank := by
  induction q using List.reverseRecOn with
  | nil => rw [List.append_nil]
  | append_singleton q c ih =>
    have hc : isBlank c = true := hq c (List.mem_append_right _ List.mem_cons_self)
    rw [← List.append_assoc, List.rdropWhile_concat_pos _ _ _ hc]
    exact ih fun x hx => hq x (List.mem_append_left _ hx)

/-- **`soft_trim` takes off the padding** of a text without blanks. -/
theorem softTrim_padded {p s q : CStr} (hp : Blank p) (hq : Blank q) (hs : s.any isBlank = false) :
    softTrim (p ++ s ++ q) = s := by
  have hs' : ∀ c ∈ s, ¬isBlank c = true := by
    intro c hc hb
    rw [List.any_eq_false] at hs
    exact hs c hc hb
  have hself : s.rdropWhile isBlank = s :=
    List.rdropWhile_eq_self_iff.2 fun hl => hs' _ (List.getLast_mem hl)
  unfold softTrim
  rw [List.append_assoc, List.dropWhile_append_of_pos hp]
  cases s with
  | nil =>
    rw [List.nil_append, List.rdropWhile_eq_nil_iff]
    exact fun c hc => hq c (List.dropWhile_sublist _ |>.subset hc)
  | cons c s =>
    rw [List.cons_append, List.dropWhile_cons_of_neg (hs' c List.mem_cons_self)]
    rw [← List.cons_append, rdropWhile_append _ hq, hself]

end CStr
