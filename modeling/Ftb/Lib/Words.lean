import Mathlib.Data.List.TakeWhile
import Mathlib.Data.List.Induction

/-!
# Words of a text

`Words.words blank l`: the stretches of `l` between blanks. A reader takes one word after the other
(`next`) and sees the end of the text when nothing is behind the word; behind the last word it does
so exactly if the text does not end in a blank (`Whole`).
-/

universe u

namespace Words

variable {A : Type u} (blank : A → Bool)

/-- The first word of a text, and what is behind it. -/
def next (l : List A) : List A × List A :=
  ((l.dropWhile blank).takeWhile (!blank ·), (l.dropWhile blank).dropWhile (!blank ·))

def words (l : List A) : List (List A) := (l.splitOnP blank).filter (!·.isEmpty)

/-- The text ends in a blank, or is empty. -/
def Whole (l : List A) : Prop := ∀ a, l.getLast? = some a → blank a = true

/-- The words, each with a blank behind it. -/
def spaced (sep : A) (ws : List (List A)) : List A := ws.flatMap (· ++ [sep])

variable {blank}

/-! ## One word -/

variable (blank) in
/-- A text is blanks, its first word, and the rest, which starts with a blank. -/
theorem next_cases (l : List A) : ∃ pre, (∀ a ∈ pre, blank a = true) ∧
    l = pre ++ (next blank l).1 ++ (next blank l).2 ∧ (∀ a ∈ (next blank l).1, blank a = false) ∧
      ∀ a, (next blank l).2.head? = some a → blank a = true := by
  refine ⟨l.takeWhile blank, fun a ha => List.mem_takeWhile_imp ha, ?_, fun a ha => ?_,
    fun a ha => ?_⟩
  · rw [next, List.append_assoc, List.takeWhile_append_dropWhile, List.takeWhile_append_dropWhile]
  · simpa using List.mem_takeWhile_imp ha
  · have hhead := List.head?_dropWhile_not (!blank ·) (l.dropWhile blank)
    rw [show (l.dropWhile blank).dropWhile (!blank ·) = (next blank l).2 from rfl, ha] at hhead
    simpa using hhead

variable (blank) in
theorem next_length (l : List A) :
    (next blank l).1.length + (next blank l).2.length ≤ l.length := by
  obtain ⟨pre, -, hl, -⟩ := next_cases blank l
  have hlen := congrArg List.length hl
  simp only [List.length_append] at hlen
  omega

/-- The word is empty at the end of the text only. -/
theorem next_rest_eq_nil {l : List A} (h : (next blank l).1 = []) : (next blank l).2 = [] := by
  cases hd : l.dropWhile blank with
  | nil => simp [next, hd]
  | cons a t =>
    have ha : blank a = false := by
      have hhead := List.head?_dropWhile_not blank l
      rw [hd] at hhead
      simpa using hhead
    simp [next, hd, ha] at h

theorem next_shorter {l : List A} (h : (next blank l).2 ≠ []) :
    (next blank l).2.length < l.length := by
  have hlen := next_length blank l
  have hpos := List.length_pos_iff.2 fun h' => h (next_rest_eq_nil h')
  omega

/-! ## All words -/

theorem words_blank {a : A} (ha : blank a = true) (l : List A) :
    words blank (a :: l) = words blank l := by
  rw [words, List.splitOnP_cons_eq_if_modifyHead, if_pos ha]
  rfl

theorem words_blanks {pre : List A} (hpre : ∀ a ∈ pre, blank a = true) (l : List A) :
    words blank (pre ++ l) = words blank l := by
  induction pre with
  | nil => rfl
  | cons a pre ih =>
    rw [List.cons_append, words_blank (hpre a List.mem_cons_self)]
    exact ih fun b hb => hpre b (List.mem_cons_of_mem a hb)

theorem words_word {w : List A} (hw : ∀ a ∈ w, blank a = false) (hne : w ≠ []) {a : A}
    (ha : blank a = true) (l : List A) : words blank (w ++ a :: l) = w :: words blank l := by
  rw [words, List.splitOnP_append_cons_of_forall_mem hw a ha, List.filter_cons_of_pos]
  · rfl
  · simpa using hne

theorem words_last {w : List A} (hw : ∀ a ∈ w, blank a = false) (hne : w ≠ []) :
    words blank w = [w] := by
  rw [words, List.splitOnP_eq_singleton hw, List.filter_cons_of_pos]
  · rfl
  · simpa using hne

variable (blank) in
/-- What a reader finds: nothing, a last word, or a word and more text. -/
theorem words_next (l : List A) :
    ((next blank l).1 = [] ∧ (next blank l).2 = [] ∧ words blank l = [] ∧ Whole blank l) ∨
      ((next blank l).1 ≠ [] ∧ (next blank l).2 = [] ∧ words blank l = [(next blank l).1] ∧
        ¬Whole blank l) ∨
      ((next blank l).1 ≠ [] ∧ (next blank l).2 ≠ [] ∧
        words blank l = (next blank l).1 :: words blank (next blank l).2 ∧
        (Whole blank (next blank l).2 ↔ Whole blank l)) := by
  obtain ⟨pre, hpre, hl, hword, hhead⟩ := next_cases blank l
  have hrest : (next blank l).1 = [] → (next blank l).2 = [] := next_rest_eq_nil
  generalize (next blank l).1 = w at *
  generalize (next blank l).2 = rest at *
  subst hl
  rw [List.append_assoc, words_blanks hpre]
  cases w with
  | nil =>
    rw [hrest rfl, List.append_nil, List.append_nil]
    exact .inl ⟨rfl, rfl, rfl, fun a ha => hpre a (List.mem_of_getLast? ha)⟩
  | cons b w =>
    have hne : b :: w ≠ [] := List.cons_ne_nil b w
    cases rest with
    | nil =>
      rw [List.append_nil]
      refine .inr (.inl ⟨hne, rfl, words_last hword hne, fun hw => ?_⟩)
      have hlast : (pre ++ b :: w).getLast? = some ((b :: w).getLast hne) := by
        rw [List.getLast?_append, List.getLast?_eq_some_getLast hne, Option.some_or]
      have hblank := hw _ hlast
      rw [hword _ (List.getLast_mem hne)] at hblank
      cases hblank
    | cons a rest =>
      have ha := hhead a rfl
      refine .inr (.inr ⟨hne, List.cons_ne_nil a rest, ?_, ?_⟩)
      · rw [words_word hword hne ha, words_blank ha]
      · have hlast : (pre ++ (b :: w ++ a :: rest)).getLast? = (a :: rest).getLast? := by
          rw [← List.append_assoc, List.getLast?_append,
            List.getLast?_eq_some_getLast (List.cons_ne_nil a rest), Option.some_or]
        rw [Whole, Whole, hlast]

theorem words_ne_nil {l : List A} (h : ¬Whole blank l) : words blank l ≠ [] := by
  rcases words_next blank l with ⟨-, -, -, hw⟩ | ⟨-, -, hw, -⟩ | ⟨-, -, hw, -⟩
  · exact absurd hw h
  · exact hw ▸ List.cons_ne_nil _ _
  · exact hw ▸ List.cons_ne_nil _ _

theorem blank_of_mem_words {l w : List A} (h : w ∈ words blank l) :
    w ≠ [] ∧ ∀ a ∈ w, blank a = false := by
  generalize hn : l.length = n
  induction n using Nat.strongRecOn generalizing l with
  | ind n ih =>
    obtain ⟨-, -, -, hword, -⟩ := next_cases blank l
    rcases words_next blank l with ⟨-, -, hw, -⟩ | ⟨hne, -, hw, -⟩ | ⟨hne, hrest, hw, -⟩
    · rw [hw] at h
      cases h
    · rw [hw, List.mem_singleton] at h
      subst h
      exact ⟨hne, hword⟩
    · rw [hw, List.mem_cons] at h
      rcases h with rfl | h
      · exact ⟨hne, hword⟩
      · exact ih _ (hn ▸ next_shorter hrest) h rfl

/-! ## Words with a blank behind each -/

theorem words_spaced {sep : A} (hsep : blank sep = true) {ws : List (List A)}
    (h : ∀ w ∈ ws, w ≠ [] ∧ ∀ a ∈ w, blank a = false) : words blank (spaced sep ws) = ws := by
  induction ws with
  | nil => rfl
  | cons w ws ih =>
    obtain ⟨hne, hw⟩ := h w List.mem_cons_self
    have hcons : spaced sep (w :: ws) = w ++ sep :: spaced sep ws := by
      simp [spaced]
    rw [hcons, words_word hw hne hsep, ih fun v hv => h v (List.mem_cons_of_mem w hv)]

theorem whole_spaced {sep : A} (hsep : blank sep = true) (ws : List (List A)) :
    Whole blank (spaced sep ws) := by
  intro a ha
  induction ws using List.reverseRecOn with
  | nil => cases ha
  | append_singleton ws w =>
    rw [spaced, List.flatMap_append, List.flatMap_singleton, ← List.append_assoc,
      List.getLast?_concat] at ha
    cases ha
    exact hsep

end Words
