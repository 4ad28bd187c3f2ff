import Mathlib.Data.List.TakeWhile
import Mathlib.Order.Basic
import Mathlib.Data.Nat.Find

/-!
# Strings in buffers

A buffer is a list of cells. Reading and writing take any integer for an index, and have no value
where it is none of the buffer (`get`, `set`). The string in a buffer goes up to the first terminator
(`str`), and a buffer without one has no length of a string (`strlen`).
-/

universe u

namespace Buffer

variable {A : Type u}

def get (buf : List A) (i : Int) : Option A := if 0 ≤ i then buf[i.toNat]? else none

def set (buf : List A) (i : Int) (a : A) : Option (List A) :=
  if 0 ≤ i ∧ i < buf.length then some (buf.set i.toNat a) else none

section
variable [DecidableEq A] (nul : A)

def str (buf : List A) : List A := buf.takeWhile (· ≠ nul)

def strlen (buf : List A) : Option Nat := if nul ∈ buf then some (str nul buf).length else none

end

section
variable [DecidableEq A]

/-- Where `sub` starts in a string for the first time. -/
def strstr : List A → List A → Option Nat
  | [], sub => if sub = [] then some 0 else none
  | a :: l, sub => if sub.isPrefixOf (a :: l) then some 0 else (strstr l sub).map (· + 1)

end

/-- `sub` starts at `n` in `l`, and not before. -/
structure FirstAt (sub l : List A) (n : Nat) : Prop where
  here : sub <+: l.drop n
  first : ∀ m < n, ¬sub <+: l.drop m

/-! ## One cell -/

theorem get_neg {buf : List A} {i : Int} (h : i < 0) : get buf i = none := if_neg (by omega)

theorem get_nat (buf : List A) (n : Nat) : get buf n = buf[n]? := by
  rw [get, if_pos (Int.natCast_nonneg n), Int.toNat_natCast]

theorem get_append (l : List A) (a : A) (r : List A) : get (l ++ a :: r) l.length = some a := by
  rw [get_nat, List.getElem?_append_right (Nat.le_refl _), Nat.sub_self, List.getElem?_cons_zero]

theorem set_append (l : List A) (a : A) (r : List A) (b : A) :
    set (l ++ a :: r) l.length b = some (l ++ b :: r) := by
  have hin : 0 ≤ (l.length : Int) ∧ (l.length : Int) < (l ++ a :: r).length := by
    rw [List.length_append, List.length_cons]
    omega
  rw [set, if_pos hin, Int.toNat_natCast, List.set_append_right _ _ (Nat.le_refl _), Nat.sub_self,
    List.set_cons_zero]

/-! ## The string -/

section
variable [DecidableEq A] {nul : A} {s : List A}

theorem str_append (h : nul ∉ s) (r : List A) : str nul (s ++ nul :: r) = s := by
  rw [str, List.takeWhile_append_of_pos, List.takeWhile_cons_of_neg (by simp), List.append_nil]
  intro a ha
  simpa using fun he : a = nul => h (he ▸ ha)

theorem not_mem_str (buf : List A) : nul ∉ str nul buf := by
  intro hm
  have hne := List.mem_takeWhile_imp hm
  simp at hne

theorem str_self (h : nul ∉ s) : str nul s = s := by
  rw [str, List.takeWhile_eq_self_iff]
  intro a ha
  simpa using fun he : a = nul => h (he ▸ ha)

/-- What follows the string in a buffer is nothing, or the terminator first. -/
theorem str_split (buf : List A) : ∃ r, buf = str nul buf ∨ buf = str nul buf ++ nul :: r := by
  induction buf with
  | nil => exact ⟨[], Or.inl rfl⟩
  | cons a buf ih =>
    by_cases ha : a = nul
    · refine ⟨buf, Or.inr ?_⟩
      rw [str, List.takeWhile_cons_of_neg (by simp [ha]), ha, List.nil_append]
    · have hcons : str nul (a :: buf) = a :: str nul buf := List.takeWhile_cons_of_pos (by simp [ha])
      obtain ⟨r, heq | heq⟩ := ih
      · exact ⟨r, Or.inl (by rw [hcons, ← heq])⟩
      · exact ⟨r, Or.inr (by rw [hcons, List.cons_append, ← heq])⟩

theorem strlen_append (h : nul ∉ s) (r : List A) : strlen nul (s ++ nul :: r) = some s.length := by
  rw [strlen, if_pos (by simp), str_append h]

/-- A terminator that is written ends the string there. -/
theorem str_cut (h : nul ∉ s) (l r t : List A) (hs : s = l ++ r) (hr : r ≠ []) :
    ∃ buf, set (s ++ t) l.length nul = some buf ∧ str nul buf = l := by
  cases r with
  | nil => exact absurd rfl hr
  | cons a r =>
    have hl : nul ∉ l := fun hm => h (hs ▸ List.mem_append_left _ hm)
    refine ⟨l ++ nul :: (r ++ t), ?_, str_append hl _⟩
    rw [hs, List.append_assoc]
    exact set_append l a (r ++ t) nul

end

/-! ## Occurrences -/

variable {sub l : List A} {n m : Nat}

theorem FirstAt.unique (h : FirstAt sub l n) (h' : FirstAt sub l m) : n = m := by
  rcases Nat.lt_trichotomy n m with hlt | heq | hgt
  · exact absurd h.here (h'.first n hlt)
  · exact heq
  · exact absurd h'.here (h.first m hgt)

theorem FirstAt.drop (h : FirstAt sub l n) : l.drop n = sub ++ l.drop (n + sub.length) := by
  obtain ⟨t, ht⟩ := h.here
  rw [← List.drop_drop, ← ht, List.drop_left]

/-- The string before an occurrence, and the one behind it. -/
theorem FirstAt.split (h : FirstAt sub l n) :
    l = l.take n ++ sub ++ l.drop (n + sub.length) := by
  rw [List.append_assoc, ← h.drop, List.take_append_drop]

theorem FirstAt.le (h : FirstAt sub l n) : n + sub.length ≤ l.length := by
  have hle : n ≤ l.length := by
    by_contra hlt
    have hnil : sub = [] := by
      have hpre := h.here
      rwa [List.drop_eq_nil_of_le (by omega), List.prefix_nil] at hpre
    apply h.first 0 (by omega)
    rw [hnil]
    exact List.nil_prefix
  have hlen := h.here.length_le
  rw [List.length_drop] at hlen
  omega

theorem firstAt_zero (h : sub <+: l) : FirstAt sub l 0 :=
  ⟨by rwa [List.drop_zero], fun _ hm => absurd hm (Nat.not_lt_zero _)⟩

theorem firstAt_cons {a : A} (h : ¬sub <+: a :: l) :
    FirstAt sub (a :: l) (n + 1) ↔ FirstAt sub l n := by
  constructor
  · intro hn
    refine ⟨hn.here, fun m hm => ?_⟩
    exact hn.first (m + 1) (Nat.succ_lt_succ hm)
  · intro hn
    refine ⟨hn.here, fun m hm => ?_⟩
    cases m with
    | zero => exact h
    | succ m => exact hn.first m (Nat.lt_of_succ_lt_succ hm)

theorem exists_firstAt : (∃ n, FirstAt sub l n) ↔ sub <:+: l := by
  constructor
  · rintro ⟨n, hn⟩
    exact ⟨_, _, hn.split.symm⟩
  · rintro ⟨pre, post, rfl⟩
    have hocc : ∃ n, sub <+: (pre ++ sub ++ post).drop n := by
      refine ⟨pre.length, post, ?_⟩
      rw [List.append_assoc, List.drop_left]
    classical
    exact ⟨Nat.find hocc, Nat.find_spec hocc, fun m hm => Nat.find_min hocc hm⟩

theorem strstr_iff [DecidableEq A] : strstr l sub = some n ↔ FirstAt sub l n := by
  induction l generalizing n with
  | nil =>
    rw [strstr]
    split
    · rename_i hnil
      have hfirst : FirstAt sub ([] : List A) 0 := firstAt_zero (hnil ▸ List.nil_prefix)
      constructor
      · intro h
        cases h
        exact hfirst
      · exact fun h => congrArg some (hfirst.unique h)
    · rename_i hne
      constructor
      · exact fun h => nomatch h
      · intro h
        have hpre := h.here
        rw [List.drop_nil, List.prefix_nil] at hpre
        exact absurd hpre hne
  | cons a l ih =>
    rw [strstr]
    split
    · rename_i hpre
      have hfirst := firstAt_zero (List.isPrefixOf_iff_prefix.1 hpre)
      constructor
      · intro h
        cases h
        exact hfirst
      · exact fun h => congrArg some (hfirst.unique h)
    · rename_i hno
      have hpre : ¬sub <+: a :: l := mt List.isPrefixOf_iff_prefix.2 hno
      rw [Option.map_eq_some_iff]
      constructor
      · rintro ⟨m, hm, rfl⟩
        exact (firstAt_cons hpre).2 (ih.1 hm)
      · intro h
        cases n with
        | zero => exact absurd h.here hpre
        | succ n => exact ⟨n, ih.2 ((firstAt_cons hpre).1 h), rfl⟩

theorem strstr_eq_none [DecidableEq A] : strstr l sub = none ↔ ¬sub <:+: l := by
  rw [← exists_firstAt, not_exists, Option.eq_none_iff_forall_ne_some]
  exact forall_congr' fun n => not_congr strstr_iff

end Buffer
