import Mathlib.Data.List.Basic

/-!
# Pieces of one length

`whole n l`: the pieces of `n` elements that `l` begins with, without what is left at its end. A
stream of records of `n` bytes each, cut off anywhere, holds just these.
-/

universe u

namespace Pieces

variable {A : Type u} {n : Nat} {l l' p t : List A} {ps : List (List A)}

def whole (n : Nat) (l : List A) : List (List A) :=
  (List.range (l.length / n)).map fun i => (l.drop (n * i)).take n

theorem whole_short (h : l.length < n) : whole n l = [] := by
  rw [whole, Nat.div_eq_of_lt h]
  rfl

theorem whole_append (hn : 0 < n) (hp : p.length = n) (l : List A) :
    whole n (p ++ l) = p :: whole n l := by
  have hcount : (p ++ l).length / n = l.length / n + 1 := by
    rw [List.length_append, hp, Nat.add_comm, Nat.add_div_right _ hn]
  have hfirst : ((p ++ l).drop (n * 0)).take n = p := by
    rw [Nat.mul_zero, List.drop_zero, List.take_left' hp]
  have hrest (i : Nat) : (p ++ l).drop (n * (i + 1)) = l.drop (n * i) := by
    rw [Nat.mul_succ, Nat.add_comm, ← List.drop_drop, List.drop_left' hp]
  rw [whole, hcount, List.range_succ_eq_map, List.map_cons, hfirst, List.map_map]
  refine congrArg (p :: ·) (List.map_congr_left fun i _ => ?_)
  exact congrArg (List.take n) (hrest i)

theorem whole_flatten (hn : 0 < n) (hps : ∀ p ∈ ps, p.length = n) (l : List A) :
    whole n (ps.flatten ++ l) = ps ++ whole n l := by
  induction ps with
  | nil => rfl
  | cons p ps ih =>
    rw [List.forall_mem_cons] at hps
    rw [List.flatten_cons, List.append_assoc, whole_append hn hps.1, ih hps.2, List.cons_append]

/-- Every list is its pieces, and less than one more. -/
theorem exists_whole (hn : 0 < n) (l : List A) :
    ∃ (ps : List (List A)) (t : List A),
      l = ps.flatten ++ t ∧ (∀ p ∈ ps, p.length = n) ∧ t.length < n := by
  induction hlen : l.length using Nat.strongRecOn generalizing l with
  | ind k ih =>
    by_cases hshort : l.length < n
    · exact ⟨[], l, rfl, by simp, hshort⟩
    · have hdrop : (l.drop n).length < k := by
        rw [List.length_drop]
        omega
      obtain ⟨ps, t, hl, hps, ht⟩ := ih _ hdrop (l.drop n) rfl
      refine ⟨l.take n :: ps, t, ?_, ?_, ht⟩
      · rw [List.flatten_cons, List.append_assoc, ← hl, List.take_append_drop]
      · rw [List.forall_mem_cons]
        refine ⟨?_, hps⟩
        rw [List.length_take]
        omega

theorem length_flatten (hps : ∀ p ∈ ps, p.length = n) : ps.flatten.length = n * ps.length := by
  induction ps with
  | nil => rfl
  | cons p ps ih =>
    rw [List.forall_mem_cons] at hps
    rw [List.flatten_cons, List.length_append, hps.1, ih hps.2, List.length_cons, Nat.mul_succ,
      Nat.add_comm]

theorem whole_self (hn : 0 < n) (hps : ∀ p ∈ ps, p.length = n) : whole n ps.flatten = ps := by
  have h := whole_flatten hn hps ([] : List A)
  rwa [List.append_nil, @whole_short A n [] hn, List.append_nil] at h

theorem whole_one (hn : 0 < n) (hp : p.length = n) : whole n p = [p] := by
  have h := whole_append hn hp []
  rwa [List.append_nil, @whole_short A n [] hn] at h

/-- At the end of a piece, what follows is cut apart. -/
theorem whole_boundary (hn : 0 < n) (hl : n ∣ l.length) (l' : List A) :
    whole n (l ++ l') = whole n l ++ whole n l' := by
  obtain ⟨ps, t, rfl, hps, ht⟩ := exists_whole hn l
  have hnil : t = [] := by
    rw [List.length_append, length_flatten hps, Nat.dvd_add_right (Nat.dvd_mul_right n _)] at hl
    exact List.length_eq_zero_iff.1 (Nat.eq_zero_of_dvd_of_lt hl ht)
  rw [hnil, List.append_nil, whole_flatten hn hps, whole_self hn hps]

theorem whole_prefix (hn : 0 < n) (h : l <+: l') : whole n l <+: whole n l' := by
  obtain ⟨ps, t, rfl, hps, ht⟩ := exists_whole hn l
  obtain ⟨r, rfl⟩ := h
  rw [List.append_assoc, whole_flatten hn hps, whole_flatten hn hps, whole_short ht]
  exact ⟨whole n (t ++ r), by rw [List.append_nil]⟩

end Pieces
