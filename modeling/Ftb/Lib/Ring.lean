import Mathlib.Logic.Function.Iterate

/-!
# Circular lists

A list of values behind a head node that holds none. A position counts the nodes before it, so that
the head is at the length of the list, and the node behind the head is the first one.
-/

universe u v

namespace Ring

variable {V : Type u} {B : Type v}

def next (l : List V) (i : Nat) : Nat := if i = l.length then 0 else i + 1

/-- A loop that is counted, not stopped by the head: `n` turns from position `i`. No result when it
comes to the head, which has no value. -/
def walk (l : List V) (f : B → V → B) : Nat → Nat → B → Option (Nat × B)
  | 0, i, b => some (i, b)
  | n + 1, i, b =>
    match l[i]? with
    | none => none
    | some v => walk l f n (next l i) (f b v)

variable {l : List V} {f : B → V → B}

theorem next_of_lt {i : Nat} (h : i < l.length) : next l i = i + 1 := if_neg (Nat.ne_of_lt h)

theorem iterate_next {i : Nat} (h : i ≤ l.length) : (next l)^[i] 0 = i := by
  induction i with
  | zero => rfl
  | succ i ih => rw [Function.iterate_succ_apply', ih (by omega), next_of_lt (by omega)]

theorem walk_eq {n i : Nat} (h : i + n ≤ l.length) (b : B) :
    walk l f n i b = some (i + n, ((l.drop i).take n).foldl f b) := by
  induction n generalizing i b with
  | zero => rfl
  | succ n ih =>
    have hi : i < l.length := by omega
    rw [walk, List.getElem?_eq_getElem hi]
    dsimp only
    rw [next_of_lt hi, ih (by omega), List.drop_eq_getElem_cons hi, List.take_succ_cons,
      List.foldl_cons, Nat.add_right_comm, Nat.add_assoc]

end Ring
