import Mathlib.Data.Nat.Basic

/-!
# Bytes of objects

A memory whose bytes are fragments: `frag v i` is byte `i` of the object `v`, and `indet` a byte
nobody wrote. Copies move fragments without looking at them, so an object is there after a sequence
of copies exactly when all its bytes are (`Holds`), whatever the copies in between spilled over it.
-/

universe u

inductive Cell (V : Type u)
  | frag (v : V) (i : Nat)
  | indet
  deriving DecidableEq

namespace Cell

/-- The byte at each offset. -/
abbrev Mem (V : Type u) := Nat → Cell V

variable {V : Type u}

/-- No byte written. -/
def blank : Mem V := fun _ => .indet

/-- The object `v` of `size` bytes at offset `a`. -/
def store (a size : Nat) (v : V) (m : Mem V) : Mem V := fun x =>
  if a ≤ x ∧ x < a + size then .frag v (x - a) else m x

/-- `memcpy`: `n` bytes from offset `b` of `src` to offset `a`. -/
def memcpy (a : Nat) (src : Mem V) (b n : Nat) (m : Mem V) : Mem V := fun x =>
  if a ≤ x ∧ x < a + n then src (b + (x - a)) else m x

/-- All bytes of `v` are at offset `a`, in order. -/
def Holds (m : Mem V) (a size : Nat) (v : V) : Prop := ∀ i < size, m (a + i) = .frag v i

/-- The object of `size` bytes at offset `a`, if one is there. -/
def load [DecidableEq V] (m : Mem V) (a size : Nat) : Option V :=
  match m a with
  | .indet => none
  | .frag v _ => if ∀ i < size, m (a + i) = .frag v i then some v else none

theorem load_of_holds [DecidableEq V] {m : Mem V} {a size : Nat} {v : V} (hs : 0 < size)
    (h : Holds m a size v) : load m a size = some v := by
  have h0 : m a = .frag v 0 := h 0 hs
  simp only [load, h0]
  exact if_pos h

theorem holds_store (a size : Nat) (v : V) (m : Mem V) : Holds (store a size v m) a size v := by
  intro i hi
  have hin : a ≤ a + i ∧ a + i < a + size := by omega
  simp only [store, if_pos hin]
  congr 1
  omega

/-- A store elsewhere. -/
theorem Holds.store {m : Mem V} {a size : Nat} {v : V} (h : Holds m a size v) {b n : Nat} (v' : V)
    (hd : a + size ≤ b ∨ b + n ≤ a) : Holds (store b n v' m) a size v := by
  intro i hi
  have hout : ¬(b ≤ a + i ∧ a + i < b + n) := by omega
  simp only [Cell.store, if_neg hout]
  exact h i hi

/-- A copy of all its bytes. -/
theorem Holds.copied {src : Mem V} {b size : Nat} {v : V} (h : Holds src b size v) (a : Nat)
    {n : Nat} (hn : size ≤ n) (m : Mem V) : Holds (memcpy a src b n m) a size v := by
  intro i hi
  have hin : a ≤ a + i ∧ a + i < a + n := by omega
  simp only [memcpy, if_pos hin]
  rw [Nat.add_sub_cancel_left]
  exact h i hi

/-- A copy elsewhere. -/
theorem Holds.kept {m : Mem V} {a size : Nat} {v : V} (h : Holds m a size v) {b n c : Nat}
    (src : Mem V) (hd : a + size ≤ b ∨ b + n ≤ a) : Holds (memcpy b src c n m) a size v := by
  intro i hi
  have hout : ¬(b ≤ a + i ∧ a + i < b + n) := by omega
  simp only [memcpy, if_neg hout]
  exact h i hi

end Cell
