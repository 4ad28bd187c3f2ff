import Mathlib.Logic.Function.Basic
import Mathlib.Data.List.Basic

/-!
# Chains of linked nodes

A memory maps addresses to nodes, and `next` reads the link of a node. `IsChain next mem p l`:
from the pointer `p`, null being `none`, the links lead through the nodes `l`, given with their
addresses, to null. Such a list is unique (`IsChain.unique`); a write to any other address keeps
it (`IsChain.frame`), and a write of the last link joins two chains (`IsChain.link`).
-/

universe u

namespace Chain

variable {V : Type u} {next : V → Option Nat} {mem mem' : Nat → Option V}

def IsChain (next : V → Option Nat) (mem : Nat → Option V) (p : Option Nat) :
    List (Nat × V) → Prop
  | [] => p = none
  | (q, v) :: l => p = some q ∧ mem q = some v ∧ IsChain next mem (next v) l

/-- The address of the last node, null for none. -/
def lastAddr (l : List (Nat × V)) : Option Nat := l.getLast?.map Prod.fst

@[simp] theorem lastAddr_nil : lastAddr ([] : List (Nat × V)) = none := rfl

@[simp] theorem lastAddr_concat (l : List (Nat × V)) (a : Nat × V) :
    lastAddr (l ++ [a]) = some a.1 := by
  simp [lastAddr]

theorem lastAddr_append (l : List (Nat × V)) {l' : List (Nat × V)} (h : l' ≠ []) :
    lastAddr (l ++ l') = lastAddr l' := by
  unfold lastAddr
  rw [List.getLast?_append_of_ne_nil l h]

theorem lastAddr_cons (a : Nat × V) {l : List (Nat × V)} (h : l ≠ []) :
    lastAddr (a :: l) = lastAddr l :=
  lastAddr_append [a] h

theorem lastAddr_eq_none {l : List (Nat × V)} : lastAddr l = none ↔ l = [] := by
  simp [lastAddr]

namespace IsChain

theorem unique {p : Option Nat} {l l' : List (Nat × V)} (h : IsChain next mem p l)
    (h' : IsChain next mem p l') : l = l' := by
  induction l generalizing p l' with
  | nil =>
    have hp : p = none := h
    subst hp
    cases l' with
    | nil => rfl
    | cons a l' => cases h'.1
  | cons a l ih =>
    obtain ⟨rfl, hv, hl⟩ := h
    cases l' with
    | nil => cases h'
    | cons b l' =>
      obtain ⟨hq, hv', hl'⟩ := h'
      have h1 : a.1 = b.1 := Option.some.inj hq
      rw [← h1, hv] at hv'
      have h2 : a.2 = b.2 := Option.some.inj hv'
      rw [← h2] at hl'
      rw [Prod.ext h1 h2, ih hl hl']

/-- A chain reads its own addresses only. -/
theorem frame {p : Option Nat} {l : List (Nat × V)} (h : IsChain next mem p l)
    (hm : ∀ q ∈ l.map Prod.fst, mem' q = mem q) : IsChain next mem' p l := by
  induction l generalizing p with
  | nil => exact h
  | cons a l ih =>
    obtain ⟨hp, hv, hl⟩ := h
    refine ⟨hp, ?_, ih hl fun q hq => hm q (List.mem_cons_of_mem _ hq)⟩
    rw [hm a.1 List.mem_cons_self, hv]

/-- A write outside the chain. -/
theorem update {p : Option Nat} {l : List (Nat × V)} (h : IsChain next mem p l) {q : Nat}
    (hq : q ∉ l.map Prod.fst) (v : Option V) : IsChain next (Function.update mem q v) p l :=
  h.frame fun r hr => Function.update_of_ne (fun he : r = q => hq (he ▸ hr)) _ _

/-- The nodes of a chain are in memory. -/
theorem mem_isSome {p : Option Nat} {l : List (Nat × V)} (h : IsChain next mem p l) {q : Nat}
    (hq : q ∈ l.map Prod.fst) : (mem q).isSome = true := by
  induction l generalizing p with
  | nil => cases hq
  | cons a l ih =>
    obtain ⟨-, hv, hl⟩ := h
    rw [List.map_cons, List.mem_cons] at hq
    rcases hq with rfl | hq
    · rw [hv]; rfl
    · exact ih hl hq

/-- The last link of a chain overwritten with the first pointer of another. -/
theorem link {p q : Option Nat} {l l' : List (Nat × V)} {t : Nat} {v v' : V}
    (h : IsChain next mem p (l ++ [(t, v)])) (h' : IsChain next mem q l') (hv : next v' = q)
    (hl : t ∉ l.map Prod.fst) (hl' : t ∉ l'.map Prod.fst) :
    IsChain next (Function.update mem t (some v')) p (l ++ (t, v') :: l') := by
  induction l generalizing p with
  | nil =>
    refine ⟨h.1, Function.update_self _ _ _, ?_⟩
    rw [hv]
    exact h'.update hl' _
  | cons a l ih =>
    obtain ⟨hp, ha, hc⟩ := h
    rw [List.map_cons, List.mem_cons, not_or] at hl
    refine ⟨hp, ?_, ih hc hl.2⟩
    rw [Function.update_of_ne (Ne.symm hl.1), ha]

end IsChain

end Chain
