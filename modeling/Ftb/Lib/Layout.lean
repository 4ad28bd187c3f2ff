import Mathlib.Data.Set.Finite.Basic
import Mathlib.Data.Set.Card
import Mathlib.Logic.Function.Basic

/-!
# Blocks and their owners

A memory of blocks (`Heap`) with `malloc`, `free` and stores, in which an access to an address that
is not allocated has no value. `malloc` returns any address that is free (`Allocator`).

`Laid P L h`: the memory holds exactly the blocks of `P`, a block for some of the owners, each at
the address that `L` gives its owner. So no block is without an owner, and owners do not share. An
operation on the memory is then an update of `P` (`Laid.malloc`, `Laid.free`, `Laid.store`), and a
read is a value of `P` (`Laid.read`). `Laid.ncard`: how many blocks there are.
-/

namespace Layout

universe u v

/-- A memory of blocks, finitely many of which are allocated. -/
structure Heap (B : Type v) where
  cells : Nat → Option B
  finite : {a | cells a ≠ none}.Finite

namespace Heap

variable {B : Type v}

/-- The memory with nothing in it. -/
def empty : Heap B := ⟨fun _ => none, by simp⟩

/-- The memory with another content at an address. -/
def put (h : Heap B) (a : Nat) (b : Option B) : Heap B where
  cells := Function.update h.cells a b
  finite := by
    refine (h.finite.insert a).subset fun x hx => ?_
    by_cases he : x = a
    · exact .inl he
    · rw [Set.mem_ofPred_eq, Function.update_of_ne he] at hx
      exact .inr hx

@[simp] theorem put_self (h : Heap B) (a : Nat) (b : Option B) : (h.put a b).cells a = b :=
  Function.update_self ..

@[simp] theorem put_of_ne (h : Heap B) {a x : Nat} (hx : x ≠ a) (b : Option B) :
    (h.put a b).cells x = h.cells x := Function.update_of_ne hx ..

/-- A store to an allocated block. -/
def store (a : Nat) (b : B) (h : Heap B) : Option (Heap B) := (h.cells a).map fun _ => h.put a (some b)

def free (a : Nat) (h : Heap B) : Option (Heap B) := (h.cells a).map fun _ => h.put a none

theorem free_cells {a : Nat} {h h' : Heap B} (hf : h.free a = some h') : h'.cells a = none := by
  unfold free at hf
  obtain ⟨b, -, rfl⟩ := Option.map_eq_some_iff.1 hf
  exact h.put_self a none

theorem exists_unused (h : Heap B) : ∃ a, h.cells a = none := by
  obtain ⟨a, ha⟩ := h.finite.exists_notMem
  exact ⟨a, by simpa using ha⟩

end Heap

/-- Which address `malloc` returns: one that is not allocated. -/
structure Allocator (B : Type v) where
  pick : Heap B → Nat
  unused : ∀ h : Heap B, h.cells (pick h) = none

namespace Allocator

variable {B : Type v}

/-- The lowest address that is not allocated. -/
def lowest : Allocator B where
  pick h := Nat.find (p := fun a => (h.cells a).isNone = true)
    (h.exists_unused.imp fun _ ha => by rw [ha]; rfl)
  unused h := by
    have hs := Nat.find_spec (p := fun a => (h.cells a).isNone = true)
      (h.exists_unused.imp fun _ ha => by rw [ha]; rfl)
    exact Option.isNone_iff_eq_none.1 hs

/-- `malloc` of a block and its first content. -/
def malloc (alloc : Allocator B) (b : B) (h : Heap B) : Nat × Heap B :=
  (alloc.pick h, h.put (alloc.pick h) (some b))

end Allocator

/-! ## Owners -/

variable {O : Type u} {B : Type v}

/-- The blocks `P`, each at the address of its owner, are what is in the memory. -/
structure Laid (P : O → Option B) (L : O → Nat) (h : Heap B) : Prop where
  apart : ∀ o o', P o ≠ none → P o' ≠ none → L o = L o' → o = o'
  cells : ∀ a b, h.cells a = some b ↔ ∃ o, P o = some b ∧ L o = a

namespace Laid

variable {P : O → Option B} {L : O → Nat} {h : Heap B}

theorem empty (L : O → Nat) : Laid (fun _ => none) L (Heap.empty : Heap B) :=
  ⟨fun _ _ hn => absurd rfl hn, fun a b => by simp [Heap.empty]⟩

theorem read (hl : Laid P L h) {o : O} {b : B} (ho : P o = some b) : h.cells (L o) = some b :=
  (hl.cells _ _).2 ⟨o, ho, rfl⟩

/-- An address of nobody is not allocated. -/
theorem unowned (hl : Laid P L h) {a : Nat} (ha : ∀ o, P o ≠ none → L o ≠ a) : h.cells a = none := by
  by_contra hn
  obtain ⟨b, hb⟩ := Option.ne_none_iff_exists'.1 hn
  obtain ⟨o, ho, hLo⟩ := (hl.cells _ _).1 hb
  exact ha o (by simp [ho]) hLo

/-- The same blocks at the same addresses. -/
theorem congr (hl : Laid P L h) {P' : O → Option B} {L' : O → Nat} (hP : ∀ o, P' o = P o)
    (hL : ∀ o, P o ≠ none → L' o = L o) : Laid P' L' h := by
  refine ⟨fun o o' ho ho' he => ?_, fun a b => (hl.cells a b).trans ?_⟩
  · rw [hP] at ho ho'
    rw [hL o ho, hL o' ho'] at he
    exact hl.apart o o' ho ho' he
  · refine ⟨fun ⟨o, ho, ha⟩ => ⟨o, (hP o).trans ho, ?_⟩, fun ⟨o, ho, ha⟩ => ⟨o, ?_, ?_⟩⟩
    · rw [hL o (by simp [ho])]
      exact ha
    · rw [← hP]
      exact ho
    · rw [hP] at ho
      rw [← hL o (by simp [ho])]
      exact ha

variable [DecidableEq O]

/-- One owner's block changes at its address. -/
private theorem put (hl : Laid P L h) {o : O} (ho : P o ≠ none) (b : Option B) :
    Laid (Function.update P o b) L (h.put (L o) b) := by
  have hup : ∀ x, Function.update P o b x ≠ none → P x ≠ none := by
    intro x hx
    by_cases he : x = o
    · exact he ▸ ho
    · rwa [Function.update_of_ne he] at hx
  refine ⟨fun x y hx hy => hl.apart x y (hup x hx) (hup y hy), fun a c => ?_⟩
  by_cases ha : a = L o
  · rw [ha, Heap.put_self]
    refine ⟨fun hb => ⟨o, by rw [Function.update_self, hb], rfl⟩, fun ⟨x, hx, hLx⟩ => ?_⟩
    have hxo : x = o := hl.apart x o (hup x (by simp [hx])) ho hLx
    rwa [hxo, Function.update_self] at hx
  · rw [Heap.put_of_ne _ ha, hl.cells]
    refine exists_congr fun x => and_congr_left fun hLx => ?_
    have hxo : x ≠ o := fun he => ha (by rw [← hLx, he])
    rw [Function.update_of_ne hxo]

theorem store (hl : Laid P L h) {o : O} {b : B} (ho : P o = some b) (b' : B) :
    ∃ h', h.store (L o) b' = some h' ∧ Laid (Function.update P o (some b')) L h' :=
  ⟨_, by rw [Heap.store, hl.read ho]; rfl, hl.put (by simp [ho]) _⟩

theorem free (hl : Laid P L h) {o : O} {b : B} (ho : P o = some b) :
    ∃ h', h.free (L o) = some h' ∧ Laid (Function.update P o none) L h' :=
  ⟨_, by rw [Heap.free, hl.read ho]; rfl, hl.put (by simp [ho]) _⟩

/-- A new block for an owner that has none. -/
theorem malloc (hl : Laid P L h) (alloc : Allocator B) {o : O} (ho : P o = none) (b : B) :
    Laid (Function.update P o (some b)) (Function.update L o (alloc.pick h)) (alloc.malloc b h).2 := by
  have hne : ∀ x, P x ≠ none → x ≠ o ∧ L x ≠ alloc.pick h := by
    intro x hx
    refine ⟨fun he => hx (he ▸ ho), fun he => ?_⟩
    obtain ⟨c, hc⟩ := Option.ne_none_iff_exists'.1 hx
    have hr := hl.read hc
    rw [he, alloc.unused] at hr
    cases hr
  have hup : ∀ x, x ≠ o → Function.update P o (some b) x ≠ none → P x ≠ none := by
    intro x hx hn
    rwa [Function.update_of_ne hx] at hn
  refine ⟨fun x y hx hy he => ?_, fun a c => ?_⟩
  · by_cases hxo : x = o <;> by_cases hyo : y = o
    · rw [hxo, hyo]
    · rw [hxo, Function.update_self, Function.update_of_ne hyo] at he
      exact absurd he.symm (hne y (hup y hyo hy)).2
    · rw [hyo, Function.update_self, Function.update_of_ne hxo] at he
      exact absurd he (hne x (hup x hxo hx)).2
    · rw [Function.update_of_ne hxo, Function.update_of_ne hyo] at he
      exact hl.apart x y (hup x hxo hx) (hup y hyo hy) he
  · show (h.put (alloc.pick h) (some b)).cells a = some c ↔ _
    by_cases ha : a = alloc.pick h
    · rw [ha, Heap.put_self]
      refine ⟨fun hb => ⟨o, by rw [Function.update_self, hb], Function.update_self ..⟩, ?_⟩
      rintro ⟨x, hx, hLx⟩
      by_cases hxo : x = o
      · rwa [hxo, Function.update_self] at hx
      · rw [Function.update_of_ne hxo] at hx hLx
        exact absurd hLx (hne x (by simp [hx])).2
    · rw [Heap.put_of_ne _ ha, hl.cells]
      constructor
      · rintro ⟨x, hx, hLx⟩
        have hxo : x ≠ o := (hne x (by simp [hx])).1
        exact ⟨x, by rwa [Function.update_of_ne hxo], by rwa [Function.update_of_ne hxo]⟩
      · rintro ⟨x, hx, hLx⟩
        have hxo : x ≠ o := by
          intro he
          rw [he, Function.update_self] at hLx
          exact ha hLx.symm
        rw [Function.update_of_ne hxo] at hx hLx
        exact ⟨x, hx, hLx⟩

omit [DecidableEq O] in
/-- There are as many blocks as owners of one. -/
theorem ncard (hl : Laid P L h) : {a | h.cells a ≠ none}.ncard = {o | P o ≠ none}.ncard := by
  have himage : {a | h.cells a ≠ none} = L '' {o | P o ≠ none} := by
    ext a
    constructor
    · intro ha
      obtain ⟨b, hb⟩ := Option.ne_none_iff_exists'.1 ha
      obtain ⟨o, ho, hLo⟩ := (hl.cells a b).1 hb
      exact ⟨o, by simp [ho], hLo⟩
    · rintro ⟨o, ho, rfl⟩
      obtain ⟨b, hb⟩ := Option.ne_none_iff_exists'.1 ho
      rw [Set.mem_ofPred_eq, hl.read hb]
      exact Option.some_ne_none b
  rw [himage]
  exact Set.InjOn.ncard_image fun o ho o' ho' he => hl.apart o o' ho ho' he

end Laid

end Layout
