import Mathlib.Data.List.Basic
import Mathlib.Data.List.Perm.Subperm

/-!
# Keyed lists

`KeyList key eq`: a list of values in insertion order, no two of which have keys equal under
`eq`. The key is a part of the value (`key`), as in an intrusive map whose key pointer points
into its data. A lookup, an insertion and a removal compare keys with `eq` only, so the laws
below hold for every equivalence relation `eq` (`KeyEq`), not just for equality.
-/

universe u v w

/-- `eq` compares keys up to an equivalence relation. -/
class KeyEq {K : Type u} (eq : K → K → Bool) : Prop where
  refl (a : K) : eq a a = true
  symm {a b : K} : eq a b = true → eq b a = true
  trans {a b c : K} : eq a b = true → eq b c = true → eq a c = true

namespace KeyEq

variable {K : Type u} {eq : K → K → Bool}

/-- Equality of a canonical form. -/
theorem of_canon {C : Type w} (canon : K → C) (h : ∀ a b, eq a b = true ↔ canon a = canon b) :
    KeyEq eq where
  refl a := (h a a).2 rfl
  symm hab := (h _ _).2 ((h _ _).1 hab).symm
  trans hab hbc := (h _ _).2 (((h _ _).1 hab).trans ((h _ _).1 hbc))

variable [KeyEq eq]

variable (eq) in
theorem comm (a b : K) : eq a b = eq b a :=
  Bool.eq_iff_iff.2 ⟨symm, symm⟩

theorem congr_left {a b : K} (h : eq a b = true) (c : K) : eq a c = eq b c :=
  Bool.eq_iff_iff.2 ⟨trans (symm h), trans h⟩

theorem congr_right {a b : K} (h : eq a b = true) (c : K) : eq c a = eq c b := by
  rw [comm eq c a, comm eq c b, congr_left h]

end KeyEq

/-- Values in insertion order with pairwise different keys. -/
structure KeyList {K : Type u} {V : Type v} (key : V → K) (eq : K → K → Bool) where
  nodes : List V
  distinct : nodes.Pairwise fun a b => eq (key a) (key b) = false

namespace KeyList

variable {K : Type u} {V : Type v} {key : V → K} {eq : K → K → Bool}

theorem ext_nodes {m m' : KeyList key eq} (h : m.nodes = m'.nodes) : m = m' := by
  cases m; cases m'; cases h; rfl

instance [DecidableEq V] : DecidableEq (KeyList key eq) := fun m m' =>
  decidable_of_iff (m.nodes = m'.nodes) ⟨ext_nodes, fun h => h ▸ rfl⟩

/-! ## Operations -/

/-- The list without values. -/
def empty : KeyList key eq := ⟨[], .nil⟩

instance : Inhabited (KeyList key eq) := ⟨empty⟩

def isEmpty (m : KeyList key eq) : Bool := m.nodes.isEmpty

/-- The first value whose key equals `k`. -/
def find? (m : KeyList key eq) (k : K) : Option V := m.nodes.find? fun x => eq (key x) k

def contains (m : KeyList key eq) (k : K) : Bool := m.nodes.any fun x => eq (key x) k

/-- `v` at the end, unless its key is there already. -/
def insert (m : KeyList key eq) (v : V) : KeyList key eq :=
  if h : m.contains (key v) = true then m
  else ⟨m.nodes ++ [v], by
    refine List.pairwise_append.2 ⟨m.distinct, List.pairwise_singleton _ _, fun a ha b hb => ?_⟩
    rw [List.mem_singleton.1 hb]
    simp only [contains, List.any_eq_true, not_exists, not_and, Bool.not_eq_true] at h
    exact h a ha⟩

/-- Without the first value whose key equals `k`. -/
def erase (m : KeyList key eq) (k : K) : KeyList key eq :=
  ⟨m.nodes.eraseP fun x => eq (key x) k, m.distinct.sublist List.eraseP_sublist⟩

/-- `f`, which keeps keys, on the values whose key equals `k`. -/
def adjust (m : KeyList key eq) (k : K) (f : V → V) (hf : ∀ x, key (f x) = key x) :
    KeyList key eq :=
  ⟨m.nodes.map fun x => if eq (key x) k then f x else x, by
    have hk : ∀ x, key (if eq (key x) k then f x else x) = key x := fun x => by
      split
      · exact hf x
      · rfl
    rw [List.pairwise_map]
    exact m.distinct.imp fun h => by rw [hk, hk]; exact h⟩

/-! ## Membership and lookup -/

@[simp] theorem nodes_empty : (empty : KeyList key eq).nodes = [] := rfl

@[simp] theorem find?_empty (k : K) : (empty : KeyList key eq).find? k = none := rfl

theorem contains_eq_isSome (m : KeyList key eq) (k : K) : m.contains k = (m.find? k).isSome := by
  rw [Bool.eq_iff_iff]
  simp [contains, find?]

theorem contains_eq_false {m : KeyList key eq} {k : K} (h : m.find? k = none) :
    m.contains k = false := by
  rw [contains_eq_isSome, h]; rfl

theorem isEmpty_iff {m : KeyList key eq} : m.isEmpty = true ↔ m.nodes = [] := by
  simp [isEmpty]

theorem mem_of_find? {m : KeyList key eq} {k : K} {x : V} (h : m.find? k = some x) :
    x ∈ m.nodes ∧ eq (key x) k = true :=
  ⟨List.mem_of_find?_eq_some h, by simpa using List.find?_some h⟩

theorem find?_eq_none {m : KeyList key eq} {k : K} :
    m.find? k = none ↔ ∀ x ∈ m.nodes, eq (key x) k = false := by
  simp [find?]

theorem find?_isSome {m : KeyList key eq} {k : K} :
    (m.find? k).isSome = true ↔ ∃ x ∈ m.nodes, eq (key x) k = true := by
  simp [find?]

section
variable [KeyEq eq]

/-- Two values with equal keys are one. -/
theorem eq_of_mem {m : KeyList key eq} {x y : V} (hx : x ∈ m.nodes) (hy : y ∈ m.nodes)
    (h : eq (key x) (key y) = true) : x = y := by
  have hp := m.distinct
  generalize m.nodes = l at hx hy hp
  induction l with
  | nil => simp at hx
  | cons a l ih =>
    obtain ⟨ha, hl⟩ := List.pairwise_cons.1 hp
    rcases List.mem_cons.1 hx with rfl | hx' <;> rcases List.mem_cons.1 hy with rfl | hy'
    · rfl
    · rw [ha y hy'] at h; cases h
    · rw [KeyEq.comm eq, ha x hx'] at h; cases h
    · exact ih hx' hy' hl

theorem find?_eq_some {m : KeyList key eq} {k : K} {x : V} :
    m.find? k = some x ↔ x ∈ m.nodes ∧ eq (key x) k = true := by
  refine ⟨mem_of_find?, fun ⟨hx, hk⟩ => ?_⟩
  obtain ⟨y, hy⟩ := Option.isSome_iff_exists.1 (find?_isSome.2 ⟨x, hx, hk⟩)
  obtain ⟨hm, hyk⟩ := mem_of_find? hy
  rw [hy, eq_of_mem hm hx (KeyEq.trans hyk (KeyEq.symm hk))]

theorem find?_of_mem {m : KeyList key eq} {x : V} (hx : x ∈ m.nodes) :
    m.find? (key x) = some x :=
  find?_eq_some.2 ⟨hx, KeyEq.refl _⟩

theorem find?_congr {k k' : K} (h : eq k k' = true) (m : KeyList key eq) :
    m.find? k = m.find? k' := by
  unfold find?
  exact congrArg (m.nodes.find? ·) (funext fun x => KeyEq.congr_right h _)

end

/-! ## Insertion -/

theorem insert_of_contains {m : KeyList key eq} {v : V} (h : m.contains (key v) = true) :
    m.insert v = m := by
  simp [insert, h]

theorem nodes_insert {m : KeyList key eq} {v : V} (h : m.contains (key v) = false) :
    (m.insert v).nodes = m.nodes ++ [v] := by
  simp [insert, h]

theorem mem_insert {m : KeyList key eq} {v x : V} (h : m.contains (key v) = false) :
    x ∈ (m.insert v).nodes ↔ x ∈ m.nodes ∨ x = v := by
  simp [nodes_insert h]

/-- A value is new in the list if its key was new. -/
theorem mem_insert_iff {m : KeyList key eq} {v x : V} :
    x ∈ (m.insert v).nodes ↔
      x ∈ m.nodes ∨ ((∀ y ∈ m.nodes, eq (key y) (key v) = false) ∧ x = v) := by
  by_cases hc : m.contains (key v) = true
  · rw [insert_of_contains hc]
    simp only [contains, List.any_eq_true] at hc
    obtain ⟨y, hy, heq⟩ := hc
    refine ⟨.inl, fun h => h.resolve_right fun hnone => ?_⟩
    rw [hnone.1 y hy] at heq
    cases heq
  · rw [Bool.not_eq_true] at hc
    rw [mem_insert hc]
    simp only [contains, List.any_eq_false, Bool.not_eq_true] at hc
    exact or_congr_right (and_iff_right hc).symm

/-- A value with a new key is found behind all others. -/
theorem find?_insert {m : KeyList key eq} {v : V} (h : m.contains (key v) = false) (k : K) :
    (m.insert v).find? k = (m.find? k).or (if eq (key v) k then some v else none) := by
  rw [find?, nodes_insert h, List.find?_append, List.find?_singleton]
  rfl

@[simp] theorem nodes_insert_empty (v : V) : ((empty : KeyList key eq).insert v).nodes = [v] :=
  nodes_insert rfl

theorem insert_nodes_ne_nil (m : KeyList key eq) (v : V) : (m.insert v).nodes ≠ [] := by
  by_cases h : m.contains (key v) = true
  · rw [insert_of_contains h]
    simp only [contains, List.any_eq_true] at h
    obtain ⟨x, hx, -⟩ := h
    exact List.ne_nil_of_mem hx
  · simp [nodes_insert (Bool.eq_false_iff.2 h)]

/-- An insertion adds exactly the keys equal to the new one. -/
theorem find?_insert_isSome (m : KeyList key eq) (v : V) (k : K) :
    ((m.insert v).find? k).isSome = true ↔ (m.find? k).isSome = true ∨
      (m.contains (key v) = false ∧ eq (key v) k = true) := by
  by_cases h : m.contains (key v) = true
  · simp [insert_of_contains h, h]
  · rw [Bool.not_eq_true] at h
    simp only [find?_isSome, mem_insert h, h, true_and]
    constructor
    · rintro ⟨x, hx | rfl, hk⟩
      · exact .inl ⟨x, hx, hk⟩
      · exact .inr hk
    · rintro (⟨x, hx, hk⟩ | hk)
      · exact ⟨x, .inl hx, hk⟩
      · exact ⟨v, .inr rfl, hk⟩

/-- An insertion leaves what is found. -/
theorem find?_insert_of_find? {m : KeyList key eq} {k : K} {x : V} (h : m.find? k = some x) (v : V) :
    (m.insert v).find? k = some x := by
  by_cases hv : m.contains (key v) = true
  · rw [insert_of_contains hv, h]
  · rw [find?, nodes_insert (Bool.eq_false_iff.2 hv), List.find?_append]
    rw [find?] at h
    rw [h]
    rfl

section
variable [KeyEq eq]

/-- After an insertion, new or refused, the key is there. -/
theorem find?_insert_isSome' (m : KeyList key eq) (v : V) (k : K) :
    ((m.insert v).find? k).isSome = true ↔
      (m.find? k).isSome = true ∨ eq (key v) k = true := by
  rw [find?_insert_isSome]
  constructor
  · exact Or.imp_right And.right
  · rintro (h | h)
    · exact .inl h
    · by_cases hc : m.contains (key v) = true
      · left
        rwa [contains_eq_isSome, find?_congr h] at hc
      · exact .inr ⟨Bool.eq_false_iff.2 hc, h⟩

end

/-! ## Removal -/

theorem mem_of_mem_erase {m : KeyList key eq} {k : K} {x : V} (h : x ∈ (m.erase k).nodes) :
    x ∈ m.nodes :=
  List.mem_of_mem_eraseP h

theorem length_erase {m : KeyList key eq} {k : K} (h : m.contains k = true) :
    (m.erase k).nodes.length = m.nodes.length - 1 := by
  obtain ⟨x, hx, hk⟩ := List.any_eq_true.1 h
  exact List.length_eraseP_of_mem hx hk

section
variable [KeyEq eq]

theorem nodes_erase (m : KeyList key eq) (k : K) :
    (m.erase k).nodes = m.nodes.filter fun x => !eq (key x) k := by
  have hp := m.distinct
  simp only [erase]
  generalize m.nodes = l at hp
  induction l with
  | nil => rfl
  | cons a l ih =>
    obtain ⟨ha, hl⟩ := List.pairwise_cons.1 hp
    by_cases hk : eq (key a) k = true
    · have : ∀ x ∈ l, (!eq (key x) k) = true := fun x hx => by
        rw [← KeyEq.congr_right hk, KeyEq.comm eq, ha x hx]; rfl
      rw [List.eraseP_cons_of_pos (by simpa using hk), List.filter_cons_of_neg (by simp [hk]),
        List.filter_eq_self.2 this]
    · rw [List.eraseP_cons_of_neg (by simpa using hk), List.filter_cons_of_pos (by simpa using hk), ih hl]

theorem mem_erase {m : KeyList key eq} {k : K} {x : V} :
    x ∈ (m.erase k).nodes ↔ x ∈ m.nodes ∧ eq (key x) k = false := by
  simp [nodes_erase]

/-- A removal takes away exactly the keys equal to `k`. -/
theorem find?_erase_isSome (m : KeyList key eq) (k k' : K) :
    ((m.erase k).find? k').isSome = true ↔ (m.find? k').isSome = true ∧ eq k k' = false := by
  simp only [find?_isSome, mem_erase]
  constructor
  · rintro ⟨x, ⟨hx, hn⟩, hk'⟩
    exact ⟨⟨x, hx, hk'⟩, by rw [← hn, KeyEq.comm eq (key x), KeyEq.congr_right hk']⟩
  · rintro ⟨⟨x, hx, hk'⟩, hn⟩
    exact ⟨x, ⟨hx, by rw [← hn, KeyEq.comm eq k, KeyEq.congr_left hk']⟩, hk'⟩

theorem find?_erase (m : KeyList key eq) (k k' : K) :
    (m.erase k).find? k' = if eq k k' = true then none else m.find? k' := by
  split
  · rename_i hk
    rw [find?_eq_none]
    intro x hx
    rw [← KeyEq.congr_right hk]
    exact (mem_erase.1 hx).2
  · rename_i hk
    cases hf : m.find? k' with
    | none => exact find?_eq_none.2 fun x hx => find?_eq_none.1 hf x (mem_of_mem_erase hx)
    | some x =>
      obtain ⟨hx, hxk⟩ := mem_of_find? hf
      refine find?_eq_some.2 ⟨mem_erase.2 ⟨hx, ?_⟩, hxk⟩
      rw [KeyEq.congr_left hxk, KeyEq.comm eq]
      exact Bool.eq_false_iff.2 hk

/-- One value at most has a key. -/
theorem filter_eq_singleton {m : KeyList key eq} {k : K} {x : V} (hx : x ∈ m.nodes)
    (hk : eq (key x) k = true) : (m.nodes.filter fun y => eq (key y) k) = [x] := by
  obtain ⟨l₁, l₂, hn⟩ := List.append_of_mem hx
  have hd := m.distinct
  rw [hn, List.pairwise_append, List.pairwise_cons] at hd
  obtain ⟨-, ⟨hr, -⟩, hl⟩ := hd
  have h₁ : ∀ y ∈ l₁, ¬eq (key y) k = true := fun y hy hyk => by
    have := hl y hy x List.mem_cons_self
    rw [KeyEq.trans hyk (KeyEq.symm hk)] at this
    cases this
  have h₂ : ∀ y ∈ l₂, ¬eq (key y) k = true := fun y hy hyk => by
    have := hr y hy
    rw [KeyEq.trans hk (KeyEq.symm hyk)] at this
    cases this
  rw [hn, List.filter_append, List.filter_eq_nil_iff.2 h₁, List.filter_cons_of_pos (by exact hk),
    List.filter_eq_nil_iff.2 h₂]
  rfl

/-- A key is there once. -/
theorem countP_key {m : KeyList key eq} {x : V} (hx : x ∈ m.nodes) :
    (m.nodes.countP fun y => eq (key y) (key x)) = 1 := by
  rw [List.countP_eq_length_filter, filter_eq_singleton hx (KeyEq.refl _)]
  rfl

/-- A part of the list that has every key is the list. -/
theorem eq_nodes_of_sublist {m : KeyList key eq} {l : List V} (hl : l.Sublist m.nodes)
    (hall : ∀ x ∈ m.nodes, ∃ y ∈ l, eq (key y) (key x) = true) : l = m.nodes := by
  have hnodup : m.nodes.Nodup := m.distinct.imp fun {a b} hd he => by
    subst he
    have hrefl : eq (key a) (key a) = true := KeyEq.refl _
    rw [hrefl] at hd
    cases hd
  have hsub : m.nodes ⊆ l := by
    intro x hx
    obtain ⟨y, hy, hk⟩ := hall x hx
    rwa [← eq_of_mem (hl.subset hy) hx hk]
  exact hl.eq_of_length_le (hnodup.subperm hsub).length_le

/-- A removal takes the value of its key out of a count. -/
theorem countP_erase (m : KeyList key eq) (k : K) (p : V → Bool) :
    m.nodes.countP p =
      (m.erase k).nodes.countP p + if (m.find? k).any p = true then 1 else 0 := by
  have hsplit := List.countP_eq_countP_filter_add m.nodes p (fun x => !eq (key x) k)
  rw [hsplit, nodes_erase]
  congr 1
  cases hf : m.find? k with
  | none =>
    have hn : ∀ x ∈ m.nodes, ¬(!(!eq (key x) k)) = true := fun x hx => by
      rw [find?_eq_none.1 hf x hx]; decide
    rw [List.filter_eq_nil_iff.2 hn]
    rfl
  | some x =>
    obtain ⟨hx, hk⟩ := mem_of_find? hf
    have hone : m.nodes.filter (fun y => !(!eq (key y) k)) = [x] := by
      simp only [Bool.not_not]
      exact filter_eq_singleton hx hk
    rw [hone, List.countP_singleton]
    simp

theorem erase_of_not_contains {m : KeyList key eq} {k : K} (h : m.contains k = false) :
    m.erase k = m := by
  apply ext_nodes
  rw [nodes_erase, List.filter_eq_self]
  intro x hx
  simp only [contains, List.any_eq_false] at h
  simpa using h x hx

end

/-! ## Adjustment -/

section
variable {f : V → V} {hf : ∀ x, key (f x) = key x}

theorem mem_adjust {m : KeyList key eq} {k : K} {y : V} :
    y ∈ (m.adjust k f hf).nodes ↔ ∃ x ∈ m.nodes, (if eq (key x) k then f x else x) = y := by
  simp [adjust]

theorem key_adjust (k : K) (hf : ∀ x, key (f x) = key x) (x : V) :
    key (if eq (key x) k then f x else x) = key x := by
  split
  · exact hf x
  · rfl

theorem map_key_adjust (m : KeyList key eq) (k : K) :
    (m.adjust k f hf).nodes.map key = m.nodes.map key := by
  simp only [adjust, List.map_map]
  exact List.map_congr_left fun x _ => key_adjust k hf x

/-- An adjustment keeps the keys. -/
theorem find?_adjust_isSome (m : KeyList key eq) (k k' : K) :
    ((m.adjust k f hf).find? k').isSome = (m.find? k').isSome := by
  rw [Bool.eq_iff_iff, find?_isSome, find?_isSome]
  constructor
  · rintro ⟨y, hy, hk⟩
    obtain ⟨x, hx, rfl⟩ := mem_adjust.1 hy
    exact ⟨x, hx, by rwa [key_adjust k hf] at hk⟩
  · rintro ⟨x, hx, hk⟩
    exact ⟨_, mem_adjust.2 ⟨x, hx, rfl⟩, by rwa [key_adjust k hf]⟩

theorem find?_adjust (m : KeyList key eq) (k k' : K) :
    (m.adjust k f hf).find? k' =
      (m.find? k').map fun x => if eq (key x) k then f x else x := by
  simp only [find?, adjust, List.find?_map]
  congr 2
  funext x
  exact congrArg (eq · k') (key_adjust k hf x)

end

/-! ## Positions -/

/-- The removal of the first value whose key equals `k`, by its position. -/
theorem eraseIdx_findIdx (m : KeyList key eq) (k : K) :
    m.nodes.eraseIdx (m.nodes.findIdx fun x => eq (key x) k) = (m.erase k).nodes := by
  rw [erase]
  dsimp only
  generalize m.nodes = l
  induction l with
  | nil => rfl
  | cons x l ih =>
    by_cases hx : eq (key x) k = true
    · simp [List.findIdx_cons, hx]
    · simp [List.findIdx_cons, hx, ih]

/-- A change of the value whose key equals `k`, by its position. -/
theorem modify_findIdx [KeyEq eq] (m : KeyList key eq) (k : K) (f : V → V)
    (hf : ∀ x, key (f x) = key x) :
    m.nodes.modify (m.nodes.findIdx fun x => eq (key x) k) f = (m.adjust k f hf).nodes := by
  have hp := m.distinct
  rw [adjust]
  dsimp only
  generalize m.nodes = l at hp
  induction l with
  | nil => rfl
  | cons x l ih =>
    obtain ⟨hx, hl⟩ := List.pairwise_cons.1 hp
    by_cases hk : eq (key x) k = true
    · -- no other value has the key
      have hrest : ∀ y ∈ l, eq (key y) k = false := fun y hy => by
        rw [← KeyEq.congr_right hk, KeyEq.comm eq]
        exact hx y hy
      have hmap : (l.map fun y => if eq (key y) k then f y else y) = l := by
        rw [List.map_congr_left (g := id) fun y hy => by rw [hrest y hy]; rfl, List.map_id]
      simp [List.findIdx_cons, hk, hmap]
    · simp [List.findIdx_cons, hk, ih hl]

end KeyList
