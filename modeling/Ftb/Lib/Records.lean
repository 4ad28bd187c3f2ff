import Mathlib.Data.List.Basic

/-!
# Tagged records in a buffer

A buffer is written and read at offsets, and an access beyond its end has no value (`store`, `load`).
A record is a tag, a length and as many bytes of data as the length says (`Record`, which carries
that), and a buffer holds records one behind the other (`encodeAll`). `storeAll` writes them;
`walk skip` goes from tag to tag, `skip` telling how far the data of a record reaches. With the size
that the records were written with, it finds what was written (`walk_encodeAll_none`,
`walk_encodeAll_some`).
-/

universe u

namespace Records

variable {B : Type u}

/-! ## Buffers -/

def load (offset n : Nat) (buf : List B) : Option (List B) :=
  if offset + n ≤ buf.length then some ((buf.drop offset).take n) else none

def store (offset : Nat) (bytes buf : List B) : Option (List B) :=
  if offset + bytes.length ≤ buf.length then
    some (buf.take offset ++ bytes ++ buf.drop (offset + bytes.length))
  else none

theorem load_append {offset : Nat} {pre bytes post : List B} (h : pre.length = offset) :
    load offset bytes.length (pre ++ (bytes ++ post)) = some bytes := by
  subst h
  have hle : pre.length + bytes.length ≤ (pre ++ (bytes ++ post)).length := by
    simp only [List.length_append]
    omega
  rw [load, if_pos hle, List.drop_left, List.take_left]

theorem store_append {offset : Nat} {pre bytes rest : List B} (h : pre.length = offset)
    (hle : bytes.length ≤ rest.length) :
    store offset bytes (pre ++ rest) = some (pre ++ bytes ++ rest.drop bytes.length) := by
  subst h
  have hle' : pre.length + bytes.length ≤ (pre ++ rest).length := by
    rw [List.length_append]
    omega
  rw [store, if_pos hle', List.take_left, List.drop_append, List.drop_eq_nil_of_le (by omega)]
  simp

/-! ## Records -/

structure Record (size : B → Nat) where
  tag : B
  len : B
  data : List B
  filled : data.length = size len

variable {size : B → Nat}

def encode (r : Record size) : List B := r.tag :: r.len :: r.data

def encodeAll (rs : List (Record size)) : List B := rs.flatMap encode

@[simp] theorem encodeAll_nil : encodeAll ([] : List (Record size)) = [] := rfl

@[simp] theorem encodeAll_cons (r : Record size) (rs : List (Record size)) :
    encodeAll (r :: rs) = encode r ++ encodeAll rs := rfl

@[simp] theorem encodeAll_append (rs rs' : List (Record size)) :
    encodeAll (rs ++ rs') = encodeAll rs ++ encodeAll rs' :=
  List.flatMap_append

theorem length_encode (r : Record size) : (encode r).length = r.data.length + 2 := rfl

/-- A record takes two bytes at least. -/
theorem two_mul_length_le (rs : List (Record size)) : 2 * rs.length ≤ (encodeAll rs).length := by
  induction rs with
  | nil => exact Nat.le_refl _
  | cons r rs ih =>
    rw [encodeAll_cons, List.length_append, length_encode, List.length_cons]
    omega

/-! ## Writing -/

/-- A record at an offset, and the offset behind it. -/
def storeRecord (x : Nat × List B) (r : Record size) : Option (Nat × List B) := do
  let buf ← store x.1 [r.tag] x.2
  let buf ← store (x.1 + 1) [r.len] buf
  let buf ← store (x.1 + 2) r.data buf
  pure (x.1 + 2 + r.data.length, buf)

def storeAll (rs : List (Record size)) (offset : Nat) (buf : List B) : Option (Nat × List B) :=
  rs.foldlM storeRecord (offset, buf)

theorem storeRecord_append {offset : Nat} {pre rest : List B} (h : pre.length = offset)
    (r : Record size) (hle : (encode r).length ≤ rest.length) :
    storeRecord (offset, pre ++ rest) r =
      some (offset + (encode r).length, pre ++ encode r ++ rest.drop (encode r).length) := by
  rw [length_encode] at hle
  obtain ⟨a, rest, rfl⟩ := List.exists_cons_of_length_pos (l := rest) (by omega)
  obtain ⟨b, rest, rfl⟩ := List.exists_cons_of_length_pos (l := rest)
    (by simp only [List.length_cons] at hle; omega)
  have htag : store offset [r.tag] (pre ++ a :: b :: rest) = some (pre ++ [r.tag] ++ b :: rest) :=
    store_append h (by simp)
  have hlen : store (offset + 1) [r.len] (pre ++ [r.tag] ++ b :: rest) =
      some (pre ++ [r.tag] ++ [r.len] ++ rest) :=
    store_append (by simp [h]) (by simp)
  have hdata : store (offset + 2) r.data (pre ++ [r.tag] ++ [r.len] ++ rest) =
      some (pre ++ [r.tag] ++ [r.len] ++ r.data ++ rest.drop r.data.length) :=
    store_append (by simp [h]) (by simp only [List.length_cons] at hle; omega)
  simp only [storeRecord, Option.bind_eq_bind, htag, Option.bind_some, hlen, hdata]
  simp [encode, Nat.add_comm, Nat.add_left_comm]

theorem storeAll_append (rs : List (Record size)) : ∀ {offset : Nat} {pre rest : List B},
    pre.length = offset → (encodeAll rs).length ≤ rest.length →
    storeAll rs offset (pre ++ rest) =
      some (offset + (encodeAll rs).length, pre ++ encodeAll rs ++ rest.drop (encodeAll rs).length) := by
  induction rs with
  | nil =>
    intro offset pre rest _ _
    simp [storeAll]
  | cons r rs ih =>
    intro offset pre rest h hle
    rw [encodeAll_cons, List.length_append] at hle
    have hr : storeRecord (offset, pre ++ rest) r = _ := storeRecord_append h r (by omega)
    rw [storeAll, List.foldlM_cons, hr]
    show storeAll rs _ _ = _
    rw [ih (by rw [List.length_append, h]) (by rw [List.length_drop]; omega), encodeAll_cons,
      List.length_append, List.drop_drop, Nat.add_assoc, List.append_assoc pre]

/-! ## Reading -/

variable [DecidableEq B]

/-- The length of the first record with the tag, and where its data begin, if it is among the next
`n`. -/
def walk (skip : B → Nat) (tag : B) : Nat → Nat → List B → Option (Option (B × Nat))
  | 0, _, _ => some none
  | n + 1, offset, buf => do
    let tag' ← buf[offset]?
    let len ← buf[offset + 1]?
    if tag = tag' then some (some (len, offset + 2))
    else walk skip tag n (offset + 2 + skip len) buf

theorem walk_encode {skip : B → Nat} {tag : B} {n offset : Nat} {pre post : List B} (r : Record size)
    (h : pre.length = offset) :
    walk skip tag (n + 1) offset (pre ++ (encode r ++ post)) =
      if tag = r.tag then some (some (r.len, offset + 2))
      else walk skip tag n (offset + 2 + skip r.len) (pre ++ (encode r ++ post)) := by
  subst h
  have htag : (pre ++ (encode r ++ post))[pre.length]? = some r.tag := by
    rw [List.getElem?_append_right (Nat.le_refl _), Nat.sub_self]
    rfl
  have hlen : (pre ++ (encode r ++ post))[pre.length + 1]? = some r.len := by
    rw [List.getElem?_append_right (by omega), Nat.add_sub_cancel_left]
    rfl
  rw [walk, htag, hlen]
  rfl

/-- Behind the record. -/
theorem walk_skips {tag : B} {n offset : Nat} {pre post : List B} (r : Record size)
    (h : pre.length = offset) (hne : tag ≠ r.tag) :
    walk size tag (n + 1) offset (pre ++ (encode r ++ post)) =
      walk size tag n (pre ++ encode r).length (pre ++ encode r ++ post) := by
  rw [walk_encode r h, if_neg hne, ← r.filled, List.append_assoc, List.length_append, length_encode, h]
  congr 1
  omega

theorem walk_encodeAll_none {tag : B} {post : List B} : ∀ {rs : List (Record size)} {offset : Nat}
    {pre : List B}, pre.length = offset → (∀ r ∈ rs, r.tag ≠ tag) →
    walk size tag rs.length offset (pre ++ (encodeAll rs ++ post)) = some none := by
  intro rs
  induction rs with
  | nil => exact fun {offset pre} _ _ => rfl
  | cons r rs ih =>
    intro offset pre h hno
    have hne : tag ≠ r.tag := fun he => hno r List.mem_cons_self he.symm
    rw [encodeAll_cons, List.append_assoc, List.length_cons, walk_skips r h hne]
    exact ih rfl fun r' hr' => hno r' (List.mem_cons_of_mem _ hr')

theorem walk_encodeAll_some {tag : B} {post : List B} {r : Record size} (ht : r.tag = tag) :
    ∀ {rs rs' : List (Record size)} {offset : Nat} {pre : List B}, pre.length = offset →
    (∀ r' ∈ rs, r'.tag ≠ tag) →
    ∃ at_, walk size tag (rs ++ r :: rs').length offset (pre ++ (encodeAll (rs ++ r :: rs') ++ post)) =
        some (some (r.len, at_)) ∧
      load at_ r.data.length (pre ++ (encodeAll (rs ++ r :: rs') ++ post)) = some r.data := by
  intro rs
  induction rs with
  | nil =>
    intro rs' offset pre h _
    refine ⟨offset + 2, ?_, ?_⟩
    · rw [List.nil_append, encodeAll_cons, List.append_assoc, List.length_cons, walk_encode r h,
        if_pos ht.symm]
    · have hsplit : pre ++ (encodeAll (r :: rs') ++ post) =
          (pre ++ [r.tag, r.len]) ++ (r.data ++ (encodeAll rs' ++ post)) := by
        simp [encode]
      rw [List.nil_append, hsplit]
      exact load_append (by simp [h])
  | cons r' rs ih =>
    intro rs' offset pre h hno
    have hne : tag ≠ r'.tag := fun he => hno r' List.mem_cons_self he.symm
    obtain ⟨at_, hwalk, hload⟩ := @ih rs' _ (pre ++ encode r') rfl
      fun r'' hr'' => hno r'' (List.mem_cons_of_mem _ hr'')
    refine ⟨at_, ?_, ?_⟩
    · rw [List.cons_append, encodeAll_cons, List.append_assoc, List.length_cons,
        walk_skips r' h hne]
      exact hwalk
    · rw [List.cons_append, encodeAll_cons, List.append_assoc, ← List.append_assoc pre]
      exact hload

end Records
