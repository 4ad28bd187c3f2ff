import Mathlib.Data.List.Chain
import Mathlib.Data.List.Nodup
import Mathlib.Logic.Function.Basic

/-!
# Doubly linked rings

The links of the nodes of a memory, as one function for each field (`Links`), with the assignments
that put a node into a ring and take it out. `IsRing m head l`: from the node `head`, which holds no
value, the links lead through the nodes `l` back to it, in both directions. A write to the links of
other nodes keeps a ring (`IsRing.frame`); the assignments do to `l` what they are for
(`IsRing.addBack`, `IsRing.removeNode`), and a loop that is stopped by the head finds what there is
to find (`IsRing.search`).
-/

structure Links where
  next : Nat → Nat
  prev : Nat → Nat

namespace Links

def setNext (a b : Nat) (m : Links) : Links := { m with next := Function.update m.next a b }
def setPrev (a b : Nat) (m : Links) : Links := { m with prev := Function.update m.prev a b }

@[simp] theorem next_setNext (a b : Nat) (m : Links) :
    (m.setNext a b).next = Function.update m.next a b := rfl
@[simp] theorem prev_setNext (a b : Nat) (m : Links) : (m.setNext a b).prev = m.prev := rfl
@[simp] theorem next_setPrev (a b : Nat) (m : Links) : (m.setPrev a b).next = m.next := rfl
@[simp] theorem prev_setPrev (a b : Nat) (m : Links) :
    (m.setPrev a b).prev = Function.update m.prev a b := rfl

/-! ## The assignments -/

def init (head : Nat) (m : Links) : Links := (m.setPrev head head).setNext head head

def addBack (head node : Nat) (m : Links) : Links :=
  let m := m.setNext (m.prev head) node
  let m := m.setNext node head
  let m := m.setPrev node (m.prev head)
  m.setPrev head node

def removeNode (node : Nat) (m : Links) : Links :=
  let m := m.setPrev (m.next node) (m.prev node)
  m.setNext (m.prev node) (m.next node)

/-- `do … while (current != head)` from `current` on, at most `n` turns of it: the first node that
satisfies `p`. -/
def search (head : Nat) (p : Nat → Bool) (m : Links) : Nat → Nat → Option Nat
  | 0, _ => none
  | n + 1, current =>
    if p current then some current
    else
      let current := m.next current
      if current = head then none else search head p m n current

/-! ## Rings -/

/-- The two nodes are linked in both directions. -/
def Linked (m : Links) (a b : Nat) : Prop := m.next a = b ∧ m.prev b = a

structure IsRing (m : Links) (head : Nat) (l : List Nat) : Prop where
  nodup : (head :: l).Nodup
  chain : ((head :: l) ++ [head]).IsChain m.Linked

variable {m m' : Links} {head n a b : Nat} {l : List Nat}

theorem isRing_init (head : Nat) (m : Links) : IsRing (m.init head) head [] :=
  ⟨List.nodup_singleton _, List.isChain_pair.2 ⟨Function.update_self _ _ _, Function.update_self _ _ _⟩⟩

namespace IsRing

theorem not_mem (h : IsRing m head l) : head ∉ l := (List.nodup_cons.1 h.nodup).1

/-- A ring reads the links of its own nodes only. -/
theorem frame (h : IsRing m head l) (hn : ∀ a ∈ head :: l, m'.next a = m.next a)
    (hp : ∀ a ∈ head :: l, m'.prev a = m.prev a) : IsRing m' head l := by
  refine ⟨h.nodup, h.chain.imp_of_mem_imp fun a b ha hb hab => ?_⟩
  have hmem : ∀ x, x ∈ (head :: l) ++ [head] → x ∈ head :: l := by
    intro x hx
    rcases List.mem_append.1 hx with hx | hx
    · exact hx
    · exact List.mem_singleton.1 hx ▸ List.mem_cons_self
  exact ⟨(hn a (hmem a ha)).trans hab.1, (hp b (hmem b hb)).trans hab.2⟩

/-- The ring around one of its nodes. -/
theorem split (h : IsRing m head l) {l₁ l₂ : List Nat} (hl : l = l₁ ++ n :: l₂) :
    ((head :: l₁) ++ [n]).IsChain m.Linked ∧ (n :: (l₂ ++ [head])).IsChain m.Linked := by
  have hc := h.chain
  rw [hl, List.cons_append, List.append_assoc, List.cons_append, ← List.cons_append] at hc
  exact List.isChain_split.1 hc

theorem next_head (h : IsRing m head l) : m.next head = l.headD head := by
  cases l with
  | nil => exact (List.isChain_pair.1 h.chain).1
  | cons a l => exact (List.isChain_cons_cons.1 h.chain).1.1

/-- What follows a node of a ring. -/
theorem next_of_split (h : IsRing m head l) {l₁ l₂ : List Nat} (hl : l = l₁ ++ n :: l₂) :
    m.next n = l₂.headD head := by
  have hc := (h.split hl).2
  cases l₂ with
  | nil => exact (List.isChain_pair.1 hc).1
  | cons a l => exact (List.isChain_cons_cons.1 hc).1.1

/-- The links into a stretch of the ring and out of it. -/
theorem last_linked {x : List Nat} {c d : Nat} (h : (x ++ [c, d]).IsChain m.Linked) :
    m.Linked c d := by
  rw [List.isChain_split] at h
  exact List.isChain_pair.1 h.2

/-- The node behind the last one is the head. -/
theorem prev_head (h : IsRing m head l) : m.prev head ∈ head :: l := by
  rcases List.eq_nil_or_concat (head :: l) with hnil | ⟨x, p, hx⟩
  · cases hnil
  · have hc := h.chain
    rw [hx, List.concat_eq_append, List.append_assoc] at hc
    rw [(last_linked hc).2, hx, List.concat_eq_append]
    simp

/-- The links lead through the same nodes each time. -/
theorem unique {l' : List Nat} (h : IsRing m head l) (h' : IsRing m head l') : l = l' := by
  have hstretch : ∀ (x x' : List Nat) (a : Nat), head ∉ x → head ∉ x' →
      (a :: (x ++ [head])).IsChain m.Linked → (a :: (x' ++ [head])).IsChain m.Linked → x = x' := by
    intro x
    induction x with
    | nil =>
      intro x' a _ hx' hc hc'
      cases x' with
      | nil => rfl
      | cons b x' =>
        have hb : b = head :=
          (List.isChain_cons_cons.1 hc').1.1.symm.trans (List.isChain_cons_cons.1 hc).1.1
        exact absurd (hb ▸ List.mem_cons_self) hx'
    | cons b x ih =>
      intro x' a hx hx' hc hc'
      have hnext := (List.isChain_cons_cons.1 hc).1.1
      cases x' with
      | nil =>
        have hb : b = head := hnext.symm.trans (List.isChain_cons_cons.1 hc').1.1
        exact absurd (hb ▸ List.mem_cons_self) hx
      | cons b' x' =>
        obtain rfl : b = b' := hnext.symm.trans (List.isChain_cons_cons.1 hc').1.1
        rw [ih x' b (fun hm => hx (List.mem_cons_of_mem _ hm))
          (fun hm => hx' (List.mem_cons_of_mem _ hm)) (List.isChain_cons_cons.1 hc).2
          (List.isChain_cons_cons.1 hc').2]
  exact hstretch l l' head h.not_mem h'.not_mem h.chain h'.chain

theorem next_mem (h : IsRing m head l) (hn : n ∈ l) : m.next n ∈ head :: l := by
  obtain ⟨l₁, l₂, rfl⟩ := List.append_of_mem hn
  rw [h.next_of_split rfl]
  cases l₂ with
  | nil => exact List.mem_cons_self
  | cons a l => simp

theorem prev_mem (h : IsRing m head l) (hn : n ∈ l) : m.prev n ∈ head :: l := by
  obtain ⟨l₁, l₂, rfl⟩ := List.append_of_mem hn
  have hc := (h.split rfl).1
  rcases List.eq_nil_or_concat (head :: l₁) with hnil | ⟨x, p, hx⟩
  · cases hnil
  · have hp : p ∈ head :: l₁ := by rw [hx, List.concat_eq_append]; simp
    rw [hx, List.concat_eq_append, List.append_assoc] at hc
    rw [(last_linked hc).2, ← List.cons_append]
    exact List.mem_append_left _ hp

theorem next_ne (h : IsRing m head l) (hn : n ∈ l) : m.next n ≠ n := by
  obtain ⟨l₁, l₂, hl⟩ := List.append_of_mem hn
  have hnd := (List.nodup_cons.1 h.nodup).2
  rw [hl, List.nodup_append, List.nodup_cons] at hnd
  rw [h.next_of_split hl]
  cases l₂ with
  | nil =>
    rintro rfl
    exact h.not_mem hn
  | cons a l₂ =>
    rintro rfl
    exact hnd.2.1.1 List.mem_cons_self

/-- The links lead back. -/
theorem inverse (h : IsRing m head l) (hn : n ∈ head :: l) :
    m.prev (m.next n) = n ∧ m.next (m.prev n) = n := by
  obtain ⟨l₁, l₂, hl⟩ := List.append_of_mem hn
  have hc := h.chain
  constructor
  · rw [hl, List.append_assoc, List.cons_append] at hc
    cases hl₂ : l₂ ++ [head] with
    | nil => simp at hl₂
    | cons b l₂ =>
      rw [hl₂] at hc
      have hlink : m.Linked n b := (List.isChain_cons_cons.1 (List.isChain_split.1 hc).2).1
      rw [hlink.1, hlink.2]
  · rcases List.eq_nil_or_concat l₁ with rfl | ⟨x, p, rfl⟩
    · -- the head: the last node of the ring leads to it
      obtain ⟨rfl, -⟩ := List.cons.inj hl
      rcases List.eq_nil_or_concat (head :: l) with hnil | ⟨x, p, hx⟩
      · cases hnil
      · rw [hx, List.concat_eq_append, List.append_assoc] at hc
        rw [(last_linked hc).2, (last_linked hc).1]
    · rw [List.concat_eq_append, List.append_assoc] at hl
      rw [hl, List.append_assoc, List.append_assoc, List.cons_append, List.nil_append,
        List.cons_append] at hc
      have hlink : m.Linked p n := (List.isChain_cons_cons.1 (List.isChain_split.1 hc).2).1
      rw [hlink.2, hlink.1]

end IsRing

/-- A chain whose nodes keep the links inside it. -/
theorem chain_keep {x : List Nat} (h : x.IsChain m.Linked)
    (hn : ∀ a ∈ x, ∀ b ∈ x.tail, m.Linked a b → m'.next a = m.next a)
    (hp : ∀ a ∈ x, ∀ b ∈ x.tail, m.Linked a b → m'.prev b = m.prev b) : x.IsChain m'.Linked :=
  h.imp_of_mem_tail_imp fun a b ha hb hab =>
    ⟨(hn a ha b hb hab).trans hab.1, (hp a ha b hb hab).trans hab.2⟩

namespace IsRing

theorem addBack (h : IsRing m head l) (hn : n ∉ head :: l) :
    IsRing (m.addBack head n) head (l ++ [n]) := by
  have hnh : n ≠ head := fun he => hn (he ▸ List.mem_cons_self)
  have hnd : (head :: (l ++ [n])).Nodup := by
    rw [← List.cons_append, List.nodup_append]
    exact ⟨h.nodup, List.nodup_singleton n, fun a ha b hb he =>
      hn (List.mem_singleton.1 hb ▸ he ▸ ha)⟩
  -- the last node of the ring, or its head
  obtain ⟨x, p, hx⟩ : ∃ x p, head :: l = x ++ [p] := by
    rcases List.eq_nil_or_concat (head :: l) with hnil | ⟨x, p, hx⟩
    · cases hnil
    · exact ⟨x, p, by rw [hx, List.concat_eq_append]⟩
  have hpm : p ∈ head :: l := by rw [hx]; simp
  have hpn : p ≠ n := fun he => hn (he ▸ hpm)
  have hc : (x ++ [p, head]).IsChain m.Linked := by
    have hc := h.chain
    rw [hx, List.append_assoc] at hc
    exact hc
  have hlast : m.prev head = p := (last_linked hc).2
  have hfront : (x ++ [p]).IsChain m.Linked := (List.isChain_split.1 hc).1
  have hxnd : (x ++ [p]).Nodup := hx ▸ h.nodup
  have hkeep : (x ++ [p]).IsChain (m.addBack head n).Linked := by
    have htail : (x ++ [p]).tail = l := by rw [← hx, List.tail_cons]
    refine chain_keep hfront (fun a ha b hb hab => ?_) fun a ha b hb hab => ?_
    · have hbl : b ∈ l := htail ▸ hb
      have hbh : b ≠ head := fun he => h.not_mem (he ▸ hbl)
      have hap : a ≠ p := by
        rintro rfl
        exact hbh (hab.1.symm.trans (last_linked hc).1)
      have han : a ≠ n := fun he => hn (he ▸ hx ▸ ha)
      simp [Links.addBack, hlast, hap, han]
    · have hbl : b ∈ l := htail ▸ hb
      have hbh : b ≠ head := fun he => h.not_mem (he ▸ hbl)
      have hbn : b ≠ n := fun he => hn (he ▸ List.mem_cons_of_mem _ hbl)
      simp [Links.addBack, hbh, hbn]
  refine ⟨hnd, ?_⟩
  have hsplit : (head :: (l ++ [n])) ++ [head] = x ++ p :: [n, head] := by
    rw [← List.cons_append, hx]
    simp
  rw [hsplit, List.isChain_split]
  refine ⟨hkeep, List.isChain_cons_cons.2 ⟨⟨?_, ?_⟩, List.isChain_pair.2 ⟨?_, ?_⟩⟩⟩
  · simp [Links.addBack, hlast, hpn]
  · simp [Links.addBack, hlast, hnh]
  · simp [Links.addBack]
  · simp [Links.addBack]

/-- A node that is added to another ring. -/
theorem addBack_other {head' : Nat} {l' : List Nat} (h : IsRing m head l) (h' : IsRing m head' l')
    (hn : n ∉ head :: l) (hd : ∀ a ∈ head :: l, a ∉ head' :: l') :
    IsRing (m.addBack head' n) head l := by
  refine h.frame (fun a ha => ?_) fun a ha => ?_
  · have han : a ≠ n := fun he => hn (he ▸ ha)
    have hap : a ≠ m.prev head' := fun he => hd a ha (he ▸ h'.prev_head)
    simp [Links.addBack, han, hap]
  · have han : a ≠ n := fun he => hn (he ▸ ha)
    have hah : a ≠ head' := fun he => hd a ha (he ▸ List.mem_cons_self)
    simp [Links.addBack, han, hah]

theorem removeNode_split (h : IsRing m head l) {l₁ l₂ : List Nat} (hl : l = l₁ ++ n :: l₂) :
    IsRing (m.removeNode n) head (l₁ ++ l₂) := by
  obtain ⟨hc₁, hc₂⟩ := h.split hl
  have hnd := h.nodup
  rw [hl, ← List.cons_append, List.nodup_append] at hnd
  obtain ⟨hnd₁, hnd₂, hne⟩ := hnd
  have hn₁ : n ∉ head :: l₁ := fun hm => hne n hm n List.mem_cons_self rfl
  have hn₂ : n ∉ l₂ := (List.nodup_cons.1 hnd₂).1
  -- the nodes around `n`
  obtain ⟨x, p, hx⟩ : ∃ x p, head :: l₁ = x ++ [p] := by
    rcases List.eq_nil_or_concat (head :: l₁) with hnil | ⟨x, p, hx⟩
    · cases hnil
    · exact ⟨x, p, by rw [hx, List.concat_eq_append]⟩
  obtain ⟨q, y, hy⟩ : ∃ q y, l₂ ++ [head] = q :: y := by
    cases l₂ with
    | nil => exact ⟨head, [], rfl⟩
    | cons q y => exact ⟨q, y ++ [head], rfl⟩
  have hpn : m.Linked p n := by
    rw [hx, List.append_assoc] at hc₁
    exact last_linked hc₁
  have hnq : m.Linked n q := by
    rw [hy] at hc₂
    exact (List.isChain_cons_cons.1 hc₂).1
  have hpm : p ∈ head :: l₁ := by rw [hx]; simp
  have hqn : q ≠ n := by
    rintro rfl
    have hm : q ∈ l₂ ++ [head] := by rw [hy]; exact List.mem_cons_self
    rcases List.mem_append.1 hm with hm | hm
    · exact hn₂ hm
    · exact hn₁ (List.mem_singleton.1 hm ▸ List.mem_cons_self)
  have hnext : (m.removeNode n).next = Function.update m.next p q := by
    simp [Links.removeNode, hnq.1, hpn.2, Function.update_of_ne (Ne.symm hqn)]
  have hprev : (m.removeNode n).prev = Function.update m.prev q p := by
    simp [Links.removeNode, hnq.1, hpn.2]
  have hsplit : (head :: (l₁ ++ l₂)) ++ [head] = x ++ p :: q :: y := by
    rw [← List.cons_append, hx, List.append_assoc, hy, List.append_assoc]
    rfl
  refine ⟨?_, ?_⟩
  · rw [← List.cons_append, List.nodup_append]
    exact ⟨hnd₁, (List.nodup_cons.1 hnd₂).2, fun a ha b hb => hne a ha b (List.mem_cons_of_mem _ hb)⟩
  · -- the links that change lead to `n`, which is in neither part
    have hkeep : ∀ z : List Nat, n ∉ z → z.IsChain m.Linked → z.IsChain (m.removeNode n).Linked := by
      intro z hz hc
      refine chain_keep hc (fun a ha b hb hab => ?_) fun a ha b hb hab => ?_
      · have hap : a ≠ p := by
          rintro rfl
          exact hz (hab.1.symm.trans hpn.1 ▸ List.mem_of_mem_tail hb)
        rw [hnext, Function.update_of_ne hap]
      · have hbq : b ≠ q := by
          rintro rfl
          exact hz (hab.2.symm.trans hnq.2 ▸ ha)
        rw [hprev, Function.update_of_ne hbq]
    rw [hsplit, List.isChain_append_cons_cons, ← hx, ← hy]
    refine ⟨hkeep _ hn₁ (List.isChain_append.1 hc₁).1, ⟨?_, ?_⟩, hkeep _ ?_ ?_⟩
    · rw [hnext, Function.update_self]
    · rw [hprev, Function.update_self]
    · rw [List.mem_append, not_or, List.mem_singleton]
      exact ⟨hn₂, fun he => hn₁ (he ▸ List.mem_cons_self)⟩
    · exact (List.isChain_cons.1 hc₂).2

theorem removeNode (h : IsRing m head l) (hn : n ∈ l) : IsRing (m.removeNode n) head (l.erase n) := by
  obtain ⟨l₁, l₂, hl⟩ := List.append_of_mem hn
  have hn₁ : n ∉ l₁ := by
    have hnd := (List.nodup_cons.1 h.nodup).2
    rw [hl, List.nodup_append] at hnd
    exact fun hm => hnd.2.2 n hm n List.mem_cons_self rfl
  have herase : l.erase n = l₁ ++ l₂ := by
    rw [hl, List.erase_append_right _ hn₁, List.erase_cons_head]
  rw [herase]
  exact h.removeNode_split hl

/-- A node that is taken out of another ring. -/
theorem removeNode_other {head' : Nat} {l' : List Nat} (h : IsRing m head l) (h' : IsRing m head' l')
    (hn : n ∈ l') (hd : ∀ a ∈ head :: l, a ∉ head' :: l') : IsRing (m.removeNode n) head l := by
  have hne : ∀ a ∈ head :: l, ∀ b ∈ head' :: l', a ≠ b := fun a ha b hb he => hd a ha (he ▸ hb)
  have hprev : ∀ a ∈ head :: l, (m.removeNode n).prev a = m.prev a := fun a ha =>
    Function.update_of_ne (hne a ha _ (h'.next_mem hn)) _ _
  refine h.frame (fun a ha => ?_) hprev
  have hp : (m.setPrev (m.next n) (m.prev n)).prev n ∈ head' :: l' := by
    by_cases he : n = m.next n
    · rw [prev_setPrev, ← he, Function.update_self]
      exact h'.prev_mem hn
    · rw [prev_setPrev, Function.update_of_ne he]
      exact h'.prev_mem hn
  exact Function.update_of_ne (hne a ha _ hp) _ _

/-- The loop finds the first node from `n` on, and ends before its bound does. -/
theorem search (h : IsRing m head l) (p : Nat → Bool) : ∀ {l₁ l₂ : List Nat} {k : Nat},
    l = l₁ ++ n :: l₂ → l₂.length < k → m.search head p k n = (n :: l₂).find? p := by
  intro l₁ l₂
  induction l₂ generalizing n l₁ with
  | nil =>
    intro k hl hk
    obtain ⟨k, rfl⟩ := Nat.exists_eq_add_one_of_ne_zero (Nat.ne_of_gt hk)
    rw [Links.search, h.next_of_split hl, List.find?_cons]
    cases p n <;> simp
  | cons a l₂ ih =>
    intro k hl hk
    obtain ⟨k, rfl⟩ := Nat.exists_eq_add_one_of_ne_zero (Nat.ne_of_gt (Nat.zero_lt_of_lt hk))
    have ha : a ≠ head := by
      rintro rfl
      exact h.not_mem (by rw [hl]; simp)
    rw [Links.search, h.next_of_split hl, List.headD_cons, List.find?_cons]
    cases p n with
    | true => rfl
    | false =>
      have hl' : l = (l₁ ++ [n]) ++ a :: l₂ := by rw [hl]; simp
      rw [if_neg Bool.false_ne_true, if_neg ha]
      exact ih hl' (Nat.lt_of_succ_lt_succ hk)

end IsRing

end Links
