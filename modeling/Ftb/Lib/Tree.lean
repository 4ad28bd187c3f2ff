import Mathlib.Data.Finset.Lattice.Fold
import Mathlib.Logic.Function.Basic
import Mathlib.Logic.Relation

/-!
# Trees that can be rooted at any node

A tree is given by its edges `adj` on the nodes `mem`. `Rooted adj mem a up d`: seen from `a`, every
other node `x` has one neighbour `up x` nearer to `a`, and every edge is one of these. What can be
rooted at one node can be rooted at all of them (`Rooted.rootable`), and stays so when a leaf is added
(`Rootable.grow`) or when a node leaves its neighbour for another (`Rootable.move`), which is how a
network grows and is repaired; what is proved along the paths to the root or away from it uses
`Rooted.up_induction` and `Rooted.down_induction`.

A network that keeps parent pointers and falls to pieces is a `Forest`, and a tree again when there is
one root (`Forest.rootable`).
-/

universe u

namespace Tree

variable {V : Type u} {adj adj' : V → V → Prop} {mem mem' : V → Prop}

/-- The tree seen from `a`: the next node on the way to it, and the distance. -/
structure Rooted (adj : V → V → Prop) (mem : V → Prop) (a : V) (up : V → V) (d : V → Nat) :
    Prop where
  next : ∀ x, mem x → x ≠ a → mem (up x) ∧ adj x (up x) ∧ d (up x) < d x
  edge : ∀ x y, adj x y → (x ≠ a ∧ up x = y) ∨ (y ≠ a ∧ up y = x)
  bounded : ∃ n, ∀ x, mem x → d x ≤ n

def Rootable (adj : V → V → Prop) (mem : V → Prop) : Prop :=
  ∀ a, mem a → ∃ up d, Rooted adj mem a up d

namespace Rooted

variable {a : V} {up : V → V} {d : V → Nat}

/-- From the root to every node. -/
theorem up_induction (h : Rooted adj mem a up d) {P : V → Prop} (root : P a)
    (next : ∀ x, mem x → x ≠ a → P (up x) → P x) : ∀ x, mem x → P x := by
  intro x hx
  induction hd : d x using Nat.strongRecOn generalizing x with
  | _ n ih =>
    by_cases hxa : x = a
    · exact hxa ▸ root
    · obtain ⟨hm, -, hlt⟩ := h.next x hx hxa
      exact next x hx hxa (ih (d (up x)) (by omega) (up x) hm rfl)

/-- From the leaves to every node. -/
theorem down_induction (h : Rooted adj mem a up d) {P : V → Prop}
    (next : ∀ x, mem x → (∀ y, mem y → y ≠ a → up y = x → P y) → P x) : ∀ x, mem x → P x := by
  obtain ⟨n, hn⟩ := h.bounded
  intro x hx
  induction hk : n - d x using Nat.strongRecOn generalizing x with
  | _ k ih =>
    refine next x hx fun y hy hya hyx => ?_
    obtain ⟨-, -, hlt⟩ := h.next y hy hya
    rw [hyx] at hlt
    have := hn y hy
    exact ih (n - d y) (by omega) y hy rfl

/-- What moves on from node to node and never turns back comes to an end: the edges of its way have
smaller and smaller ranks. -/
theorem exists_rank (h : Rooted adj mem a up d) (hedge : ∀ x y, adj x y → mem x ∧ mem y) :
    ∃ rank : V → V → Nat, ∀ x y z, adj x y → adj y z → z ≠ x → rank y z < rank x y := by
  classical
  obtain ⟨n, hn⟩ := h.bounded
  refine ⟨fun x y => if x ≠ a ∧ up x = y then n + 1 + d x else n - d y, fun x y z hxy hyz hzx => ?_⟩
  obtain ⟨hmx, hmy⟩ := hedge x y hxy
  obtain ⟨-, hmz⟩ := hedge y z hyz
  have hz := hn z hmz
  show (if y ≠ a ∧ up y = z then n + 1 + d y else n - d z) <
    if x ≠ a ∧ up x = y then n + 1 + d x else n - d y
  by_cases hyup : y ≠ a ∧ up y = z
  · -- upwards to `z`, so upwards to `y`
    obtain ⟨hxa, hxup⟩ := (h.edge x y hxy).resolve_right fun hc => hzx (hyup.2.symm.trans hc.2)
    obtain ⟨-, -, hlt⟩ := h.next x hmx hxa
    rw [if_pos hyup, if_pos ⟨hxa, hxup⟩]
    rw [hxup] at hlt
    omega
  · obtain ⟨hza, hzup⟩ := (h.edge y z hyz).resolve_left hyup
    obtain ⟨-, -, hlt⟩ := h.next z hmz hza
    rw [hzup] at hlt
    rw [if_neg hyup]
    split <;> omega

/-- The way up does not come back at once. -/
theorem up_up_ne (h : Rooted adj mem a up d) {x : V} (hx : mem x) (hxa : x ≠ a)
    (hua : up x ≠ a) : up (up x) ≠ x := by
  obtain ⟨hm, -, hlt⟩ := h.next x hx hxa
  obtain ⟨-, -, hlt'⟩ := h.next (up x) hm hua
  intro he
  rw [he] at hlt'
  omega

end Rooted

/-- One node without edges. -/
theorem rootable_singleton {r : V} (hm : ∀ x, mem x ↔ x = r) (ha : ∀ x y, ¬adj x y) :
    Rootable adj mem := by
  intro a har
  have hr := (hm a).1 har
  refine ⟨id, fun _ => 0, fun x hx hxa => ?_, fun x y h => absurd h (ha x y), 0, fun _ _ => Nat.le_refl 0⟩
  exact absurd (((hm x).1 hx).trans hr.symm) hxa

section
variable {a b c : V} {up : V → V} {d : V → Nat}

/-- The way up from `x` meets `b`, before it ends at the root `a`. -/
def Below (a : V) (up : V → V) (x b : V) : Prop :=
  Relation.ReflTransGen (fun y z => y ≠ a ∧ up y = z) x b

theorem not_below_root (hba : b ≠ a) : ¬Below a up a b := by
  intro h
  obtain rfl | ⟨z, ⟨hne, -⟩, -⟩ := h.cases_head
  · exact hba rfl
  · exact hne rfl

/-- Below `b`, one step up changes nothing. -/
theorem below_up {x : V} (hxa : x ≠ a) (hxb : x ≠ b) : Below a up (up x) b ↔ Below a up x b := by
  refine ⟨fun h => .head ⟨hxa, rfl⟩ h, fun h => ?_⟩
  obtain rfl | ⟨z, ⟨-, rfl⟩, hz⟩ := h.cases_head
  · exact absurd rfl hxb
  · exact hz

/-- The root moves to a neighbour: the edge between them turns round, and what is not below the
neighbour gets further away. -/
theorem Rooted.shift (h : Rooted adj mem a up d) (hb : mem b) (hab : adj a b) :
    ∃ up' d', Rooted adj mem b up' d' := by
  classical
  obtain ⟨hba, hup⟩ := (h.edge a b hab).resolve_left fun hc => hc.1 rfl
  obtain ⟨n, hn⟩ := h.bounded
  have hself : Below a up b b := .refl
  refine ⟨Function.update up a b, fun x => if Below a up x b then d x else d x + (d b + 1),
    fun x hx hxb => ?_, fun x y hxy => ?_, n + (d b + 1), fun x hx => ?_⟩
  · by_cases hxa : x = a
    · subst hxa
      rw [Function.update_self]
      refine ⟨hb, hab, ?_⟩
      rw [if_pos hself, if_neg (not_below_root hba)]
      omega
    · obtain ⟨hm, hadj, hlt⟩ := h.next x hx hxa
      rw [Function.update_of_ne hxa]
      refine ⟨hm, hadj, ?_⟩
      simp only [below_up hxa hxb]
      split <;> omega
  · have turn : ∀ x y, x ≠ a ∧ up x = y →
        (x ≠ b ∧ Function.update up a b x = y) ∨ (y ≠ b ∧ Function.update up a b y = x) := by
      intro x y ⟨hxa, hxy⟩
      by_cases hxb : x = b
      · subst hxb
        obtain rfl := hup.symm.trans hxy
        exact .inr ⟨hba.symm, Function.update_self ..⟩
      · exact .inl ⟨hxb, (Function.update_of_ne hxa ..).trans hxy⟩
    obtain hxy | hyx := h.edge x y hxy
    · exact turn x y hxy
    · exact (turn y x hyx).symm
  · have := hn x hx
    show (if Below a up x b then d x else d x + (d b + 1)) ≤ n + (d b + 1)
    split <;> omega

/-- **What can be rooted at one node can be rooted at every node.** -/
theorem Rooted.rootable (h : Rooted adj mem a up d) (hs : ∀ x y, adj x y → adj y x) :
    Rootable adj mem := by
  refine fun r hr => h.up_induction (P := fun r => ∃ up d, Rooted adj mem r up d) ⟨up, d, h⟩
    (fun x hx hxa ih => ?_) r hr
  obtain ⟨up', d', h'⟩ := ih
  obtain ⟨-, hadj, -⟩ := h.next x hx hxa
  exact h'.shift hx (hs x (up x) hadj)

/-- **A tree stays one when `b` leaves its neighbour `a` for `c`**, if `c` is on the other side of
the edge that goes. -/
theorem Rootable.move (h : Rootable (fun x y => adj x y ∨ (x = b ∧ y = a) ∨ (x = a ∧ y = b)) mem)
    (hs : ∀ x y, adj x y → adj y x) (ha : mem a) (hc : mem c) (hba : ¬adj b a)
    (hcb : ¬Relation.ReflTransGen adj c b)
    (hadj : ∀ x y, adj' x y ↔ adj x y ∨ (x = b ∧ y = c) ∨ (x = c ∧ y = b)) :
    Rootable adj' mem := by
  classical
  obtain ⟨up, d, hr⟩ := h a ha
  obtain ⟨hne, hup⟩ := (hr.edge a b (.inr (.inr ⟨rfl, rfl⟩))).resolve_left fun hc => hc.1 rfl
  obtain ⟨n, hn⟩ := hr.bounded
  have old : ∀ x, mem x → x ≠ a → x ≠ b → adj x (up x) := fun x hx hxa hxb =>
    (hr.next x hx hxa).2.1.resolve_right fun he => he.elim (fun he => hxb he.1) fun he => hxa he.1
  -- the way up from `c` does not meet `b`
  have hlow : ¬Below a up c b := by
    intro hl
    refine hcb (Relation.ReflTransGen.head_induction_on
      (motive := fun x _ => mem x → Relation.ReflTransGen adj x b) hl (fun _ => .refl) ?_ hc)
    intro x z hxz _ ih hx
    obtain ⟨hxa, rfl⟩ := hxz
    by_cases hxb : x = b
    · exact hxb ▸ .refl
    · exact .head (old x hx hxa hxb) (ih (hr.next x hx hxa).1)
  have hself : Below a up b b := .refl
  have hmoved : Rooted adj' mem a (Function.update up b c)
      fun x => if Below a up x b then d x + (d c + 1) else d x := by
    refine ⟨fun x hx hxa => ?_, fun x y hxy => ?_, n + (d c + 1), fun x hx => ?_⟩
    · by_cases hxb : x = b
      · subst hxb
        rw [Function.update_self]
        refine ⟨hc, (hadj x c).2 (.inr (.inl ⟨rfl, rfl⟩)), ?_⟩
        rw [if_neg hlow, if_pos hself]
        omega
      · obtain ⟨hm, -, hlt⟩ := hr.next x hx hxa
        rw [Function.update_of_ne hxb]
        refine ⟨hm, (hadj _ _).2 (.inl (old x hx hxa hxb)), ?_⟩
        simp only [below_up hxa hxb]
        split <;> omega
    · have kept : ∀ x y, adj x y → x ≠ a ∧ up x = y → x ≠ a ∧ Function.update up b c x = y := by
        intro x y hxy ⟨hxa, he⟩
        have hxb : x ≠ b := by
          intro hxb
          subst hxb
          exact hba (hup.symm.trans he ▸ hxy)
        exact ⟨hxa, (Function.update_of_ne hxb ..).trans he⟩
      obtain hxy | ⟨rfl, rfl⟩ | ⟨rfl, rfl⟩ := (hadj x y).1 hxy
      · obtain he | he := hr.edge x y (.inl hxy)
        · exact .inl (kept x y hxy he)
        · exact .inr (kept y x (hs x y hxy) he)
      · exact .inl ⟨hne, Function.update_self ..⟩
      · exact .inr ⟨hne, Function.update_self ..⟩
    · have := hn x hx
      show (if Below a up x b then d x + (d c + 1) else d x) ≤ n + (d c + 1)
      split <;> omega
  refine hmoved.rootable fun x y hxy => (hadj y x).2 ?_
  obtain hxy | ⟨rfl, rfl⟩ | ⟨rfl, rfl⟩ := (hadj x y).1 hxy
  · exact .inl (hs x y hxy)
  · exact .inr (.inr ⟨rfl, rfl⟩)
  · exact .inr (.inl ⟨rfl, rfl⟩)

end

section
variable [DecidableEq V] {a n p : V} {up : V → V} {d : V → Nat}

/-- With a new leaf `n` at `p`, seen from the same root. -/
theorem Rooted.grow (h : Rooted adj mem a up d) (hroot : mem a)
    (hedge : ∀ x y, adj x y → mem x ∧ mem y)
    (hn : ¬mem n) (hp : mem p) (hm : ∀ x, mem' x ↔ x = n ∨ mem x)
    (ha : ∀ x y, adj' x y ↔ adj x y ∨ (x = n ∧ y = p) ∨ (x = p ∧ y = n)) :
    Rooted adj' mem' a (Function.update up n p) (Function.update d n (d p + 1)) := by
  have hne : ∀ x, mem x → x ≠ n := fun x hx hxn => hn (hxn ▸ hx)
  obtain ⟨k, hk⟩ := h.bounded
  refine ⟨fun x hx hxa => ?_, fun x y hxy => ?_, k + 1, fun x hx => ?_⟩
  · by_cases hxn : x = n
    · subst hxn
      rw [Function.update_self, Function.update_self, Function.update_of_ne (hne p hp)]
      exact ⟨(hm _).2 (.inr hp), (ha _ _).2 (.inr (.inl ⟨rfl, rfl⟩)), Nat.lt_succ_self _⟩
    · obtain ⟨hu, hadj, hlt⟩ := h.next x (((hm x).1 hx).resolve_left hxn) hxa
      rw [Function.update_of_ne hxn, Function.update_of_ne hxn, Function.update_of_ne (hne _ hu)]
      exact ⟨(hm _).2 (.inr hu), (ha _ _).2 (.inl hadj), hlt⟩
  · obtain hxy | ⟨rfl, rfl⟩ | ⟨rfl, rfl⟩ := (ha x y).1 hxy
    · obtain ⟨hmx, hmy⟩ := hedge x y hxy
      rw [Function.update_of_ne (hne x hmx), Function.update_of_ne (hne y hmy)]
      exact h.edge x y hxy
    · exact .inl ⟨(hne a hroot).symm, by rw [Function.update_self]⟩
    · exact .inr ⟨(hne a hroot).symm, by rw [Function.update_self]⟩
  · by_cases hxn : x = n
    · subst hxn
      rw [Function.update_self]
      have := hk p hp
      omega
    · rw [Function.update_of_ne hxn]
      have := hk x (((hm x).1 hx).resolve_left hxn)
      omega

/-- **A tree stays one with a new leaf `n` at `p`.** -/
theorem Rootable.grow (h : Rootable adj mem) (hs : ∀ x y, adj x y → adj y x)
    (hedge : ∀ x y, adj x y → mem x ∧ mem y)
    (hn : ¬mem n) (hp : mem p) (hm : ∀ x, mem' x ↔ x = n ∨ mem x)
    (ha : ∀ x y, adj' x y ↔ adj x y ∨ (x = n ∧ y = p) ∨ (x = p ∧ y = n)) : Rootable adj' mem' := by
  obtain ⟨up, d, hr⟩ := h p hp
  refine (hr.grow hp hedge hn hp hm ha).rootable fun x y hxy => (ha y x).2 ?_
  obtain hxy | ⟨rfl, rfl⟩ | ⟨rfl, rfl⟩ := (ha x y).1 hxy
  · exact .inl (hs x y hxy)
  · exact .inr (.inr ⟨rfl, rfl⟩)
  · exact .inr (.inl ⟨rfl, rfl⟩)

end

/-! ## Parent pointers -/

/-- The pointers lead downwards, so they come to an end. -/
def Forest (parent : V → Option V) : Prop :=
  ∃ d : V → Nat, ∀ x y, parent x = some y → d y < d x

/-- The pointers lead from `x` to `b`. -/
def Beneath (parent : V → Option V) (x b : V) : Prop :=
  Relation.ReflTransGen (fun y z => parent y = some z) x b

section
variable {parent parent' : V → Option V}

/-- Fewer pointers. -/
theorem Forest.mono (h : Forest parent) (hp : ∀ x y, parent' x = some y → parent x = some y) :
    Forest parent' := by
  obtain ⟨d, hd⟩ := h
  exact ⟨d, fun x y hxy => hd x y (hp x y hxy)⟩

/-- **A forest stays one when `b` gets the parent `c`**, if `c` does not lie beneath `b`. -/
theorem Forest.move {b c : V} (h : Forest parent) (hcb : ¬Beneath parent c b)
    (hb : parent' b = some c) (hother : ∀ x, x ≠ b → parent' x = parent x) : Forest parent' := by
  classical
  obtain ⟨d, hd⟩ := h
  have hself : Beneath parent b b := .refl
  refine ⟨fun x => if Beneath parent x b then d x + (d c + 1) else d x, fun x y hxy => ?_⟩
  show (if Beneath parent y b then d y + (d c + 1) else d y) <
    if Beneath parent x b then d x + (d c + 1) else d x
  by_cases hxb : x = b
  · subst hxb
    obtain rfl : c = y := Option.some.inj (hb.symm.trans hxy)
    rw [if_neg hcb, if_pos hself]
    omega
  · rw [hother x hxb] at hxy
    have hlt := hd x y hxy
    have hbelow : Beneath parent x b ↔ Beneath parent y b := by
      refine ⟨fun hx => ?_, fun hy => .head hxy hy⟩
      obtain rfl | ⟨z, hxz, hz⟩ := hx.cases_head
      · exact absurd rfl hxb
      · exact Option.some.inj (hxy.symm.trans hxz) ▸ hz
    rw [hbelow]
    split <;> omega

/-- **A forest with one root is a tree.** -/
theorem Forest.rootable (h : Forest parent) {nodes : List V}
    (hadj : ∀ x y, adj x y ↔ parent x = some y ∨ parent y = some x)
    (hedge : ∀ x y, parent x = some y → (x ∈ nodes ↔ y ∈ nodes))
    (hone : ∀ x ∈ nodes, ∀ y ∈ nodes, parent x = none → parent y = none → x = y) :
    Rootable adj (· ∈ nodes) := by
  classical
  obtain ⟨d, hd⟩ := h
  -- going up from any node ends at a root
  have hroot : ∀ x ∈ nodes, ∃ r ∈ nodes, parent r = none := by
    intro x hx
    induction hk : d x using Nat.strongRecOn generalizing x with
    | _ k ih =>
      cases hp : parent x with
      | none => exact ⟨x, hx, hp⟩
      | some y => exact ih (d y) (hk ▸ hd x y hp) y ((hedge x y hp).1 hx) rfl
  intro a ha
  obtain ⟨r, hr, hrn⟩ := hroot a ha
  have hup : ∀ x ∈ nodes, x ≠ r → ∃ y, parent x = some y := by
    intro x hx hxr
    rw [← Option.isSome_iff_exists, Option.isSome_iff_ne_none]
    exact fun hn => hxr (hone x hx r hr hn hrn)
  have hrooted : Rooted adj (· ∈ nodes) r (fun x => (parent x).getD r) d := by
    have hdown : ∀ x y, parent x = some y → x ≠ r ∧ (parent x).getD r = y := by
      intro x y hxy
      refine ⟨fun hxr => ?_, by rw [hxy]; rfl⟩
      rw [hxr, hrn] at hxy
      cases hxy
    refine ⟨fun x hx hxr => ?_, fun x y hxy => ?_, ?_⟩
    · obtain ⟨y, hy⟩ := hup x hx hxr
      simp only [hy, Option.getD_some]
      exact ⟨(hedge x y hy).1 hx, (hadj x y).2 (.inl hy), hd x y hy⟩
    · exact ((hadj x y).1 hxy).imp (hdown x y) (hdown y x)
    · exact ⟨nodes.toFinset.sup d, fun x hx => Finset.le_sup (List.mem_toFinset.2 hx)⟩
  exact hrooted.rootable (fun x y hxy => (hadj y x).2 ((hadj x y).1 hxy).symm) a ha

end

end Tree
