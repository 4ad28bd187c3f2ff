import Mathlib.Data.List.Basic

/-!
# Programs with a journal

`Prog O S α`: a program over states `S` that writes down its operations `O`, in order. A result
`none` is undefined behaviour. `Prog.erase` forgets the operations.

A discipline for the operations is a partial function `exec : O → H → Option H`: what an operation
makes of what is held, and no value where it is not allowed. `follow exec ops o`: what is held after
`ops`, and `none` once one of them was not allowed. `Hoare exec P p Q` is the triple over the state
and what is held; its rules follow the program, and `Hoare.broken`: what was not allowed stays so.
-/

namespace Journal

universe u

/-- The value of a run, the state it leaves and its operations. -/
def Prog (O S α : Type u) : Type u := S → Option (α × S × List O)

namespace Prog

variable {O S T α β : Type u}

instance : Monad (Prog O S) where
  pure a := fun s => some (a, s, [])
  bind p f := fun s => (p s).bind fun r => (f r.1 r.2.1).map fun q => (q.1, q.2.1, r.2.2 ++ q.2.2)

/-- One operation. -/
def emit (op : O) : Prog O S PUnit := fun s => some (⟨⟩, s, [op])

/-- A step without an operation. -/
def lift (f : S → Option (α × S)) : Prog O S α := fun s => (f s).map fun r => (r.1, r.2, [])

def get : Prog O S S := lift fun s => some (s, s)

def modify (f : S → S) : Prog O S PUnit := lift fun s => some (⟨⟩, f s)

def undefined : Prog O S α := lift fun _ => none

/-- A program over a part `t` of the state, which `put` writes back. -/
def within (t : T) (put : T → S → S) (p : Prog O T α) : Prog O S α :=
  fun s => (p t).map fun r => (r.1, put r.2.1 s, r.2.2)

theorem bind_run (p : Prog O S α) (f : α → Prog O S β) (s : S) :
    (p >>= f) s =
      (p s).bind fun r => (f r.1 r.2.1).map fun q => (q.1, q.2.1, r.2.2 ++ q.2.2) := rfl

/-- The runs of a sequence are those of its parts. -/
theorem bind_eq_some {p : Prog O S α} {f : α → Prog O S β} {s s' : S} {b : β} {ops : List O} :
    (p >>= f) s = some (b, s', ops) ↔
      ∃ a mid t u, p s = some (a, mid, t) ∧ f a mid = some (b, s', u) ∧ ops = t ++ u := by
  rw [bind_run]
  constructor
  · intro h
    obtain ⟨⟨a, mid, t⟩, hp, h⟩ := Option.bind_eq_some_iff.1 h
    obtain ⟨⟨b', s'', u⟩, hf, h⟩ := Option.map_eq_some_iff.1 h
    cases h
    exact ⟨a, mid, t, u, hp, hf, rfl⟩
  · intro ⟨a, mid, t, u, hp, hf, h⟩
    simp [hp, hf, h]

/-- A step without operations adds nothing. -/
theorem lift_bind_eq_some {g : S → Option (α × S)} {f : α → Prog O S β} {s : S}
    {r : β × S × List O} :
    (lift g >>= f) s = some r ↔ ∃ a mid, g s = some (a, mid) ∧ f a mid = some r := by
  obtain ⟨b, s', ops⟩ := r
  rw [bind_eq_some]
  constructor
  · intro ⟨a, mid, t, u, hg, hf, h⟩
    obtain ⟨q, hq, hr⟩ := Option.map_eq_some_iff.1 hg
    cases hr
    subst h
    exact ⟨q.1, q.2, hq, hf⟩
  · intro ⟨a, mid, hg, hf⟩
    exact ⟨a, mid, [], ops, by simp [lift, hg], hf, rfl⟩

/-! ### Erasure -/

/-- The program without its journal. -/
def erase (p : Prog O S α) (s : S) : Option (α × S) := (p s).map fun r => (r.1, r.2.1)

theorem erase_of_run {p : Prog O S α} {s s' : S} {a : α} {ops : List O}
    (h : p s = some (a, s', ops)) : p.erase s = some (a, s') := by
  unfold erase
  rw [h]
  rfl

@[simp] theorem erase_pure (a : α) (s : S) : (pure a : Prog O S α).erase s = some (a, s) := rfl

@[simp] theorem erase_bind (p : Prog O S α) (f : α → Prog O S β) (s : S) :
    (p >>= f).erase s = (p.erase s).bind fun r => (f r.1).erase r.2 := by
  unfold erase
  rw [bind_run]
  cases p s with
  | none => rfl
  | some r => simp [Function.comp_def]

@[simp] theorem erase_emit (op : O) (s : S) : (emit op : Prog O S PUnit).erase s = some (⟨⟩, s) :=
  rfl

@[simp] theorem erase_lift (f : S → Option (α × S)) (s : S) :
    (lift f : Prog O S α).erase s = f s := by
  unfold erase lift
  cases f s <;> rfl

@[simp] theorem erase_get (s : S) : (get : Prog O S S).erase s = some (s, s) := rfl

@[simp] theorem erase_modify (f : S → S) (s : S) :
    (modify f : Prog O S PUnit).erase s = some (⟨⟩, f s) := rfl

@[simp] theorem erase_undefined (s : S) : (undefined : Prog O S α).erase s = none := rfl

@[simp] theorem erase_ite (c : Prop) [Decidable c] (p q : Prog O S α) (s : S) :
    (if c then p else q).erase s = if c then p.erase s else q.erase s := by
  split <;> rfl

@[simp] theorem erase_within (t : T) (put : T → S → S) (p : Prog O T α) (s : S) :
    (within t put p).erase s = (p.erase t).map fun r => (r.1, put r.2 s) := by
  unfold erase within
  cases p t <;> rfl

end Prog

/-! ## Disciplines -/

section
variable {O H : Type u} (exec : O → H → Option H)

/-- What is held after the operations, and `none` once one was not allowed. -/
def follow (ops : List O) (held : Option H) : Option H :=
  ops.foldl (fun o op => o.bind (exec op)) held

@[simp] theorem follow_nil (held : Option H) : follow exec [] held = held := rfl

@[simp] theorem follow_cons (op : O) (ops : List O) (held : Option H) :
    follow exec (op :: ops) held = follow exec ops (held.bind (exec op)) := rfl

theorem follow_append (ops ops' : List O) (held : Option H) :
    follow exec (ops ++ ops') held = follow exec ops' (follow exec ops held) :=
  List.foldl_append ..

@[simp] theorem follow_none (ops : List O) : follow exec ops none = none := by
  induction ops with
  | nil => rfl
  | cons op ops ih => exact ih

end

section
variable {O S T H α β : Type u} {exec : O → H → Option H} {P : S → Option H → Prop}

/-- From a state and what is held with `P`, every run with a value ends with `Q`. -/
def Hoare (exec : O → H → Option H) (P : S → Option H → Prop) (p : Prog O S α)
    (Q : α → S → Option H → Prop) : Prop :=
  ∀ s held, P s held → ∀ a s' ops, p s = some (a, s', ops) → Q a s' (follow exec ops held)

theorem Hoare.conseq {p : Prog O S α} {P' : S → Option H → Prop} {Q Q' : α → S → Option H → Prop}
    (hp : Hoare exec P p Q) (hP : ∀ s held, P' s held → P s held)
    (hQ : ∀ a s held, Q a s held → Q' a s held) : Hoare exec P' p Q' :=
  fun s held h a s' ops hr => hQ _ _ _ (hp s held (hP s held h) a s' ops hr)

theorem Hoare.pure {Q : α → S → Option H → Prop} {a : α} (h : ∀ s held, P s held → Q a s held) :
    Hoare exec P (pure a) Q := by
  intro s held hs b s' ops hr
  cases hr
  exact h s held hs

theorem Hoare.bind {p : Prog O S α} {f : α → Prog O S β} {R : α → S → Option H → Prop}
    {Q : β → S → Option H → Prop} (hp : Hoare exec P p R) (hf : ∀ a, Hoare exec (R a) (f a) Q) :
    Hoare exec P (p >>= f) Q := by
  intro s held hs b s' ops hr
  obtain ⟨a, mid, t, u, ht, hu, rfl⟩ := Prog.bind_eq_some.1 hr
  rw [follow_append]
  exact hf a mid _ (hp s held hs a mid t ht) b s' u hu

theorem Hoare.emit {op : O} {Q : PUnit → S → Option H → Prop}
    (h : ∀ s held, P s held → Q ⟨⟩ s (held.bind (exec op))) : Hoare exec P (Prog.emit op) Q := by
  intro s held hs a s' ops hr
  cases hr
  exact h s held hs

theorem Hoare.lift {f : S → Option (α × S)} {Q : α → S → Option H → Prop}
    (h : ∀ s held, P s held → ∀ a s', f s = some (a, s') → Q a s' held) :
    Hoare exec P (Prog.lift f) Q := by
  intro s held hs a s' ops hr
  obtain ⟨q, hq, hr⟩ := Option.map_eq_some_iff.1 hr
  cases hr
  exact h s held hs _ _ hq

theorem Hoare.get : Hoare exec P Prog.get fun _ => P := by
  refine Hoare.lift fun s held h a s' hr => ?_
  cases hr
  exact h

theorem Hoare.modify {f : S → S} {Q : PUnit → S → Option H → Prop}
    (h : ∀ s held, P s held → Q ⟨⟩ (f s) held) : Hoare exec P (Prog.modify f) Q := by
  refine Hoare.lift fun s held hs a s' hr => ?_
  cases hr
  exact h s held hs

/-- A fact that the precondition implies. -/
theorem Hoare.of_pre {p : Prog O S α} {c : Prop} {Q : α → S → Option H → Prop}
    (hc : ∀ s held, P s held → c) (h : c → Hoare exec P p Q) : Hoare exec P p Q :=
  fun s held hs => h (hc s held hs) s held hs

theorem Hoare.undefined {Q : α → S → Option H → Prop} : Hoare exec P Prog.undefined Q := by
  intro s held hs a s' ops hr
  cases hr

theorem Hoare.within {t : T} {put : T → S → S} {p : Prog O T α} {R : T → Option H → Prop}
    {R' : α → T → Option H → Prop} {Q : α → S → Option H → Prop} (hp : Hoare exec R p R')
    (hP : ∀ s held, P s held → R t held)
    (hQ : ∀ s held, P s held → ∀ a t' held', R' a t' held' → Q a (put t' s) held') :
    Hoare exec P (Prog.within t put p) Q := by
  intro s held hs a s' ops hr
  obtain ⟨⟨a', t', ops'⟩, hq, hr⟩ := Option.map_eq_some_iff.1 hr
  cases hr
  exact hQ s held hs _ _ _ (hp t held (hP s held hs) _ _ _ hq)

theorem Hoare.ite {c : Prop} [Decidable c] {p q : Prog O S α} {Q : α → S → Option H → Prop}
    (hp : c → Hoare exec P p Q) (hq : ¬c → Hoare exec P q Q) :
    Hoare exec P (if c then p else q) Q := by
  by_cases h : c
  · rw [if_pos h]
    exact hp h
  · rw [if_neg h]
    exact hq h

/-- What was not allowed stays so. -/
theorem Hoare.broken (p : Prog O S α) :
    Hoare exec (fun _ held => held = none) p fun _ _ held => held = none := by
  intro s held hs a s' ops _
  rw [hs, follow_none]

end

/-! ## The journal so far -/

section
variable {O S α β : Type u} {P : S → List O → Prop}

/-- The discipline that allows everything, and holds what was done. -/
def record (op : O) (past : List O) : Option (List O) := some (past ++ [op])

theorem follow_record (ops past : List O) :
    follow record ops (some past) = some (past ++ ops) := by
  induction ops generalizing past with
  | nil => rw [follow_nil, List.append_nil]
  | cons op ops ih =>
    rw [follow_cons]
    exact (ih (past ++ [op])).trans (by rw [List.append_assoc, List.singleton_append])

/-- The state and what was done before it, with `P`. -/
def Past (P : S → List O → Prop) (s : S) (o : Option (List O)) : Prop :=
  ∃ past, o = some past ∧ P s past

/-- A triple over the journal is a statement about the runs. -/
theorem hoare_past_iff {p : Prog O S α} {Q : α → S → List O → Prop} :
    Hoare record (Past P) p (fun a => Past (Q a)) ↔
      ∀ s past, P s past → ∀ a s' ops, p s = some (a, s', ops) → Q a s' (past ++ ops) := by
  constructor
  · intro h s past hP a s' ops hr
    obtain ⟨past', heq, hQ⟩ := h s (some past) ⟨past, rfl, hP⟩ a s' ops hr
    rw [follow_record] at heq
    cases heq
    exact hQ
  · rintro h s o ⟨past, rfl, hP⟩ a s' ops hr
    exact ⟨past ++ ops, follow_record ops past, h s past hP a s' ops hr⟩

theorem Hoare.past_conseq {p : Prog O S α} {P' : S → List O → Prop} {Q Q' : α → S → List O → Prop}
    (hp : Hoare record (Past P) p fun a => Past (Q a)) (hP : ∀ s past, P' s past → P s past)
    (hQ : ∀ a s past, Q a s past → Q' a s past) :
    Hoare record (Past P') p fun a => Past (Q' a) :=
  hp.conseq (fun s _ ⟨past, ho, h⟩ => ⟨past, ho, hP s past h⟩)
    fun a s _ ⟨past, ho, h⟩ => ⟨past, ho, hQ a s past h⟩

theorem Hoare.past_pure {Q : α → S → List O → Prop} {a : α} (h : ∀ s past, P s past → Q a s past) :
    Hoare record (Past P) (Pure.pure a) fun a => Past (Q a) :=
  Hoare.pure fun s _ ⟨past, ho, hP⟩ => ⟨past, ho, h s past hP⟩

theorem Hoare.past_lift {f : S → Option (α × S)} {Q : α → S → List O → Prop}
    (h : ∀ s past, P s past → ∀ a s', f s = some (a, s') → Q a s' past) :
    Hoare record (Past P) (Prog.lift f) fun a => Past (Q a) :=
  Hoare.lift fun s _ ⟨past, ho, hP⟩ a s' hf => ⟨past, ho, h s past hP a s' hf⟩

theorem Hoare.of_past {p : Prog O S α} {c : Prop} {Q : α → S → Option (List O) → Prop}
    (hc : ∀ s past, P s past → c) (h : c → Hoare record (Past P) p Q) : Hoare record (Past P) p Q :=
  Hoare.of_pre (fun s _ ⟨past, _, hP⟩ => hc s past hP) h

theorem Hoare.past_pre {p : Prog O S α} {P' : S → List O → Prop} {Q : α → S → Option (List O) → Prop}
    (hP : ∀ s past, P' s past → P s past) (hp : Hoare record (Past P) p Q) :
    Hoare record (Past P') p Q :=
  hp.conseq (fun s _ ⟨past, ho, h⟩ => ⟨past, ho, hP s past h⟩) fun _ _ _ h => h

/-- A fact beside the precondition. -/
theorem Hoare.past_and {p : Prog O S α} {c : Prop} {Q : α → S → Option (List O) → Prop}
    (h : c → Hoare record (Past P) p Q) : Hoare record (Past fun s past => c ∧ P s past) p Q :=
  fun s _ ⟨past, ho, hc, hP⟩ => h hc s _ ⟨past, ho, hP⟩

end

end Journal
