import Ftb.Lib.Journal

/-!
# Lock discipline

The operations on locks as a journal: `Op.exec` is the locks held after an operation, with no value
where a lock is taken that is held, or released that is not. `Balanced ops`: from no lock to no
lock.

`Keeps held p held'`: in every run of `p` with a result, the operations lead from the locks `held`
to the locks `held'`. `Breaks held p`: in every such run some operation is not allowed.
-/

open Journal

namespace Locks

universe u

inductive Op (L : Type u)
  | lock (l : L)
  | unlock (l : L)
  deriving DecidableEq

section
variable {L : Type u} [DecidableEq L]

/-- The locks held after an operation. -/
def Op.exec : Op L → List L → Option (List L)
  | .lock l, held => if l ∈ held then none else some (l :: held)
  | .unlock l, held => if l ∈ held then some (held.erase l) else none

/-- No lock is taken that is held, none is released that is not held, and none is held at the
end. -/
def Balanced (ops : List (Op L)) : Prop := follow Op.exec ops (some []) = some []

instance (ops : List (Op L)) : Decidable (Balanced ops) :=
  inferInstanceAs (Decidable (follow Op.exec ops (some []) = some []))

/-- What leads from no lock to no lock can be left out before anything. -/
theorem Balanced.append_iff {ops : List (Op L)} (h : Balanced ops) (ops' : List (Op L)) :
    Balanced (ops ++ ops') ↔ Balanced ops' := by
  have h : follow Op.exec ops (some []) = some [] := h
  unfold Balanced
  rw [follow_append, h]

end

def lock {L S : Type u} (l : L) : Prog (Op L) S PUnit := Prog.emit (.lock l)

def unlock {L S : Type u} (l : L) : Prog (Op L) S PUnit := Prog.emit (.unlock l)

@[simp] theorem erase_lock {L S : Type u} (l : L) (s : S) :
    (lock l : Prog (Op L) S PUnit).erase s = some (⟨⟩, s) := rfl

@[simp] theorem erase_unlock {L S : Type u} (l : L) (s : S) :
    (unlock l : Prog (Op L) S PUnit).erase s = some (⟨⟩, s) := rfl

/-! ## The rules -/

section
variable {L S T α β : Type u} [DecidableEq L] {held mid held' : List L}

/-- In every run with a result, the operations lead from the locks `held` to the locks `held'`. -/
def Keeps (held : List L) (p : Prog (Op L) S α) (held' : List L) : Prop :=
  Hoare Op.exec (fun _ o => o = some held) p fun _ _ o => o = some held'

/-- In every run with a result, some operation is not allowed. -/
def Breaks (held : List L) (p : Prog (Op L) S α) : Prop :=
  Hoare Op.exec (fun _ o => o = some held) p fun _ _ o => o = none

theorem Keeps.pure (a : α) : Keeps held (pure a : Prog (Op L) S α) held :=
  Hoare.pure fun _ _ h => h

theorem Keeps.bind {p : Prog (Op L) S α} {f : α → Prog (Op L) S β} (hp : Keeps held p mid)
    (hf : ∀ a, Keeps mid (f a) held') : Keeps held (p >>= f) held' :=
  Hoare.bind hp hf

theorem Keeps.lock {l : L} (h : l ∉ held) :
    Keeps held (Locks.lock l : Prog (Op L) S PUnit) (l :: held) := by
  refine Hoare.emit fun s o ho => ?_
  simp [ho, Op.exec, h]

theorem Keeps.unlock {l : L} : Keeps (l :: held) (Locks.unlock l : Prog (Op L) S PUnit) held := by
  refine Hoare.emit fun s o ho => ?_
  simp [ho, Op.exec]

theorem Keeps.lift (f : S → Option (α × S)) : Keeps held (Prog.lift f : Prog (Op L) S α) held :=
  Hoare.lift fun _ _ h _ _ _ => h

theorem Keeps.undefined : Keeps held (Prog.undefined : Prog (Op L) S α) held' :=
  Hoare.undefined

theorem Keeps.within {t : T} {put : T → S → S} {p : Prog (Op L) T α} (hp : Keeps held p held') :
    Keeps held (Prog.within t put p) held' :=
  Hoare.within hp (fun _ _ h => h) fun _ _ _ _ _ _ h => h

/-- Taking a lock, then what is done with it. -/
theorem Keeps.lock_bind {l : L} {f : PUnit → Prog (Op L) S β} (h : l ∉ held)
    (hf : Keeps (l :: held) (f ⟨⟩) held') : Keeps held (Locks.lock l >>= f) held' :=
  (Keeps.lock h).bind fun _ => hf

/-- Releasing the lock taken last, then what is done without it. -/
theorem Keeps.unlock_bind {l : L} {f : PUnit → Prog (Op L) S β} (hf : Keeps held (f ⟨⟩) held') :
    Keeps (l :: held) (Locks.unlock l >>= f) held' :=
  Keeps.unlock.bind fun _ => hf

theorem Keeps.lift_bind {g : S → Option (α × S)} {f : α → Prog (Op L) S β}
    (hf : ∀ a, Keeps held (f a) held') : Keeps held (Prog.lift g >>= f) held' :=
  (Keeps.lift g).bind hf

theorem Keeps.ite {c : Prop} [Decidable c] {p q : Prog (Op L) S α} (hp : c → Keeps held p held')
    (hq : ¬c → Keeps held q held') : Keeps held (if c then p else q) held' :=
  Hoare.ite hp hq

/-- A lock that is not held is not released. -/
theorem Breaks.unlock_bind {l : L} {f : PUnit → Prog (Op L) S β} (h : l ∉ held) :
    Breaks held (Locks.unlock l >>= f) := by
  have hl : Breaks held (Locks.unlock l : Prog (Op L) S PUnit) := by
    refine Hoare.emit fun s o ho => ?_
    simp [ho, Op.exec, h]
  exact Hoare.bind hl fun _ => Hoare.broken _

theorem Keeps.bind_breaks {p : Prog (Op L) S α} {f : α → Prog (Op L) S β} (hp : Keeps held p mid)
    (hf : ∀ a, Breaks mid (f a)) : Breaks held (p >>= f) :=
  Hoare.bind hp hf

theorem Breaks.not_balanced {p : Prog (Op L) S α} (hp : Breaks [] p) {s s' : S} {a : α}
    {ops : List (Op L)} (h : p s = some (a, s', ops)) : ¬Balanced ops := by
  unfold Balanced
  rw [show follow Op.exec ops (some []) = none from hp s _ rfl a s' ops h]
  simp

/-- A program that keeps the locks as they are is balanced on its own. -/
theorem Keeps.balanced {p : Prog (Op L) S α} (hp : Keeps [] p []) {s s' : S} {a : α}
    {ops : List (Op L)} (h : p s = some (a, s', ops)) : Balanced ops :=
  hp s _ rfl a s' ops h

end

end Locks
