import Ftb.Tcp.Io

/-!
# The descriptors of the entries

`FdOp.exec` is what the descriptors allow: one is read, written and closed only while it is open,
and its entry is freed only once it is closed. `FTBNI_UTIL_READ` and `FTBNI_UTIL_WRITE` close the
descriptor of an entry when they set its `err_flag`, and whoever releases the entry closes it again
(`hoare_closeFree`).

`Sound k marks s o`: of the descriptors of the entries, those without `err_flag` are open and the
others are closed; some entry has the flag exactly when a read or a write failed, that is when
fewer than `k` of the outcomes to come fail; and the descriptors are not used wrongly unless one
did. The system calls, the two macros and the changes of the table keep it (the `hoare_` theorems).
-/

open FTB FTBU Journal

namespace FTBN.Io

/-- The descriptors that are open after an operation. -/
def FdOp.exec : FdOp → List Fd → Option (List Fd)
  | .obtain fd, held => if fd ∈ held then none else some (fd :: held)
  | .read fd _, held => if fd ∈ held then some held else none
  | .write fd _, held => if fd ∈ held then some held else none
  | .close fd, held => if fd ∈ held then some (held.erase fd) else none
  | .release fd, held => if fd ∈ held then none else some held

/-- From the descriptors `held`, every one is closed once, before its entry is released, and not
used after. -/
def ClosedOnce (held : List Fd) (ops : List FdOp) : Prop :=
  (follow FdOp.exec ops (some held)).isSome = true

instance (held : List Fd) (ops : List FdOp) : Decidable (ClosedOnce held ops) :=
  inferInstanceAs (Decidable (_ = true))

/-! ## The invariant -/

/-- What the descriptors depend on in an entry. -/
abbrev Mark := Fd × Bool

def ConnectionEntry.mark (entry : ConnectionEntry) : Mark := (entry.fd, entry.errFlag)

/-- The descriptors of the entries with the given marks, and `held` which are open. -/
structure Held (marks : List Mark) (s : Net) (held : List Fd) : Prop where
  nodup : held.Nodup
  distinct : (marks.map Prod.fst).Nodup
  isOpen : ∀ m ∈ marks, m.2 = false → m.1 ∈ held
  isClosed : ∀ m ∈ marks, m.2 = true → m.1 ∉ held
  fresh : ∀ m ∈ marks, m.1 < s.nextFd
  freshHeld : ∀ fd ∈ held, fd < s.nextFd
  listen : ∀ fd, s.listenFd = some fd → fd ∈ held ∧ ∀ m ∈ marks, m.1 ≠ fd

/-- How many of the outcomes to come fail. -/
def Net.failing (s : Net) : Nat := s.outcomes.countP Outcome.fails

def Sound (k : Nat) (marks : List Mark) (s : Net) : Option (List Fd) → Prop
  | none => s.failing < k
  | some held => Held marks s held ∧ (s.failing < k ↔ ∃ m ∈ marks, m.2 = true) ∧ s.failing ≤ k

/-- A read or a write just failed. -/
def Lost (k : Nat) (marks : List Mark) (s : Net) : Option (List Fd) → Prop
  | none => s.failing < k
  | some held => Held marks s held ∧ s.failing < k

/-- The connections are in the table, and nobody uses one. -/
def HasTable (table : List ConnectionEntry) (s : Net) : Prop :=
  s.connectionTable = some table ∧ ∀ entry ∈ table, entry.refCount = 0

/-- The table, and the entries: those of the table and those that are not in it yet, or no more. -/
def On (table : List ConnectionEntry) (k : Nat) (marks : List Mark) (s : Net)
    (o : Option (List Fd)) : Prop :=
  HasTable table s ∧ Sound k marks s o

theorem Held.perm {marks marks' : List Mark} {s : Net} {held : List Fd} (h : Held marks s held)
    (hp : marks.Perm marks') : Held marks' s held where
  nodup := h.nodup
  distinct := (hp.map _).nodup_iff.1 h.distinct
  isOpen m hm := h.isOpen m (hp.mem_iff.2 hm)
  isClosed m hm := h.isClosed m (hp.mem_iff.2 hm)
  fresh m hm := h.fresh m (hp.mem_iff.2 hm)
  freshHeld := h.freshHeld
  listen fd hfd := ⟨(h.listen fd hfd).1, fun m hm => (h.listen fd hfd).2 m (hp.mem_iff.2 hm)⟩

theorem Sound.perm {k : Nat} {marks marks' : List Mark} {s : Net} {o : Option (List Fd)}
    (h : Sound k marks s o) (hp : marks.Perm marks') : Sound k marks' s o := by
  cases o with
  | none => exact h
  | some held =>
    obtain ⟨hheld, hfail, hle⟩ := h
    refine ⟨hheld.perm hp, ?_, hle⟩
    rw [hfail]
    constructor
    · intro ⟨m, hm, hf⟩
      exact ⟨m, hp.mem_iff.1 hm, hf⟩
    · intro ⟨m, hm, hf⟩
      exact ⟨m, hp.mem_iff.2 hm, hf⟩

/-- The invariant reads the outcomes and which descriptors there are, not the table. -/
theorem Sound.congr {k : Nat} {marks : List Mark} {s s' : Net} {o : Option (List Fd)}
    (h : Sound k marks s o) (hf : s'.failing = s.failing) (hn : s'.nextFd = s.nextFd)
    (hl : s'.listenFd = s.listenFd) : Sound k marks s' o := by
  cases o with
  | none => exact lt_of_eq_of_lt hf h
  | some held =>
    obtain ⟨hheld, hfail, hle⟩ := h
    refine ⟨⟨hheld.nodup, hheld.distinct, hheld.isOpen, hheld.isClosed, ?_, ?_, ?_⟩, ?_, ?_⟩
    · rw [hn]
      exact hheld.fresh
    · rw [hn]
      exact hheld.freshHeld
    · rw [hl]
      exact hheld.listen
    · rwa [hf]
    · rwa [hf]

/-! ## The operations -/

/-- An open descriptor is read or written. -/
theorem bind_use {marks : List Mark} {s : Net} {o : Option (List Fd)} {fd : Fd} {op : FdOp}
    (hop : ∀ held, fd ∈ held → op.exec held = some held)
    (h : ∀ held, o = some held → Held ((fd, false) :: marks) s held) :
    o.bind op.exec = o := by
  cases o with
  | none => rfl
  | some held => exact hop held ((h held rfl).isOpen (fd, false) (List.mem_cons_self ..) rfl)

/-- The descriptor of a failed read or write is closed, and its entry gets the flag. -/
theorem Lost.close {k : Nat} {marks : List Mark} {s : Net} {o : Option (List Fd)} {fd : Fd}
    (h : Lost k ((fd, false) :: marks) s o) :
    Sound k ((fd, true) :: marks) s (o.bind (FdOp.exec (.close fd))) := by
  cases o with
  | none => exact h
  | some held =>
    obtain ⟨hheld, hlt⟩ := h
    have hfd : fd ∈ held := hheld.isOpen (fd, false) (List.mem_cons_self ..) rfl
    have hne : ∀ m ∈ marks, m.1 ≠ fd := fun m hm he =>
      (List.nodup_cons.1 hheld.distinct).1 (List.mem_map.2 ⟨m, hm, he⟩)
    have hexec : FdOp.exec (.close fd) held = some (held.erase fd) := if_pos hfd
    rw [Option.bind_some, hexec]
    refine ⟨⟨hheld.nodup.erase fd, hheld.distinct, ?_, ?_, ?_, ?_, ?_⟩, ?_, by omega⟩
    · intro m hm hf
      rcases List.mem_cons.1 hm with rfl | hm
      · cases hf
      · have hopen := hheld.isOpen m (List.mem_cons_of_mem _ hm) hf
        exact (List.mem_erase_of_ne (hne m hm)).2 hopen
    · intro m hm hf
      rcases List.mem_cons.1 hm with rfl | hm
      · exact hheld.nodup.not_mem_erase
      · have hclosed := hheld.isClosed m (List.mem_cons_of_mem _ hm) hf
        exact fun hmem => hclosed (List.mem_of_mem_erase hmem)
    · intro m hm
      rcases List.mem_cons.1 hm with rfl | hm
      · exact hheld.fresh (fd, false) (List.mem_cons_self ..)
      · exact hheld.fresh m (List.mem_cons_of_mem _ hm)
    · exact fun x hx => hheld.freshHeld x (List.mem_of_mem_erase hx)
    · intro x hx
      obtain ⟨hmem, hother⟩ := hheld.listen x hx
      have hxfd : fd ≠ x := hother (fd, false) (List.mem_cons_self ..)
      refine ⟨(List.mem_erase_of_ne hxfd.symm).2 hmem, fun m hm => ?_⟩
      rcases List.mem_cons.1 hm with rfl | hm
      · exact hxfd
      · exact hother m (List.mem_cons_of_mem _ hm)
    · exact iff_of_true hlt ⟨(fd, true), List.mem_cons_self .., rfl⟩

/-- An entry whose descriptor is open is closed and freed; one whose descriptor is closed already is
closed again. -/
theorem Sound.closeFree {k : Nat} {marks : List Mark} {s : Net} {o : Option (List Fd)} {m : Mark}
    (h : Sound k (m :: marks) s o) :
    Sound k marks s ((o.bind (FdOp.exec (.close m.1))).bind (FdOp.exec (.release m.1))) := by
  cases o with
  | none => exact h
  | some held =>
    obtain ⟨hheld, hfail, hle⟩ := h
    obtain ⟨fd, flag⟩ := m
    cases flag with
    | true =>
      have hclosed : fd ∉ held := hheld.isClosed (fd, true) (List.mem_cons_self ..) rfl
      have hexec : FdOp.exec (.close fd) held = none := if_neg hclosed
      rw [Option.bind_some, hexec]
      exact hfail.2 ⟨(fd, true), List.mem_cons_self .., rfl⟩
    | false =>
      have hfd : fd ∈ held := hheld.isOpen (fd, false) (List.mem_cons_self ..) rfl
      have hne : ∀ m ∈ marks, m.1 ≠ fd := fun m hm he =>
        (List.nodup_cons.1 hheld.distinct).1 (List.mem_map.2 ⟨m, hm, he⟩)
      have hclose : FdOp.exec (.close fd) held = some (held.erase fd) := if_pos hfd
      have hrelease : FdOp.exec (.release fd) (held.erase fd) = some (held.erase fd) :=
        if_neg hheld.nodup.not_mem_erase
      rw [Option.bind_some, hclose, Option.bind_some, hrelease]
      refine ⟨⟨hheld.nodup.erase fd, (List.nodup_cons.1 hheld.distinct).2, ?_, ?_, ?_, ?_, ?_⟩, ?_,
        hle⟩
      · intro m hm hf
        have hopen := hheld.isOpen m (List.mem_cons_of_mem _ hm) hf
        exact (List.mem_erase_of_ne (hne m hm)).2 hopen
      · intro m hm hf hmem
        exact hheld.isClosed m (List.mem_cons_of_mem _ hm) hf (List.mem_of_mem_erase hmem)
      · exact fun m hm => hheld.fresh m (List.mem_cons_of_mem _ hm)
      · exact fun x hx => hheld.freshHeld x (List.mem_of_mem_erase hx)
      · intro x hx
        obtain ⟨hmem, hother⟩ := hheld.listen x hx
        have hxfd : fd ≠ x := hother (fd, false) (List.mem_cons_self ..)
        exact ⟨(List.mem_erase_of_ne hxfd.symm).2 hmem, fun m hm =>
          hother m (List.mem_cons_of_mem _ hm)⟩
      · rw [hfail]
        constructor
        · intro ⟨m, hm, hf⟩
          rcases List.mem_cons.1 hm with rfl | hm
          · cases hf
          · exact ⟨m, hm, hf⟩
        · intro ⟨m, hm, hf⟩
          exact ⟨m, List.mem_cons_of_mem _ hm, hf⟩

/-- A descriptor that was not there before. -/
theorem Sound.obtain {k : Nat} {marks : List Mark} {s : Net} {o : Option (List Fd)}
    (h : Sound k marks s o) :
    Sound k ((s.nextFd, false) :: marks) { s with nextFd := s.nextFd + 1 }
      (o.bind (FdOp.exec (.obtain s.nextFd))) := by
  cases o with
  | none => exact h
  | some held =>
    obtain ⟨hheld, hfail, hle⟩ := h
    have hnew : s.nextFd ∉ held := fun hmem => Nat.lt_irrefl _ (hheld.freshHeld _ hmem)
    have hexec : FdOp.exec (.obtain s.nextFd) held = some (s.nextFd :: held) := if_neg hnew
    rw [Option.bind_some, hexec]
    refine ⟨⟨List.nodup_cons.2 ⟨hnew, hheld.nodup⟩, ?_, ?_, ?_, ?_, ?_, ?_⟩, ?_, hle⟩
    · refine List.nodup_cons.2 ⟨fun hmem => ?_, hheld.distinct⟩
      obtain ⟨m, hm, he⟩ := List.mem_map.1 hmem
      exact Nat.ne_of_lt (hheld.fresh m hm) he
    · intro m hm hf
      rcases List.mem_cons.1 hm with rfl | hm
      · exact List.mem_cons_self ..
      · exact List.mem_cons_of_mem _ (hheld.isOpen m hm hf)
    · intro m hm hf hmem
      rcases List.mem_cons.1 hm with rfl | hm
      · cases hf
      · rcases List.mem_cons.1 hmem with he | hmem
        · exact Nat.ne_of_lt (hheld.fresh m hm) he
        · exact hheld.isClosed m hm hf hmem
    · intro m hm
      show m.1 < s.nextFd + 1
      rcases List.mem_cons.1 hm with rfl | hm
      · exact Nat.lt_succ_self _
      · exact Nat.lt_succ_of_lt (hheld.fresh m hm)
    · intro x hx
      show x < s.nextFd + 1
      rcases List.mem_cons.1 hx with rfl | hx
      · exact Nat.lt_succ_self _
      · exact Nat.lt_succ_of_lt (hheld.freshHeld x hx)
    · intro x hx
      obtain ⟨hmem, hother⟩ := hheld.listen x hx
      refine ⟨List.mem_cons_of_mem _ hmem, fun m hm => ?_⟩
      rcases List.mem_cons.1 hm with rfl | hm
      · exact (Nat.ne_of_lt (hheld.freshHeld x hmem)).symm
      · exact hother m hm
    · show s.failing < k ↔ _
      rw [hfail]
      constructor
      · intro ⟨m, hm, hf⟩
        exact ⟨m, List.mem_cons_of_mem _ hm, hf⟩
      · intro ⟨m, hm, hf⟩
        rcases List.mem_cons.1 hm with rfl | hm
        · cases hf
        · exact ⟨m, hm, hf⟩

/-! ## The system calls -/

section
variable {table : List ConnectionEntry} {k : Nat} {marks : List Mark} {fd : Fd}

/-- What is left behind an outcome. -/
def After (table : List ConnectionEntry) (k : Nat) (marks : List Mark) (failed : Bool) (s : Net)
    (o : Option (List Fd)) : Prop :=
  HasTable table s ∧ if failed then Lost k marks s o else Sound k marks s o

theorem hoare_nextOutcome :
    Hoare FdOp.exec (On table k marks) nextOutcome fun r => After table k marks r.fails := by
  refine Hoare.lift fun s o h r s' hr => ?_
  obtain ⟨htable, hsound⟩ := h
  cases hs : s.outcomes with
  | nil => simp [hs] at hr
  | cons x outcomes =>
    rw [hs] at hr
    cases hr
    refine ⟨htable, ?_⟩
    have hcount : s.failing =
        Net.failing { s with outcomes } + if r.fails then 1 else 0 := by
      simp [Net.failing, hs, List.countP_cons]
    cases hr : r.fails with
    | true =>
      rw [hr, if_pos rfl] at hcount
      rw [if_pos rfl]
      cases o with
      | none =>
        have hlt : s.failing < k := hsound
        show Net.failing { s with outcomes } < k
        omega
      | some held =>
        obtain ⟨hheld, -, hle⟩ := hsound
        exact ⟨⟨hheld.nodup, hheld.distinct, hheld.isOpen, hheld.isClosed, hheld.fresh,
          hheld.freshHeld, hheld.listen⟩, by omega⟩
    | false =>
      rw [hr, if_neg Bool.false_ne_true] at hcount
      rw [if_neg Bool.false_ne_true]
      exact hsound.congr (by omega) rfl rfl

/-- The result of a read is a failure. -/
def ReadResult.fails (r : ReadResult) : Bool := Outcome.fails (.read r)

def WriteResult.fails (r : WriteResult) : Bool := Outcome.fails (.write r)

theorem After.held {failed : Bool} {s : Net} {o : Option (List Fd)} {held : List Fd}
    (h : After table k marks failed s o) (ho : o = some held) : Held marks s held := by
  obtain ⟨-, h⟩ := h
  subst ho
  cases failed with
  | true => exact h.1
  | false => exact h.1

/-- Using an open descriptor changes nothing. -/
theorem hoare_use (op : FdOp) (hop : ∀ held, fd ∈ held → op.exec held = some held)
    (failed : Bool) :
    Hoare FdOp.exec (After table k ((fd, false) :: marks) failed) (Prog.emit op)
      fun _ => After table k ((fd, false) :: marks) failed := by
  refine Hoare.emit fun s o h => ?_
  rw [bind_use hop fun held ho => h.held ho]
  exact h

theorem hoare_sysRead :
    Hoare FdOp.exec (On table k ((fd, false) :: marks)) (sysRead fd)
      fun r => After table k ((fd, false) :: marks) r.fails := by
  have huse (bytes : List UInt8) :=
    @hoare_use table k marks fd (.read fd bytes) fun held h => if_pos h
  refine hoare_nextOutcome.bind fun x => ?_
  cases x with
  | read r =>
    cases r with
    | got bytes => exact (huse bytes _).bind fun _ => Hoare.pure fun _ _ h => h
    | eof => exact (huse [] _).bind fun _ => Hoare.pure fun _ _ h => h
    | again => exact (huse [] _).bind fun _ => Hoare.pure fun _ _ h => h
    | fail => exact (huse [] _).bind fun _ => Hoare.pure fun _ _ h => h
  | _ => exact Hoare.undefined

theorem hoare_sysWrite (bytes : List UInt8) :
    Hoare FdOp.exec (On table k ((fd, false) :: marks)) (sysWrite fd bytes)
      fun r => After table k ((fd, false) :: marks) r.fails := by
  have huse (bytes : List UInt8) :=
    @hoare_use table k marks fd (.write fd bytes) fun held h => if_pos h
  refine hoare_nextOutcome.bind fun x => ?_
  cases x with
  | write r =>
    cases r with
    | wrote n => exact (huse _ _).bind fun _ => Hoare.pure fun _ _ h => h
    | again => exact (huse [] _).bind fun _ => Hoare.pure fun _ _ h => h
    | fail => exact (huse [] _).bind fun _ => Hoare.pure fun _ _ h => h
  | _ => exact Hoare.undefined

/-- The `close` of `FTBNI_UTIL_READ` and `FTBNI_UTIL_WRITE`. -/
theorem hoare_closeFailed :
    Hoare FdOp.exec (After table k ((fd, false) :: marks) true) (Prog.emit (.close fd))
      fun _ => On table k ((fd, true) :: marks) :=
  Hoare.emit fun _ _ h => ⟨h.1, Lost.close h.2⟩

theorem hoare_closeFree (entry : ConnectionEntry) :
    Hoare FdOp.exec (On table k (entry.mark :: marks)) (closeFree entry)
      fun _ => On table k marks := by
  have hclose : Hoare FdOp.exec (On table k (entry.mark :: marks)) (Prog.emit (.close entry.fd))
      fun _ s o => HasTable table s ∧
        Sound k marks s (o.bind (FdOp.exec (.release entry.fd))) :=
    Hoare.emit fun _ _ h => ⟨h.1, h.2.closeFree⟩
  exact hclose.bind fun _ => Hoare.emit fun _ _ h => h

/-- The marks once `socket` or `accept` returned. -/
def OnNew (table : List ConnectionEntry) (k : Nat) (marks : List Mark) :
    Option Fd → Net → Option (List Fd) → Prop
  | none => On table k marks
  | some fd => On table k ((fd, false) :: marks)

theorem hoare_newFd :
    Hoare FdOp.exec (On table k marks) newFd fun fd => On table k ((fd, false) :: marks) := by
  intro s o h fd s' ops hr
  cases hr
  exact ⟨h.1, h.2.obtain⟩

theorem hoare_sysSocket : Hoare FdOp.exec (On table k marks) sysSocket (OnNew table k marks) := by
  refine hoare_nextOutcome.bind fun x => ?_
  cases x with
  | socket ok =>
    cases ok with
    | true => exact hoare_newFd.bind fun fd => Hoare.pure fun _ _ h => h
    | false => exact Hoare.pure fun _ _ h => h
  | _ => exact Hoare.undefined

theorem hoare_sysAccept : Hoare FdOp.exec (On table k marks) sysAccept (OnNew table k marks) := by
  refine hoare_nextOutcome.bind fun x => ?_
  cases x with
  | accept ok =>
    cases ok with
    | true => exact hoare_newFd.bind fun fd => Hoare.pure fun _ _ h => h
    | false => exact Hoare.pure fun _ _ h => h
  | _ => exact Hoare.undefined

theorem hoare_sysSelect :
    Hoare FdOp.exec (On table k marks) sysSelect fun _ => On table k marks := by
  refine hoare_nextOutcome.bind fun x => ?_
  cases x with
  | select r => exact Hoare.pure fun _ _ h => h
  | _ => exact Hoare.undefined

theorem hoare_sysReach :
    Hoare FdOp.exec (On table k marks) sysReach fun _ => On table k marks := by
  refine hoare_nextOutcome.bind fun x => ?_
  cases x with
  | gethostbyname ok =>
    cases ok with
    | false => exact Hoare.pure fun _ _ h => h
    | true =>
      refine hoare_nextOutcome.bind fun x => ?_
      cases x with
      | setsockopt ok =>
        cases ok with
        | false => exact Hoare.pure fun _ _ h => h
        | true =>
          refine hoare_nextOutcome.bind fun x => ?_
          cases x with
          | connect ok => cases ok <;> exact Hoare.pure fun _ _ h => h
          | _ => exact Hoare.undefined
      | _ => exact Hoare.undefined
  | _ => exact Hoare.undefined

/-! ## The macros -/

theorem hoare_readLoop (n : Nat) (done rest : List UInt8) :
    Hoare FdOp.exec (On table k ((fd, false) :: marks)) (readLoop fd n done rest)
      fun r => On table k ((fd, r.1) :: marks) := by
  induction n generalizing done rest with
  | zero => exact Hoare.ite (fun _ => Hoare.pure fun _ _ h => h) fun _ => Hoare.undefined
  | succ n ih =>
    refine Hoare.ite (fun _ => Hoare.pure fun _ _ h => h) fun _ => hoare_sysRead.bind fun r => ?_
    cases r with
    | got bytes => exact Hoare.ite (fun _ => ih _ _) fun _ => Hoare.undefined
    | again => exact ih done rest
    | eof => exact hoare_closeFailed.bind fun _ => Hoare.pure fun _ _ h => h
    | fail => exact hoare_closeFailed.bind fun _ => Hoare.pure fun _ _ h => h

theorem hoare_writeLoop (n : Nat) (rest : List UInt8) :
    Hoare FdOp.exec (On table k ((fd, false) :: marks)) (writeLoop fd n rest)
      fun r => On table k ((fd, r) :: marks) := by
  induction n generalizing rest with
  | zero => exact Hoare.ite (fun _ => Hoare.pure fun _ _ h => h) fun _ => Hoare.undefined
  | succ n ih =>
    refine Hoare.ite (fun _ => Hoare.pure fun _ _ h => h) fun _ => ?_
    refine (hoare_sysWrite rest).bind fun r => ?_
    cases r with
    | wrote m => exact Hoare.ite (fun _ => ih _) fun _ => Hoare.undefined
    | again => exact ih rest
    | fail => exact hoare_closeFailed.bind fun _ => Hoare.pure fun _ _ h => h

/-- `conn`, where the flag may have been set. -/
structure Flagged (conn got : ConnectionEntry) : Prop where
  eq : got = { conn with errFlag := got.errFlag }
  flag : got.errFlag = false → conn.errFlag = false

theorem hoare_utilRead (conn : ConnectionEntry) (buf : List UInt8) :
    Hoare FdOp.exec (On table k (conn.mark :: marks)) (utilRead conn buf)
      fun r s o => Flagged conn r.1 ∧ On table k (r.1.mark :: marks) s o := by
  unfold utilRead
  cases hc : conn.errFlag with
  | true => exact Hoare.pure fun _ _ h => ⟨⟨rfl, id⟩, h⟩
  | false =>
    have hmark : conn.mark = (conn.fd, false) := by rw [ConnectionEntry.mark, hc]
    rw [hmark]
    refine Hoare.get.bind fun s => (hoare_readLoop _ _ _).bind fun r => ?_
    exact Hoare.pure fun _ _ h => ⟨⟨rfl, fun _ => hc⟩, h⟩

theorem hoare_utilWrite (conn : ConnectionEntry) (bytes : List UInt8) :
    Hoare FdOp.exec (On table k (conn.mark :: marks)) (utilWrite conn bytes)
      fun r s o => Flagged conn r ∧ On table k (r.mark :: marks) s o := by
  unfold utilWrite
  cases hc : conn.errFlag with
  | true => exact Hoare.pure fun _ _ h => ⟨⟨rfl, id⟩, h⟩
  | false =>
    have hmark : conn.mark = (conn.fd, false) := by rw [ConnectionEntry.mark, hc]
    rw [hmark]
    refine Hoare.get.bind fun s => (hoare_writeLoop _ _).bind fun r => ?_
    exact Hoare.pure fun _ _ h => ⟨⟨rfl, fun _ => hc⟩, h⟩

/-- A write on an entry, then what is done with the entry. -/
theorem hoare_utilWrite_bind {α : Type} {conn : ConnectionEntry} {bytes : List UInt8}
    {f : ConnectionEntry → NetProg α} {Q : α → Net → Option (List Fd) → Prop}
    (hf : ∀ got, Flagged conn got → Hoare FdOp.exec (On table k (got.mark :: marks)) (f got) Q) :
    Hoare FdOp.exec (On table k (conn.mark :: marks)) (utilWrite conn bytes >>= f) Q :=
  (hoare_utilWrite conn bytes).bind fun got => Hoare.of_pre (fun _ _ h => h.1) fun hgot =>
    (hf got hgot).conseq (fun _ _ h => h.2) fun _ _ _ h => h

/-- A read on an entry, then what is done with the entry and the buffer. -/
theorem hoare_utilRead_bind {α : Type} {conn : ConnectionEntry} {buf : List UInt8}
    {f : ConnectionEntry × List UInt8 → NetProg α} {Q : α → Net → Option (List Fd) → Prop}
    (hf : ∀ got bytes, Flagged conn got →
      Hoare FdOp.exec (On table k (got.mark :: marks)) (f (got, bytes)) Q) :
    Hoare FdOp.exec (On table k (conn.mark :: marks)) (utilRead conn buf >>= f) Q :=
  (hoare_utilRead conn buf).bind fun r => Hoare.of_pre (fun _ _ h => h.1) fun hgot =>
    (hf r.1 r.2 hgot).conseq (fun _ _ h => h.2) fun _ _ _ h => h

theorem Flagged.refCount {conn got : ConnectionEntry} (h : Flagged conn got) :
    got.refCount = conn.refCount := by
  rw [h.eq]

theorem Flagged.mark {conn got : ConnectionEntry} (h : Flagged conn got)
    (hf : got.errFlag = false) : got.mark = conn.mark := by
  rw [ConnectionEntry.mark, ConnectionEntry.mark, hf, h.flag hf, h.eq]

theorem Flagged.trans {a b c : ConnectionEntry} (h : Flagged a b) (h' : Flagged b c) :
    Flagged a c where
  eq := by rw [h'.eq, h.eq]
  flag hf := h.flag (h'.flag hf)

/-! ## The table -/

/-- Between two functions, and once the table is freed. -/
def Tidy (k : Nat) (s : Net) (o : Option (List Fd)) : Prop :=
  (∀ table, s.connectionTable = some table → On table k (table.map ConnectionEntry.mark) s o) ∧
    (s.connectionTable = none → o = none → s.failing < k)

theorem On.tidy {s : Net} {o : Option (List Fd)}
    (h : On table k (table.map ConnectionEntry.mark) s o) : Tidy k s o := by
  refine ⟨fun t ht => ?_, fun ht => ?_⟩
  · rw [h.1.1] at ht
    cases ht
    exact h
  · rw [h.1.1] at ht
    cases ht

theorem hoare_connections :
    Hoare FdOp.exec (Tidy k) connections fun conns s o =>
      On conns k (conns.map ConnectionEntry.mark) s o := by
  refine Hoare.lift fun s o h conns s' hr => ?_
  obtain ⟨t, ht, hr⟩ := Option.map_eq_some_iff.1 hr
  cases hr
  exact h.1 conns ht

/-- The table is read again by the function that holds it. -/
theorem hoare_connections_on :
    Hoare FdOp.exec (On table k marks) connections fun conns s o =>
      conns = table ∧ On table k marks s o := by
  refine Hoare.lift fun s o h conns s' hr => ?_
  obtain ⟨t, ht, hr⟩ := Option.map_eq_some_iff.1 hr
  cases hr
  rw [h.1.1] at ht
  cases ht
  exact ⟨rfl, h⟩

theorem hoare_setConnections {table' : List ConnectionEntry}
    (h : ∀ entry ∈ table', entry.refCount = 0) :
    Hoare FdOp.exec (On table k marks) (setConnections table') fun _ => On table' k marks :=
  Hoare.modify fun _ _ hs => ⟨⟨rfl, h⟩, hs.2.congr rfl rfl rfl⟩

theorem marks_erase {conn : ConnectionEntry} (h : conn ∈ table) :
    (table.map ConnectionEntry.mark).Perm
      (conn.mark :: (table.erase conn).map ConnectionEntry.mark) :=
  (List.perm_cons_erase h).map _

/-- An entry is taken out of the table, closed and freed; then `p`. -/
theorem hoare_remove {α : Type} {conn got : ConnectionEntry} {p : NetProg α}
    (hp : Hoare FdOp.exec (Tidy k) p fun _ => Tidy k) :
    Hoare FdOp.exec
      (On table k (got.mark :: (table.erase conn).map ConnectionEntry.mark))
      (do
        setConnections (table.erase conn)
        closeFree got
        p)
      fun _ => Tidy k := by
  refine Hoare.of_pre (fun _ _ h => h.1.2) fun hidle => ?_
  refine Hoare.bind (hoare_setConnections fun entry he => ?_) fun _ => ?_
  · exact hidle entry (List.mem_of_mem_erase he)
  refine (hoare_closeFree got).bind fun _ => ?_
  exact hp.conseq (fun _ _ h => h.tidy) fun _ _ _ h => h

/-- A new entry is put in front. -/
theorem hoare_addFront {α : Type} {entry : ConnectionEntry} {p : NetProg α}
    (hentry : entry.refCount = 0) (hp : Hoare FdOp.exec (Tidy k) p fun _ => Tidy k) :
    Hoare FdOp.exec (On table k (entry.mark :: table.map ConnectionEntry.mark))
      (do
        let conns ← connections
        setConnections (entry :: conns)
        p)
      fun _ => Tidy k := by
  refine Hoare.of_pre (fun _ _ h => h.1.2) fun hidle => ?_
  refine hoare_connections_on.bind fun conns => ?_
  refine Hoare.of_pre (fun _ _ h => h.1) fun hconns => ?_
  subst hconns
  have hset : Hoare FdOp.exec (On conns k (entry.mark :: conns.map ConnectionEntry.mark))
      (setConnections (entry :: conns)) fun _ => Tidy k := by
    refine (hoare_setConnections fun e he => ?_).conseq (fun _ _ h => h) fun _ _ _ h => h.tidy
    rcases List.mem_cons.1 he with rfl | he
    · exact hentry
    · exact hidle e he
  exact (hset.conseq (fun _ _ h => h.2) fun _ _ _ h => h).bind fun _ => hp

theorem hoare_pure {α : Type} (a : α) : Hoare FdOp.exec (Tidy k) (pure a) fun _ => Tidy k :=
  Hoare.pure fun _ _ h => h

end

end FTBN.Io
