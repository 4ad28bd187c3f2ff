import Mathlib.Algebra.GroupWithZero.Nat
import Ftb.Lib.Pieces
import Ftb.Tcp.Proof.Held

/-!
# What the two macros transfer

`FTBNI_UTIL_READ` and `FTBNI_UTIL_WRITE`, by the bytes of a descriptor in the journal (`readFrom`,
`writtenTo`). Without `err_flag` at the end, the whole buffer has been transferred, however the
system calls have cut it; with it, less; and an entry that has it already transfers nothing
(`utilRead_run`, `utilWrite_run`).
-/

open FTB FTBU Journal

namespace FTBN.Io

/-! ## Bytes of a descriptor -/

def FdOp.reads (fd : Fd) : FdOp → List UInt8
  | .read fd' bytes => if fd' = fd then bytes else []
  | _ => []

def FdOp.writes (fd : Fd) : FdOp → List UInt8
  | .write fd' bytes => if fd' = fd then bytes else []
  | _ => []

/-- What was read from a descriptor. -/
def readFrom (fd : Fd) (ops : List FdOp) : List UInt8 := ops.flatMap (FdOp.reads fd)

/-- What was written to it. -/
def writtenTo (fd : Fd) (ops : List FdOp) : List UInt8 := ops.flatMap (FdOp.writes fd)

section
variable (fd : Fd) (ops ops' : List FdOp)

@[simp] theorem readFrom_nil : readFrom fd [] = [] := rfl

@[simp] theorem writtenTo_nil : writtenTo fd [] = [] := rfl

@[simp] theorem readFrom_append : readFrom fd (ops ++ ops') = readFrom fd ops ++ readFrom fd ops' :=
  List.flatMap_append

@[simp] theorem writtenTo_append :
    writtenTo fd (ops ++ ops') = writtenTo fd ops ++ writtenTo fd ops' :=
  List.flatMap_append

end

/-- A socket that was opened or accepted. -/
def Outcome.obtains : Outcome → Bool
  | .socket ok => ok
  | .accept ok => ok
  | _ => false

/-- The outcomes to come that give a descriptor. -/
def Net.opened (s : Net) : List Outcome := s.outcomes.filter Outcome.obtains

/-- Steps on one descriptor: `used` are the outcomes that they took, none of which gave another. -/
structure Moves (fd : Fd) (s s' : Net) (ops : List FdOp) (used : List Outcome)
    (reads writes : List UInt8) : Prop where
  net : s' = { s with outcomes := s'.outcomes }
  outcomes : s.outcomes = used ++ s'.outcomes
  opens : ∀ x ∈ used, x.obtains = false
  reads : readFrom fd ops = reads
  writes : writtenTo fd ops = writes
  others : ∀ fd', fd' ≠ fd → readFrom fd' ops = [] ∧ writtenTo fd' ops = []

namespace Moves

variable {fd : Fd} {s s' s'' : Net} {ops ops' : List FdOp} {used used' : List Outcome}
  {r r' w w' : List UInt8}

/-- `close` and `free` move nothing. -/
theorem still {op : FdOp} (fd : Fd) (s : Net) (hr : ∀ fd, op.reads fd = [])
    (hw : ∀ fd, op.writes fd = []) : Moves fd s s [op] [] [] [] where
  net := rfl
  outcomes := rfl
  opens _ hx := nomatch hx
  reads := by simp [readFrom, hr]
  writes := by simp [writtenTo, hw]
  others fd' _ := by simp [readFrom, writtenTo, hr, hw]

theorem refl (fd : Fd) (s : Net) : Moves fd s s [] [] [] [] where
  net := rfl
  outcomes := rfl
  opens _ hx := nomatch hx
  reads := rfl
  writes := rfl
  others _ _ := ⟨rfl, rfl⟩

theorem trans (h : Moves fd s s' ops used r w) (h' : Moves fd s' s'' ops' used' r' w') :
    Moves fd s s'' (ops ++ ops') (used ++ used') (r ++ r') (w ++ w') where
  net := by rw [h'.net, h.net]
  outcomes := by rw [h.outcomes, h'.outcomes, List.append_assoc]
  opens x hx := (List.mem_append.1 hx).elim (h.opens x) (h'.opens x)
  reads := by rw [readFrom_append, h.reads, h'.reads]
  writes := by rw [writtenTo_append, h.writes, h'.writes]
  others fd' hne := by
    rw [readFrom_append, writtenTo_append, (h.others fd' hne).1, (h.others fd' hne).2,
      (h'.others fd' hne).1, (h'.others fd' hne).2]
    exact ⟨rfl, rfl⟩

theorem opened (h : Moves fd s s' ops used r w) : s'.opened = s.opened := by
  have hnone : used.filter Outcome.obtains = [] :=
    List.filter_eq_nil_iff.2 fun x hx => by rw [h.opens x hx]; exact Bool.false_ne_true
  rw [Net.opened, Net.opened, h.outcomes, List.filter_append, hnone, List.nil_append]

end Moves

/-! ## The system calls -/

section
variable {fd : Fd} {s s' : Net} {ops : List FdOp}

theorem nextOutcome_run {x : Outcome} (h : nextOutcome s = some (x, s', ops)) :
    ops = [] ∧ s.outcomes = x :: s'.outcomes ∧ s' = { s with outcomes := s'.outcomes } := by
  obtain ⟨⟨y, mid⟩, hr, h⟩ := Option.map_eq_some_iff.1 h
  cases hs : s.outcomes with
  | nil =>
    simp only [hs] at hr
    cases hr
  | cons z outcomes =>
    simp only [hs] at hr
    cases hr
    cases h
    exact ⟨rfl, rfl, rfl⟩

theorem nextOutcome_moves {x : Outcome} (fd : Fd) (h : nextOutcome s = some (x, s', ops))
    (hx : x.obtains = false) : Moves fd s s' ops [x] [] [] := by
  obtain ⟨rfl, hout, hnet⟩ := nextOutcome_run h
  exact ⟨hnet, hout, by simpa using hx, rfl, rfl, fun _ _ => ⟨rfl, rfl⟩⟩

/-- What a `read` returns in the buffer. -/
def ReadResult.bytes : ReadResult → List UInt8
  | .got bytes => bytes
  | _ => []

theorem sysRead_run {r : ReadResult} (h : sysRead fd s = some (r, s', ops)) :
    Moves fd s s' ops [.read r] r.bytes [] := by
  obtain ⟨x, mid, t, u, hx, h, rfl⟩ := Prog.bind_eq_some.1 h
  obtain ⟨rfl, hout, hnet⟩ := nextOutcome_run hx
  have hdone (r : ReadResult) (hx : x = .read r) (hs : s' = mid) (hu : u = [.read fd r.bytes]) :
      Moves fd s s' ([] ++ u) [.read r] r.bytes [] := by
    subst hx hs hu
    refine ⟨hnet, hout, by simp [Outcome.obtains], ?_, rfl, fun fd' hne => ⟨?_, rfl⟩⟩
    · simp [readFrom, FdOp.reads]
    · simp [readFrom, FdOp.reads, Ne.symm hne]
  cases x with
  | read r' =>
    cases r' <;> (cases h; exact hdone _ rfl rfl rfl)
  | _ => cases h

/-- What a `write` takes of the bytes that are left. -/
def WriteResult.taken (bytes : List UInt8) : WriteResult → List UInt8
  | .wrote n => bytes.take n
  | _ => []

theorem sysWrite_run {bytes : List UInt8} {r : WriteResult}
    (h : sysWrite fd bytes s = some (r, s', ops)) :
    Moves fd s s' ops [.write r] [] (r.taken bytes) := by
  obtain ⟨x, mid, t, u, hx, h, rfl⟩ := Prog.bind_eq_some.1 h
  obtain ⟨rfl, hout, hnet⟩ := nextOutcome_run hx
  have hdone (r : WriteResult) (hx : x = .write r) (hs : s' = mid)
      (hu : u = [.write fd (r.taken bytes)]) :
      Moves fd s s' ([] ++ u) [.write r] [] (r.taken bytes) := by
    subst hx hs hu
    refine ⟨hnet, hout, by simp [Outcome.obtains], rfl, ?_, fun fd' hne => ⟨rfl, ?_⟩⟩
    · simp [writtenTo, FdOp.writes]
    · simp [writtenTo, FdOp.writes, Ne.symm hne]
  cases x with
  | write r' =>
    cases r' <;> (cases h; exact hdone _ rfl rfl rfl)
  | _ => cases h

end

/-! ## `FTBNI_UTIL_READ` -/

section
variable {fd : Fd} {s s' : Net} {ops : List FdOp}

/-- What the loop has read when it ends, and whether it has met a failure. -/
theorem readLoop_run {n : Nat} {done rest out : List UInt8} {flag : Bool}
    (h : readLoop fd n done rest s = some ((flag, out), s', ops)) :
    ∃ used bytes, Moves fd s s' ops used bytes [] ∧
      (flag = true ↔ ∃ x ∈ used, x.fails = true) ∧
      (flag = false → out = done ++ bytes ∧ bytes.length = rest.length) ∧
      (flag = true → bytes.length < rest.length) := by
  induction n generalizing done rest s ops with
  | zero =>
    by_cases hrest : rest = []
    · rw [readLoop, if_pos hrest] at h
      cases h
      exact ⟨[], [], Moves.refl fd _, by simp, by simp [hrest], by simp⟩
    · rw [readLoop, if_neg hrest] at h
      cases h
  | succ n ih =>
    by_cases hrest : rest = []
    · rw [readLoop, if_pos hrest] at h
      cases h
      exact ⟨[], [], Moves.refl fd _, by simp, by simp [hrest], by simp⟩
    · rw [readLoop, if_neg hrest] at h
      obtain ⟨r, mid, t, u, hr, h, rfl⟩ := Prog.bind_eq_some.1 h
      have hread := sysRead_run hr
      have hpos := List.length_pos_iff.2 hrest
      have hbroken (hf : Outcome.fails (.read r) = true) (hb : r.bytes = [])
          (hend : (do
            Prog.emit (.close fd)
            pure (true, done ++ rest) : NetProg (Bool × List UInt8)) mid = some ((flag, out), s', u)) :
          ∃ used bytes, Moves fd s s' (t ++ u) used bytes [] ∧
            (flag = true ↔ ∃ x ∈ used, x.fails = true) ∧
            (flag = false → out = done ++ bytes ∧ bytes.length = rest.length) ∧
            (flag = true → bytes.length < rest.length) := by
        cases hend
        have hclose : Moves fd mid mid [.close fd] [] [] [] :=
          Moves.still fd mid (fun _ => rfl) fun _ => rfl
        refine ⟨_, _, hread.trans hclose, by simp [hf], by simp, fun _ => ?_⟩
        rw [hb]
        exact hpos
      cases r with
      | got b =>
        dsimp only at h
        by_cases hb : b ≠ [] ∧ b.length ≤ rest.length
        · rw [if_pos hb] at h
          obtain ⟨used, bytes, hmoves, hflag, hfull, hcut⟩ := ih h
          rw [List.length_drop] at hfull hcut
          refine ⟨_, _, hread.trans hmoves, ?_, fun hf => ?_, fun hf => ?_⟩
          · simpa [Outcome.fails] using hflag
          · obtain ⟨hout, hlen⟩ := hfull hf
            refine ⟨by rw [hout, List.append_assoc]; rfl, ?_⟩
            show (b ++ bytes).length = rest.length
            rw [List.length_append]
            omega
          · have hlen := hcut hf
            show (b ++ bytes).length < rest.length
            rw [List.length_append]
            omega
        · rw [if_neg hb] at h
          cases h
      | again =>
        obtain ⟨used, bytes, hmoves, hflag, hfull, hcut⟩ := ih h
        refine ⟨_, _, hread.trans hmoves, ?_, hfull, hcut⟩
        simpa [Outcome.fails] using hflag
      | eof => exact hbroken rfl rfl h
      | fail => exact hbroken rfl rfl h

/-- A use of `FTBNI_UTIL_READ` that leaves `r`, took `used` and has read `bytes`. -/
structure Reads (conn : ConnectionEntry) (buf : List UInt8) (r : ConnectionEntry × List UInt8)
    (used : List Outcome) (bytes : List UInt8) : Prop where
  flagged : Flagged conn r.1
  full : r.1.errFlag = false → bytes = r.2 ∧ bytes.length = buf.length
  cut : r.1.errFlag = true → conn.errFlag = false → bytes.length < buf.length
  failed : conn.errFlag = false → (r.1.errFlag = true ↔ ∃ x ∈ used, x.fails = true)
  nothing : conn.errFlag = true → r = (conn, buf) ∧ used = [] ∧ bytes = []

theorem utilRead_run {conn : ConnectionEntry} {buf : List UInt8} {r : ConnectionEntry × List UInt8}
    (h : utilRead conn buf s = some (r, s', ops)) :
    ∃ used bytes, Moves conn.fd s s' ops used bytes [] ∧ Reads conn buf r used bytes ∧
      (conn.errFlag = true → ops = []) := by
  unfold utilRead at h
  cases hc : conn.errFlag with
  | true =>
    rw [hc, if_pos rfl] at h
    cases h
    exact ⟨[], [], Moves.refl conn.fd s, ⟨⟨rfl, id⟩, by simp [hc], by simp [hc], by simp [hc],
      fun _ => ⟨rfl, rfl, rfl⟩⟩, fun _ => rfl⟩
  | false =>
    rw [hc, if_neg Bool.false_ne_true] at h
    obtain ⟨x, mid, hx, h⟩ := Prog.lift_bind_eq_some.1 h
    cases hx
    obtain ⟨⟨flag, out⟩, mid, t, u, hloop, hend, rfl⟩ := Prog.bind_eq_some.1 h
    cases hend
    obtain ⟨used, bytes, hmoves, hflag, hfull, hcut⟩ := readLoop_run hloop
    rw [List.append_nil]
    refine ⟨used, bytes, hmoves, ⟨⟨rfl, fun _ => hc⟩, fun hf => ?_, fun hf _ => hcut hf, fun _ => hflag,
      fun hf => ?_⟩, fun hf => by cases hf⟩
    · obtain ⟨hout, hlen⟩ := hfull hf
      exact ⟨hout.symm, hlen⟩
    · rw [hc] at hf
      cases hf

/-! ## `FTBNI_UTIL_WRITE` -/

theorem writeLoop_run {n : Nat} {rest : List UInt8} {flag : Bool}
    (h : writeLoop fd n rest s = some (flag, s', ops)) :
    ∃ used out, Moves fd s s' ops used [] out ∧
      (flag = true ↔ ∃ x ∈ used, x.fails = true) ∧ out <+: rest ∧
      (flag = false → out = rest) ∧ (flag = true → out.length < rest.length) := by
  induction n generalizing rest s ops with
  | zero =>
    by_cases hrest : rest = []
    · rw [writeLoop, if_pos hrest] at h
      cases h
      exact ⟨[], [], Moves.refl fd _, by simp, List.nil_prefix, by simp [hrest], by simp⟩
    · rw [writeLoop, if_neg hrest] at h
      cases h
  | succ n ih =>
    by_cases hrest : rest = []
    · rw [writeLoop, if_pos hrest] at h
      cases h
      exact ⟨[], [], Moves.refl fd _, by simp, List.nil_prefix, by simp [hrest], by simp⟩
    · rw [writeLoop, if_neg hrest] at h
      obtain ⟨r, mid, t, u, hr, h, rfl⟩ := Prog.bind_eq_some.1 h
      have hwrite := sysWrite_run hr
      cases r with
      | wrote m =>
        dsimp only at h
        by_cases hm : m ≤ rest.length
        · rw [if_pos hm] at h
          obtain ⟨used, out, hmoves, hflag, hpre, hfull, hcut⟩ := ih h
          rw [List.length_drop] at hcut
          have hsplit : rest.take m ++ rest.drop m = rest := List.take_append_drop m rest
          refine ⟨_, _, hwrite.trans hmoves, ?_, ?_, fun hf => ?_, fun hf => ?_⟩
          · simpa [Outcome.fails] using hflag
          · obtain ⟨tail, htail⟩ := hpre
            refine ⟨tail, ?_⟩
            show rest.take m ++ out ++ tail = rest
            rw [List.append_assoc, htail, hsplit]
          · rw [hfull hf]
            exact hsplit
          · have hlen := hcut hf
            show (rest.take m ++ out).length < rest.length
            rw [List.length_append, List.length_take]
            omega
        · rw [if_neg hm] at h
          cases h
      | again =>
        obtain ⟨used, out, hmoves, hflag, hrest⟩ := ih h
        refine ⟨_, _, hwrite.trans hmoves, ?_, hrest⟩
        simpa [Outcome.fails] using hflag
      | fail =>
        cases h
        have hclose : Moves fd mid mid [.close fd] [] [] [] :=
          Moves.still fd mid (fun _ => rfl) fun _ => rfl
        exact ⟨_, _, hwrite.trans hclose, by simp [Outcome.fails], List.nil_prefix, by simp,
          fun _ => List.length_pos_iff.2 hrest⟩

/-- A use of `FTBNI_UTIL_WRITE` that leaves `got`, took `used` and has written `out`. -/
structure Writes (conn : ConnectionEntry) (bytes : List UInt8) (got : ConnectionEntry)
    (used : List Outcome) (out : List UInt8) : Prop where
  flagged : Flagged conn got
  start : out <+: bytes
  full : got.errFlag = false → out = bytes
  cut : got.errFlag = true → conn.errFlag = false → out.length < bytes.length
  failed : conn.errFlag = false → (got.errFlag = true ↔ ∃ x ∈ used, x.fails = true)
  nothing : conn.errFlag = true → got = conn ∧ used = [] ∧ out = []

theorem utilWrite_run {conn got : ConnectionEntry} {bytes : List UInt8}
    (h : utilWrite conn bytes s = some (got, s', ops)) :
    ∃ used out, Moves conn.fd s s' ops used [] out ∧ Writes conn bytes got used out ∧
      (conn.errFlag = true → ops = []) := by
  unfold utilWrite at h
  cases hc : conn.errFlag with
  | true =>
    rw [hc, if_pos rfl] at h
    cases h
    exact ⟨[], [], Moves.refl conn.fd s, ⟨⟨rfl, id⟩, List.nil_prefix, by simp [hc], by simp [hc],
      by simp [hc], fun _ => ⟨rfl, rfl, rfl⟩⟩, fun _ => rfl⟩
  | false =>
    rw [hc, if_neg Bool.false_ne_true] at h
    obtain ⟨x, mid, hx, h⟩ := Prog.lift_bind_eq_some.1 h
    cases hx
    obtain ⟨flag, mid, t, u, hloop, hend, rfl⟩ := Prog.bind_eq_some.1 h
    cases hend
    obtain ⟨used, out, hmoves, hflag, hpre, hfull, hcut⟩ := writeLoop_run hloop
    rw [List.append_nil]
    refine ⟨used, out, hmoves, ⟨⟨rfl, fun _ => hc⟩, hpre, hfull, fun hf _ => hcut hf, fun _ => hflag,
      fun hf => ?_⟩, fun hf => by cases hf⟩
    rw [hc] at hf
    cases hf

/-! ## Any splitting -/

/-- A result that does not end the loop of `FTBNI_UTIL_READ`. -/
def ReadResult.Goes : ReadResult → Prop
  | .got bytes => bytes ≠ []
  | .again => True
  | _ => False

theorem sysRead_eq {r : ReadResult} {more : List Outcome} (hs : s.outcomes = .read r :: more) :
    sysRead fd s = some (r, { s with outcomes := more }, [.read fd r.bytes]) := by
  have hnext : nextOutcome s = some (.read r, { s with outcomes := more }, []) := by
    unfold nextOutcome Prog.lift
    simp only [hs]
    rfl
  refine Prog.bind_eq_some.2 ⟨_, _, _, _, hnext, ?_, rfl⟩
  cases r <;> rfl

/-- The bytes come in any pieces, with any number of interruptions, as long as some are missing. -/
theorem readLoop_steps {results : List ReadResult} {more : List Outcome} {done rest : List UInt8}
    {x : (Bool × List UInt8) × Net × List FdOp} (n : Nat) (hgo : ∀ r ∈ results, r.Goes)
    (hlen : (results.flatMap ReadResult.bytes).length < rest.length)
    (hs : s.outcomes = results.map Outcome.read ++ more)
    (hend : readLoop fd n (done ++ results.flatMap ReadResult.bytes)
      (rest.drop (results.flatMap ReadResult.bytes).length) { s with outcomes := more } = some x) :
    ∃ ops, readLoop fd (results.length + n) done rest s = some (x.1, x.2.1, ops ++ x.2.2) := by
  induction results generalizing done rest s with
  | nil =>
    have hsame : s = { s with outcomes := more } := by
      rw [List.map_nil, List.nil_append] at hs
      rw [← hs]
    refine ⟨[], ?_⟩
    rw [List.flatMap_nil, List.append_nil, List.length_nil, List.drop_zero, ← hsame] at hend
    rw [List.length_nil, Nat.zero_add, hend]
    rfl
  | cons r results ih =>
    have hnil : rest ≠ [] := List.length_pos_iff.1 (Nat.zero_lt_of_lt hlen)
    rw [List.forall_mem_cons] at hgo
    rw [List.map_cons, List.cons_append] at hs
    rw [List.flatMap_cons, List.length_append] at hlen hend
    rw [← List.append_assoc, ← List.drop_drop] at hend
    have hread : sysRead fd s = _ := sysRead_eq hs
    have hturns : (r :: results).length + n = results.length + n + 1 := by
      rw [List.length_cons]
      omega
    rw [hturns, readLoop, if_neg hnil]
    cases r with
    | got b =>
      have hlen' : b.length + (results.flatMap ReadResult.bytes).length < rest.length := hlen
      have hb : b ≠ [] ∧ b.length ≤ rest.length := ⟨hgo.1, by omega⟩
      obtain ⟨ops, hloop⟩ := @ih { s with outcomes := results.map Outcome.read ++ more } (done ++ b)
        (rest.drop b.length) hgo.2 (by rw [List.length_drop]; omega) rfl hend
      refine ⟨.read fd b :: ops, Prog.bind_eq_some.2 ⟨_, _, _, ops ++ x.2.2, hread, ?_, rfl⟩⟩
      dsimp only
      rw [if_pos hb]
      exact hloop
    | again =>
      have hlen' : 0 + (results.flatMap ReadResult.bytes).length < rest.length := hlen
      have hend' := hend
      rw [show ReadResult.again.bytes = [] from rfl, List.append_nil, List.length_nil,
        List.drop_zero] at hend'
      obtain ⟨ops, hloop⟩ := @ih { s with outcomes := results.map Outcome.read ++ more } done rest
        hgo.2 (by omega) rfl hend'
      exact ⟨.read fd [] :: ops, Prog.bind_eq_some.2 ⟨_, _, _, ops ++ x.2.2, hread, hloop, rfl⟩⟩
    | eof => exact hgo.1.elim
    | fail => exact hgo.1.elim

variable {conn : ConnectionEntry} {buf : List UInt8} {results : List ReadResult} {more : List Outcome}

theorem utilRead_eq {flag : Bool} {out : List UInt8} (hflag : conn.errFlag = false)
    (h : readLoop conn.fd s.outcomes.length [] buf s = some ((flag, out), s', ops)) :
    utilRead conn buf s = some (({ conn with errFlag := flag }, out), s', ops) := by
  unfold utilRead
  rw [hflag, if_neg Bool.false_ne_true]
  refine Prog.lift_bind_eq_some.2 ⟨s, s, rfl, ?_⟩
  exact Prog.bind_eq_some.2 ⟨_, _, _, _, h, rfl, (List.append_nil ops).symm⟩

/-- **Any splitting**: an entry without `err_flag` reads the bytes, in whatever pieces they come. -/
theorem utilRead_split {last : List UInt8} (hflag : conn.errFlag = false)
    (hgo : ∀ r ∈ results, r.Goes) (hlast : last ≠ [])
    (hlen : (results.flatMap ReadResult.bytes ++ last).length = buf.length)
    (hs : s.outcomes = results.map Outcome.read ++ .read (.got last) :: more) :
    ∃ ops, utilRead conn buf s =
      some ((conn, results.flatMap ReadResult.bytes ++ last), { s with outcomes := more }, ops) := by
  have hpos := List.length_pos_iff.2 hlast
  rw [List.length_append] at hlen
  have hrest : last.length ≤ (buf.drop (results.flatMap ReadResult.bytes).length).length := by
    rw [List.length_drop]
    omega
  have hnil : buf.drop (results.flatMap ReadResult.bytes).length ≠ [] :=
    List.length_pos_iff.1 (by omega)
  have hdone : (buf.drop (results.flatMap ReadResult.bytes).length).drop last.length = [] := by
    rw [List.drop_drop]
    exact List.drop_eq_nil_of_le (by omega)
  have hread : sysRead conn.fd { s with outcomes := .read (.got last) :: more } = _ := sysRead_eq rfl
  have hend : readLoop conn.fd (more.length + 1) ([] ++ results.flatMap ReadResult.bytes)
      (buf.drop (results.flatMap ReadResult.bytes).length)
      { s with outcomes := .read (.got last) :: more } =
        some ((false, results.flatMap ReadResult.bytes ++ last), { s with outcomes := more },
          [.read conn.fd last]) := by
    rw [readLoop, if_neg hnil]
    refine Prog.bind_eq_some.2 ⟨_, _, _, [], hread, ?_, rfl⟩
    dsimp only
    rw [if_pos ⟨hlast, hrest⟩, hdone, List.nil_append]
    cases more <;> rfl
  obtain ⟨ops, hloop⟩ := readLoop_steps _ hgo (by omega) hs hend
  have hturns : results.length + (more.length + 1) = s.outcomes.length := by
    rw [hs, List.length_append, List.length_map, List.length_cons]
  rw [hturns] at hloop
  obtain ⟨errFlag, fd, dst, refCount⟩ := conn
  cases hflag
  exact ⟨_, utilRead_eq rfl hloop⟩

/-- The stream ends, or the read fails, before the buffer is full: `err_flag` is set. -/
theorem utilRead_cut {r : ReadResult} (hflag : conn.errFlag = false)
    (hgo : ∀ r ∈ results, r.Goes) (hr : r = .eof ∨ r = .fail)
    (hlen : (results.flatMap ReadResult.bytes).length < buf.length)
    (hs : s.outcomes = results.map Outcome.read ++ .read r :: more) :
    ∃ out ops, utilRead conn buf s =
      some (({ conn with errFlag := true }, out), { s with outcomes := more }, ops) := by
  have hnil : buf.drop (results.flatMap ReadResult.bytes).length ≠ [] := by
    apply List.length_pos_iff.1
    rw [List.length_drop]
    omega
  have hread : sysRead conn.fd { s with outcomes := .read r :: more } = _ := sysRead_eq rfl
  have hend : ∃ out ops, readLoop conn.fd (more.length + 1) ([] ++ results.flatMap ReadResult.bytes)
      (buf.drop (results.flatMap ReadResult.bytes).length) { s with outcomes := .read r :: more } =
        some ((true, out), { s with outcomes := more }, ops) := by
    rw [readLoop, if_neg hnil]
    rcases hr with rfl | rfl
    · exact ⟨_, _, Prog.bind_eq_some.2 ⟨_, _, _, _, hread, rfl, rfl⟩⟩
    · exact ⟨_, _, Prog.bind_eq_some.2 ⟨_, _, _, _, hread, rfl, rfl⟩⟩
  obtain ⟨out, ops', hend⟩ := hend
  obtain ⟨ops, hloop⟩ := readLoop_steps _ hgo hlen hs hend
  have hturns : results.length + (more.length + 1) = s.outcomes.length := by
    rw [hs, List.length_append, List.length_map, List.length_cons]
  rw [hturns] at hloop
  exact ⟨out, _, utilRead_eq hflag hloop⟩

/-- An entry with `err_flag` transfers nothing. -/
theorem utilRead_flagged (hflag : conn.errFlag = true) (buf : List UInt8) (s : Net) :
    utilRead conn buf s = some ((conn, buf), s, []) := by
  rw [utilRead, if_pos hflag]
  rfl

/-! ### Writes -/

def WriteResult.count : WriteResult → Nat
  | .wrote n => n
  | _ => 0

theorem sysWrite_eq {r : WriteResult} {more : List Outcome} (bytes : List UInt8)
    (hs : s.outcomes = .write r :: more) :
    sysWrite fd bytes s = some (r, { s with outcomes := more }, [.write fd (r.taken bytes)]) := by
  have hnext : nextOutcome s = some (.write r, { s with outcomes := more }, []) := by
    unfold nextOutcome Prog.lift
    simp only [hs]
    rfl
  refine Prog.bind_eq_some.2 ⟨_, _, _, _, hnext, ?_, rfl⟩
  cases r <;> rfl

theorem writeLoop_split {results : List WriteResult} {more : List Outcome} {rest : List UInt8} {m : Nat}
    (n : Nat) (hgo : ∀ r ∈ results, r ≠ .fail)
    (hlen : (results.map WriteResult.count).sum < rest.length)
    (hm : (results.map WriteResult.count).sum + m = rest.length)
    (hs : s.outcomes = results.map Outcome.write ++ .write (.wrote m) :: more) :
    ∃ ops, writeLoop fd (results.length + (n + 1)) rest s =
      some (false, { s with outcomes := more }, ops) := by
  induction results generalizing rest s with
  | nil =>
    rw [List.map_nil, List.sum_nil] at hlen
    rw [List.map_nil, List.sum_nil, Nat.zero_add] at hm
    rw [List.length_nil, Nat.zero_add, writeLoop, if_neg (List.length_pos_iff.1 hlen)]
    refine ⟨_, Prog.bind_eq_some.2 ⟨_, _, _, [], sysWrite_eq rest hs, ?_, rfl⟩⟩
    dsimp only
    rw [if_pos (Nat.le_of_eq hm), hm, List.drop_length]
    cases n <;> rfl
  | cons r results ih =>
    have hnil : rest ≠ [] := List.length_pos_iff.1 (Nat.zero_lt_of_lt hlen)
    rw [List.forall_mem_cons] at hgo
    rw [List.map_cons, List.sum_cons] at hlen hm
    rw [List.map_cons, List.cons_append] at hs
    have hturns : (r :: results).length + (n + 1) = results.length + (n + 1) + 1 := by
      rw [List.length_cons]
      omega
    have hwrite : sysWrite fd rest s = _ := sysWrite_eq rest hs
    rw [hturns, writeLoop, if_neg hnil]
    cases r with
    | wrote k =>
      have hlen' : k + (results.map WriteResult.count).sum < rest.length := hlen
      have hm' : k + (results.map WriteResult.count).sum + m = rest.length := hm
      obtain ⟨ops, hloop⟩ := @ih
        { s with outcomes := results.map Outcome.write ++ .write (.wrote m) :: more } (rest.drop k)
        hgo.2 (by rw [List.length_drop]; omega) (by rw [List.length_drop]; omega) rfl
      refine ⟨_, Prog.bind_eq_some.2 ⟨_, _, _, ops, hwrite, ?_, rfl⟩⟩
      dsimp only
      rw [if_pos (by omega)]
      exact hloop
    | again =>
      have hlen' : 0 + (results.map WriteResult.count).sum < rest.length := hlen
      have hm' : 0 + (results.map WriteResult.count).sum + m = rest.length := hm
      obtain ⟨ops, hloop⟩ := @ih
        { s with outcomes := results.map Outcome.write ++ .write (.wrote m) :: more } rest
        hgo.2 (by omega) (by omega) rfl
      exact ⟨_, Prog.bind_eq_some.2 ⟨_, _, _, ops, hwrite, hloop, rfl⟩⟩
    | fail => exact absurd rfl hgo.1

/-- An entry without `err_flag` writes the bytes, in whatever pieces they are taken. -/
theorem utilWrite_split {results : List WriteResult} {bytes : List UInt8} {m : Nat}
    (hflag : conn.errFlag = false) (hgo : ∀ r ∈ results, r ≠ .fail)
    (hlen : (results.map WriteResult.count).sum < bytes.length)
    (hm : (results.map WriteResult.count).sum + m = bytes.length)
    (hs : s.outcomes = results.map Outcome.write ++ .write (.wrote m) :: more) :
    ∃ ops, utilWrite conn bytes s = some (conn, { s with outcomes := more }, ops) ∧
      writtenTo conn.fd ops = bytes := by
  obtain ⟨ops, hloop⟩ := @writeLoop_split conn.fd s _ _ _ _ more.length hgo hlen hm hs
  have hturns : results.length + (more.length + 1) = s.outcomes.length := by
    rw [hs, List.length_append, List.length_map, List.length_cons]
  rw [hturns] at hloop
  have hrun : utilWrite conn bytes s = some (conn, { s with outcomes := more }, ops) := by
    obtain ⟨errFlag, fd, dst, refCount⟩ := conn
    cases hflag
    refine Prog.lift_bind_eq_some.2 ⟨s, s, rfl, ?_⟩
    exact Prog.bind_eq_some.2 ⟨_, _, _, _, hloop, rfl, (List.append_nil ops).symm⟩
  obtain ⟨used, out, hmoves, hwrites, -⟩ := utilWrite_run hrun
  exact ⟨ops, hrun, hmoves.writes.trans (hwrites.full hflag)⟩

end

end FTBN.Io
