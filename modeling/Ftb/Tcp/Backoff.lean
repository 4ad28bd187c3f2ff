import Mathlib.Algebra.Ring.Int.Defs
import Ftb.Tcp.Connect

/-!
# The pauses of `FTBN_Connect` (`ftb_network_tcp.c`)

Before every attempt but the first after a reset of `retry`, `FTBN_Connect` sleeps for `delay` and
multiplies it. The carry from `tv_nsec` is taken out of the whole of `tv_sec`, not out of what was
carried: that is the same thing as long as `tv_sec` was 0 before, so the first carry is right and the
second leaves a negative `tv_nsec`. The first eight pauses are as they should be, and no later one is
(`connect_backoff`).

Both members are signed words of 64 bits, and a result that does not fit is undefined behaviour
(`none`). The arithmetic with `1E9` is exact, and truncated where it is assigned.
-/

open FTB FTBN FTBNI

namespace FTBN

/-- `FTBN_CONNECT_BACKOFF_RATIO`. -/
def connectBackoffRatio : Int := 4

/-- `FTBN_CONNECT_BACKOFF_INIT_TIMEOUT`, in milliseconds. -/
def connectBackoffInitTimeout : Int := 1

/-- `struct timespec`. -/
structure Timespec where
  tvSec : Int
  tvNsec : Int
  deriving DecidableEq, Repr

namespace Timespec

def total (delay : Timespec) : Int := delay.tvSec * 10 ^ 9 + delay.tvNsec

/-- What `nanosleep` accepts. -/
structure Normalised (delay : Timespec) : Prop where
  nsec_nonneg : 0 ≤ delay.tvNsec
  nsec_lt : delay.tvNsec < 10 ^ 9
  sec_nonneg : 0 ≤ delay.tvSec

end Timespec

/-- An assignment to a signed word. -/
def assign (z : Int) : Option Int := if -2 ^ 63 ≤ z ∧ z < 2 ^ 63 then some z else none

/-- `delay` before the loop. -/
def initialDelay : Timespec := ⟨0, connectBackoffInitTimeout * 10 ^ 6⟩

/-- What the loop makes of `delay` after a pause. -/
def backoff (delay : Timespec) : Option Timespec := do
  let tvSec ← assign (delay.tvSec * connectBackoffRatio)
  let tvNsec ← assign (delay.tvNsec * connectBackoffRatio)
  if tvNsec > 10 ^ 9 then
    -- `tv_sec += tv_nsec / 1E9`
    let tvSec ← assign ((tvSec * 10 ^ 9 + tvNsec).tdiv (10 ^ 9))
    let tvNsec ← assign (tvNsec - tvSec * 10 ^ 9)
    pure ⟨tvSec, tvNsec⟩
  else pure ⟨tvSec, tvNsec⟩

/-- `delay` after `n` pauses. -/
def delayAfter : Nat → Option Timespec
  | 0 => some initialDelay
  | n + 1 => (delayAfter n).bind backoff

/-! ## One call -/

/-- `delay`, and what the calls of `nanosleep` were given. -/
structure Pauses where
  delay : Option Timespec
  slept : List (Option Timespec)

namespace Pauses

def start : Pauses := ⟨some initialDelay, []⟩

/-- The start of a turn of the loop. -/
def turn (c : Conn) (p : Pauses) : Pauses :=
  if c.pc = .request ∧ c.retry > 0 then ⟨p.delay.bind backoff, p.slept ++ [p.delay]⟩ else p

end Pauses

/-- The next step of a call, with its pause. -/
def Conn.timedStep (link : AddrSock → Ret) (ch : Choice) (x : (Server × Conn) × Pauses) :
    (Server × Conn) × Pauses :=
  (step link ch x.1, x.2.turn x.1.2)

/-- What one call sleeps for in its first `k` steps. -/
def sleptIn (link : AddrSock → Ret) (localAddr : AddrSock) (cs : Nat → Conn.Choice) (k : Nat)
    (s : Server) (c : Conn) : List (Option Timespec) :=
  (Trace.runChoices (Conn.timedStep link) cs k ((s, c.start link localAddr), .start)).2.slept

/-- The pauses of a call are the multiples, one after the other. -/
theorem slept_eq (link : AddrSock → Ret) (localAddr : AddrSock) (cs : Nat → Conn.Choice) (k : Nat)
    (s : Server) (c : Conn) : ∃ m, sleptIn link localAddr cs k s c = (List.range m).map delayAfter := by
  have hrun : ∀ (k : Nat) (cs : Nat → Conn.Choice) (sc : Server × Conn) (p : Pauses) (m : Nat),
      p = ⟨delayAfter m, (List.range m).map delayAfter⟩ →
      ∃ m', (Trace.runChoices (Conn.timedStep link) cs k (sc, p)).2.slept =
        (List.range m').map delayAfter := by
    intro k
    induction k with
    | zero =>
      intro cs sc p m hp
      subst hp
      exact ⟨m, rfl⟩
    | succ k ih =>
      intro cs sc p m hp
      by_cases hturn : sc.2.pc = .request ∧ sc.2.retry > 0
      · refine ih (fun i => cs (i + 1)) (Conn.step link (cs 0) sc) (p.turn sc.2) (m + 1) ?_
        rw [Pauses.turn, if_pos hturn, hp, List.range_succ, List.map_append]
        rfl
      · refine ih (fun i => cs (i + 1)) (Conn.step link (cs 0) sc) (p.turn sc.2) m ?_
        rw [Pauses.turn, if_neg hturn, hp]
  exact hrun k cs _ .start 0 rfl

/-! ## The delays -/

/-- The pause at `n` is one that `nanosleep` accepts, and the multiple of the one before it. -/
structure BackedOff (slept : List (Option Timespec)) (n : Nat) (delay : Timespec) : Prop where
  passed : slept[n]? = some (some delay)
  normalised : delay.Normalised
  ratio : ∀ m before, n = m + 1 → slept[m]? = some (some before) →
    delay.total = connectBackoffRatio * before.total

/-- The time as it should be, in nanoseconds. -/
def intended (n : Nat) : Int := connectBackoffRatio ^ n * initialDelay.total

def Timespec.ofTotal (total : Int) : Timespec := ⟨total / 10 ^ 9, total % 10 ^ 9⟩

theorem Timespec.normalised_ofTotal {total : Int} (h : 0 ≤ total) :
    (ofTotal total).Normalised ∧ (ofTotal total).total = total := by
  refine ⟨⟨?_, ?_, ?_⟩, ?_⟩
  · exact Int.emod_nonneg _ (by decide)
  · exact Int.emod_lt_of_pos _ (by decide)
  · exact Int.ediv_nonneg h (by decide)
  · exact Int.ediv_mul_add_emod total (10 ^ 9)

/-- `tv_sec` is 0 before the first carry, and there is no other one among these. -/
theorem delayAfter_small : ∀ n < 8, delayAfter n = some (.ofTotal (intended n)) := by decide

theorem intended_nonneg (n : Nat) : 0 ≤ intended n :=
  Int.mul_nonneg (Int.pow_nonneg (by decide)) (by decide)

theorem intended_succ (n : Nat) : intended (n + 1) = connectBackoffRatio * intended n := by
  rw [intended, intended, Int.pow_succ, Int.mul_comm _ connectBackoffRatio, Int.mul_assoc]

/-- A negative `tv_nsec` stays negative. -/
theorem backoff_negative {delay delay' : Timespec} (h : backoff delay = some delay')
    (hneg : delay.tvNsec < 0) : delay'.tvNsec < 0 := by
  have hassign : ∀ {z z' : Int}, assign z = some z' → z' = z := by
    intro z z' hz
    unfold assign at hz
    split at hz
    · exact (Option.some.inj hz).symm
    · cases hz
  simp only [backoff, Option.bind_eq_bind, Option.bind_eq_some_iff] at h
  obtain ⟨sec, -, nsec, hnsec, h⟩ := h
  have hn : nsec = delay.tvNsec * 4 := hassign hnsec
  have hle : ¬nsec > 10 ^ 9 := by omega
  rw [if_neg hle] at h
  cases h
  show nsec < 0
  omega

theorem delayAfter_late (k : Nat) : ∀ {delay : Timespec}, delayAfter (8 + k) = some delay →
    delay.tvNsec < 0 := by
  induction k with
  | zero =>
    intro delay h
    have h8 : delayAfter 8 = some ⟨65, -63464000000⟩ := by decide
    cases h8.symm.trans h
    decide
  | succ k ih =>
    intro delay h
    obtain ⟨before, hbefore, hnext⟩ := Option.bind_eq_some_iff.1 h
    exact backoff_negative hnext (ih hbefore)

/-- **The pauses.** Of the pauses of one call, the first eight are as they should be, and no other
is. -/
theorem connect_backoff (link : AddrSock → Ret) (localAddr : AddrSock) (cs : Nat → Conn.Choice)
    (k : Nat) (s : Server) (c : Conn) (n : Nat) (hn : n < (sleptIn link localAddr cs k s c).length) :
    (∃ delay, BackedOff (sleptIn link localAddr cs k s c) n delay) ↔ n < 8 := by
  obtain ⟨m, hslept⟩ := slept_eq link localAddr cs k s c
  rw [hslept] at hn ⊢
  have hlen : n < m := by simpa using hn
  have hget : ∀ i < m, ((List.range m).map delayAfter)[i]? = some (delayAfter i) := by
    intro i hi
    rw [List.getElem?_map, List.getElem?_range hi]
    rfl
  constructor
  · intro h
    obtain ⟨delay, hb⟩ := h
    by_contra hge
    obtain ⟨j, rfl⟩ := Nat.exists_eq_add_of_le (Nat.not_lt.1 hge)
    have hd := hb.passed
    rw [hget _ hlen, Option.some.injEq] at hd
    have hneg := delayAfter_late j hd
    have hpos := hb.normalised.nsec_nonneg
    omega
  · intro h8
    obtain ⟨hnorm, htotal⟩ := Timespec.normalised_ofTotal (intended_nonneg n)
    refine ⟨.ofTotal (intended n), by rw [hget n hlen, delayAfter_small n h8], hnorm, ?_⟩
    intro i before hi hbefore
    subst hi
    rw [hget i (by omega), delayAfter_small i (by omega), Option.some.injEq,
      Option.some.injEq] at hbefore
    subst hbefore
    rw [htotal, (Timespec.normalised_ofTotal (intended_nonneg i)).2, intended_succ]

/-- An agent whose server knows one dead parent only. -/
private def deadServer : Server := Server.init.register ⟨['r'], 10809⟩ 1 (by decide)

private def strandedAgent : Conn := ⟨false, ⟨['h'], 10809⟩, initialLevel, ⟨[], 0⟩, 0, 0, .request⟩

private def noLink (_ : AddrSock) : Ret := .errNetworkNoRoute

private def answers (_ : Nat) : Conn.Choice := ⟨0, true, default⟩

/-- The ninth pause of a call that finds no parent. -/
theorem connect_backoff_ninth :
    (sleptIn noLink ⟨[], 0⟩ answers 28 deadServer strandedAgent)[8]? =
        some (some ⟨65, -63464000000⟩) ∧
      ¬∃ delay, BackedOff (sleptIn noLink ⟨[], 0⟩ answers 28 deadServer strandedAgent) 8 delay := by
  have hninth : (sleptIn noLink ⟨[], 0⟩ answers 28 deadServer strandedAgent)[8]? =
      some (some ⟨65, -63464000000⟩) := by decide
  refine ⟨hninth, fun h => ?_⟩
  obtain ⟨delay, hb⟩ := h
  cases hninth.symm.trans hb.passed
  exact absurd hb.normalised.nsec_nonneg (by decide)

/-- The second one. -/
theorem connect_backoff_second : ∃ delay,
    BackedOff (sleptIn noLink ⟨[], 0⟩ answers 28 deadServer strandedAgent) 1 delay :=
  (connect_backoff noLink ⟨[], 0⟩ answers 28 deadServer strandedAgent 1 (by decide)).2 (by decide)

end FTBN
