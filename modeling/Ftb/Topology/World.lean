import Ftb.Bootstrap.Proof.Server
import Ftb.Tcp.Connect
import Mathlib.Data.Fintype.Basic
import Mathlib.Logic.Function.Basic

/-!
# The topology of the agents

One bootstrap server and any number of agents in or after `FTBN_Connect`. An action is one exchange
with the server, one attempt to connect, or something that happens to an agent: it starts, loses its
parent, crashes or deregisters. An attempt reaches an agent that runs at the address, or fails
anyhow. The topology is made of the parents that the last successful `FTBN_Connect` of each agent
obtained.

`ι` are the processes: one that is started again on the host of another is a new one, at an old
address.
-/

open Trace FTB FTBN FTBNI

namespace Topology

variable {ι : Type}

/-- An agent process. -/
structure Agent (ι : Type) where
  conn : Conn
  running : Bool
  /-- who accepted its last connection -/
  peer : Option ι
  /-- it has completed a `FTBN_Connect` -/
  connected : Bool
  /-- the parent that the last one obtained -/
  parent : Option ι

structure World (ι : Type) where
  server : Server
  agents : ι → Option (Agent ι)

def World.init : World ι := ⟨Server.init, fun _ => none⟩

/-- `j` is the parent of `i`. -/
def World.Below (w : World ι) (i j : ι) : Prop := ∃ p, w.agents i = some p ∧ p.parent = some j

/-- Following the parents never comes back. -/
def Acyclic (w : World ι) : Prop := ∀ i, ¬Relation.TransGen w.Below i i

inductive Action (ι : Type)
  /-- the process starts and calls `FTBN_Connect` -/
  | start (i : ι)
  /-- it has lost its parent and calls `FTBN_Connect` again -/
  | lost (i : ι)
  /-- the next exchange with the server -/
  | exchange (i : ι) (ch : Conn.Choice)
  /-- it connects to `j` -/
  | reach (i j : ι)
  /-- it cannot connect -/
  | unreached (i : ι) (ret : Ret)
  | crash (i : ι)
  | deregister (i : ι) (ch : Conn.Choice)

/-- The variables of `ftb_network_tcp.c` in a new process. -/
def newConn (me : AddrSock) : Conn where
  leaf := false
  me := me
  myLevel := initialLevel
  parentAddr := ⟨[], 0⟩
  parentLevel := 0
  retry := 0
  pc := .request

/-- The agent after a step of `FTBN_Connect`, which may have returned `FTB_SUCCESS`: as the root, or
below the peer. -/
def Agent.advance (p : Agent ι) (conn : Conn) : Agent ι :=
  if conn.pc = .done .success then
    { p with conn, connected := true, parent := if p.conn.pc = .childReg then p.peer else none }
  else { p with conn }

theorem advance_of_ne {p : Agent ι} {conn : Conn} (h : conn.pc ≠ .done .success) :
    p.advance conn = { p with conn } := if_neg h

theorem advance_done {p : Agent ι} {conn : Conn} (h : conn.pc = .done .success) : p.advance conn =
    { p with
      conn, connected := true, parent := if p.conn.pc = .childReg then p.peer else none } := if_pos h

section
variable [DecidableEq ι]

def World.set (w : World ι) (i : ι) (p : Agent ι) : World ι :=
  { w with agents := Function.update w.agents i (some p) }

@[simp] theorem set_self (w : World ι) (i : ι) (p : Agent ι) : (w.set i p).agents i = some p :=
  Function.update_self ..

@[simp] theorem set_of_ne {w : World ι} {i j : ι} {p : Agent ι} (h : j ≠ i) :
    (w.set i p).agents j = w.agents j :=
  Function.update_of_ne h ..

theorem set_cases {w : World ι} {i j : ι} {p q : Agent ι} (h : (w.set i p).agents j = some q) :
    j = i ∧ q = p ∨ j ≠ i ∧ w.agents j = some q := by
  by_cases hj : j = i
  · subst hj
    rw [set_self] at h
    exact .inl ⟨rfl, (Option.some.inj h).symm⟩
  · exact .inr ⟨hj, (set_of_ne hj).symm.trans h⟩

/-- What an action does, if the agent is in a state to do it. -/
def act (addr : ι → AddrSock) (w : World ι) : Action ι → Option (World ι)
  | .start i =>
    match w.agents i with
    | none => some (w.set i ⟨(newConn (addr i)).start (fun _ => .errNetworkNoRoute) ⟨[], 0⟩, true,
        none, false, none⟩)
    | some _ => none
  | .lost i => do
    let p ← w.agents i
    match p.running, p.conn.pc with
    | true, .done _ =>
      some (w.set i { p with conn := p.conn.start (fun _ => .errNetworkNoRoute) ⟨[], 0⟩ })
    | _, _ => none
  | .exchange i ch => do
    let p ← w.agents i
    if p.running = true ∧ p.conn.pc ∈ [.request, .rootReg, .report, .childReg] then
      let (server, conn) := Conn.step (fun _ => .errNetworkNoRoute) ch (w.server, p.conn)
      some { w.set i (p.advance conn) with server }
    else none
  | .reach i j => do
    let p ← w.agents i
    let q ← w.agents j
    if p.running = true ∧ p.conn.pc = .connect ∧ q.running = true
        ∧ isEqualAddrSock p.conn.parentAddr (addr j) = true then
      some (w.set i { p with conn := p.conn.afterConnect .success, peer := some j })
    else none
  | .unreached i ret => do
    let p ← w.agents i
    if p.running = true ∧ p.conn.pc = .connect ∧ ret ≠ .success then
      some (w.set i (p.advance (p.conn.afterConnect ret)))
    else none
  | .crash i => do
    let p ← w.agents i
    some (w.set i { p with running := false })
  | .deregister i ch => do
    let p ← w.agents i
    if p.running = true then
      let (server, _) := Conn.exchange ch (Bootstrap.deregisterRequest p.conn.me ch.junk) w.server
      some { w.set i { p with running := false } with server }
    else none

/-- The ways of an action. -/
inductive Acted (addr : ι → AddrSock) (w : World ι) : Action ι → World ι → Prop
  | start {i : ι} (hi : w.agents i = none) :
      Acted addr w (.start i)
        (w.set i ⟨(newConn (addr i)).start (fun _ => .errNetworkNoRoute) ⟨[], 0⟩, true, none,
          false, none⟩)
  | lost {i : ι} {p : Agent ι} {ret : Ret} (hp : w.agents i = some p)
      (hpc : p.conn.pc = .done ret) :
      Acted addr w (.lost i)
        (w.set i { p with conn := p.conn.start (fun _ => .errNetworkNoRoute) ⟨[], 0⟩ })
  | exchange {i : ι} {ch : Conn.Choice} {p : Agent ι} {s : Server} {conn : Conn}
      (hp : w.agents i = some p) (hrun : p.running = true)
      (hpc : p.conn.pc = .request ∨ p.conn.pc = .rootReg ∨ p.conn.pc = .report ∨
        p.conn.pc = .childReg)
      (hs : Conn.step (fun _ => .errNetworkNoRoute) ch (w.server, p.conn) = (s, conn)) :
      Acted addr w (.exchange i ch) { w.set i (p.advance conn) with server := s }
  | reach {i j : ι} {p q : Agent ι} (hp : w.agents i = some p) (hq : w.agents j = some q)
      (hpc : p.conn.pc = .connect) (hrun : q.running = true)
      (hj : isEqualAddrSock p.conn.parentAddr (addr j) = true) :
      Acted addr w (.reach i j)
        (w.set i { p with conn := p.conn.afterConnect .success, peer := some j })
  | unreached {i : ι} {p : Agent ι} {ret : Ret} (hp : w.agents i = some p)
      (hpc : p.conn.pc = .connect) (hret : ret ≠ .success) :
      Acted addr w (.unreached i ret) (w.set i (p.advance (p.conn.afterConnect ret)))
  | crash {i : ι} {p : Agent ι} (hp : w.agents i = some p) :
      Acted addr w (.crash i) (w.set i { p with running := false })
  | deregister {i : ι} {ch : Conn.Choice} {p : Agent ι} {s : Server} (hp : w.agents i = some p)
      (hrun : p.running = true) (hs : s = w.server ∨ s = w.server.remove p.conn.me) :
      Acted addr w (.deregister i ch) { w.set i { p with running := false } with server := s }

theorem acted {addr : ι → AddrSock} {w w' : World ι} {a : Action ι}
    (h : act addr w a = some w') : Acted addr w a w' := by
  cases a with
  | start i =>
    simp only [act] at h
    split at h
    · rename_i hi
      cases h
      exact .start hi
    · cases h
  | lost i =>
    obtain ⟨p, hp, h⟩ := Option.bind_eq_some_iff.1 h
    split at h
    · rename_i hpc
      cases h
      exact .lost hp hpc
    · cases h
  | exchange i ch =>
    obtain ⟨p, hp, h⟩ := Option.bind_eq_some_iff.1 h
    split at h
    · rename_i hpc
      cases h
      refine .exchange hp hpc.1 ?_ rfl
      simpa only [List.mem_cons, List.not_mem_nil, or_false] using hpc.2
    · cases h
  | reach i j =>
    obtain ⟨p, hp, h⟩ := Option.bind_eq_some_iff.1 h
    obtain ⟨q, hq, h⟩ := Option.bind_eq_some_iff.1 h
    split at h
    · rename_i hc
      cases h
      exact .reach hp hq hc.2.1 hc.2.2.1 hc.2.2.2
    · cases h
  | unreached i ret =>
    obtain ⟨p, hp, h⟩ := Option.bind_eq_some_iff.1 h
    split at h
    · rename_i hc
      cases h
      exact .unreached hp hc.2.1 hc.2.2
    · cases h
  | crash i =>
    obtain ⟨p, hp, h⟩ := Option.bind_eq_some_iff.1 h
    cases h
    exact .crash hp
  | deregister i ch =>
    obtain ⟨p, hp, h⟩ := Option.bind_eq_some_iff.1 h
    split at h
    · rename_i hrun
      have hw : w' = { w.set i { p with running := false } with
          server := (Conn.exchange ch (Bootstrap.deregisterRequest p.conn.me ch.junk) w.server).1 } :=
        (Option.some.inj h).symm
      subst hw
      refine .deregister hp hrun ?_
      -- the server may not answer, or not know the agent
      unfold Conn.exchange
      split
      · rw [Server.serve_deregReq rfl]
        split
        · exact .inl rfl
        · exact .inr rfl
      · exact .inl rfl
    · cases h

/-- `FTBNI_util_listen` fails at the address of a running agent, and the process aborts. -/
def Listens (addr : ι → AddrSock) (w : World ι) : Action ι → Prop
  | .start i => ∀ j q, w.agents j = some q → q.running = true →
      isEqualAddrSock (addr j) (addr i) = false
  | _ => True

instance [Fintype ι] (addr : ι → AddrSock) (w : World ι) (a : Action ι) :
    Decidable (Listens addr w a) :=
  match a with
  | .start i => inferInstanceAs (Decidable (∀ j q, w.agents j = some q → q.running = true →
      isEqualAddrSock (addr j) (addr i) = false))
  | .lost _ | .exchange _ _ | .reach _ _ | .unreached _ _ | .crash _ | .deregister _ _ =>
    inferInstanceAs (Decidable True)

/-- The worlds that actions reach. -/
def Reached (addr : ι → AddrSock) : World ι → Prop :=
  Reachable (· = World.init) fun w w' => ∃ a, act addr w a = some w'

/-- A process that starts is no agent yet, so different addresses are all that is needed. -/
theorem listens_of_distinct {addr : ι → AddrSock} {w w' : World ι}
    (ha : ∀ i j, isEqualAddrSock (addr i) (addr j) = true → i = j) {a : Action ι}
    (hact : act addr w a = some w') : Listens addr w a := by
  cases a with
  | start i =>
    intro j q hq _
    simp only [act] at hact
    split at hact
    · rename_i hi
      refine Bool.eq_false_iff.2 fun hji => ?_
      rw [ha j i hji, hi] at hq
      cases hq
    · cases hact
  | _ => trivial

/-- The running agents have addresses of their own. -/
def World.Apart (addr : ι → AddrSock) (w : World ι) : Prop :=
  ∀ i j p q, w.agents i = some p → w.agents j = some q → p.running = true → q.running = true →
    isEqualAddrSock (addr i) (addr j) = true → i = j

theorem World.Apart.start {addr : ι → AddrSock} {w : World ι} (h : w.Apart addr) {i : ι}
    (hl : Listens addr w (.start i)) (p : Agent ι) : (w.set i p).Apart addr := by
  intro j k q q' hq hq' hrun hrun' ha
  rcases set_cases hq with ⟨rfl, rfl⟩ | ⟨-, hold⟩ <;>
    rcases set_cases hq' with ⟨rfl, rfl⟩ | ⟨-, hold'⟩
  · rfl
  · have := hl k q' hold' hrun'
    rw [KeyEq.comm isEqualAddrSock, ha] at this
    cases this
  · have := hl j q hold hrun
    rw [ha] at this
    cases this
  · exact h j k q q' hold hold' hrun hrun' ha

/-- Only a start makes an agent run. -/
theorem World.Apart.update {addr : ι → AddrSock} {w : World ι} (h : w.Apart addr) {i : ι}
    {p p' : Agent ι} (hp : w.agents i = some p) (hr : p'.running = true → p.running = true)
    (s : Server) : ({ w.set i p' with server := s } : World ι).Apart addr := by
  have before : ∀ j q, (w.set i p').agents j = some q → q.running = true →
      ∃ q', w.agents j = some q' ∧ q'.running = true := by
    intro j q hq hrun
    rcases set_cases hq with ⟨rfl, rfl⟩ | ⟨-, hq⟩
    · exact ⟨p, hp, hr hrun⟩
    · exact ⟨q, hq, hrun⟩
  intro j k q q' hq hq' hrun hrun' ha
  obtain ⟨r, hr, hrr⟩ := before j q hq hrun
  obtain ⟨r', hr', hrr'⟩ := before k q' hq' hrun'
  exact h j k r r' hr hr' hrr hrr' ha

end

/-- Four agents on four hosts. -/
def hostOf (i : Fin 4) : AddrSock := ⟨[Char.ofNat (i.val + 97)], 10809⟩

def ask (i : Fin 4) (rand : Nat) : Action (Fin 4) := .exchange i ⟨rand, true, default⟩

/-- For the literals of `Fin 4`. -/
instance neZero_four : @NeZero Nat Zero.ofOfNat0 4 := ⟨Nat.succ_ne_zero 3⟩

/-- Agent 0 becomes the root, 1 and 3 connect below it, and 2 below 1. -/
def fourAgents : List (Action (Fin 4)) :=
  [.start 0, ask 0 0, ask 0 0,
    .start 1, ask 1 0, .reach 1 0, ask 1 0,
    .start 2, ask 2 1, .reach 2 1, ask 2 0,
    .start 3, ask 3 0, .reach 3 0, ask 3 0]

end Topology
