import Ftb.Tcp.Proof.Step
import Ftb.Tcp.Sock

/-!
# The ways out of `FTBN_Connect`

`FTBN_Connect` writes the parent's location through its out-parameter `parent_location_id`, and its
callers read only that. `Dial` is the loop of `Conn` with the out-parameter and the connection
table. Two parts of the loop write them: the root branch clears the process id, and
`FTBNI_util_connect_to` stores the location of the parent and adds the connection.

Every run of `Conn` with the server is one of these (`conn_run`). `exit_run` says what a run that
returns leaves: four ways out (`Exit`), which are the ways of `Sock.connect` (`exit_connect`,
`connect_of_exit`).
-/

open FTB FTBN FTBNI FTBN.Sock

namespace FTBN

/-- What `FTBNI_util_connect_to` comes to: a connection to the process at `dst`, no host or no
listener, or a failure of the socket or of the greeting. -/
inductive Linked
  | attached (dst : LocationId)
  | noRoute
  | general
  deriving DecidableEq, Repr

/-- What it returns. -/
def Linked.ret : Linked → Ret
  | .attached _ => .success
  | .noRoute => .errNetworkNoRoute
  | .general => .errNetworkGeneral

/-- What one step of the loop meets: the reply of the server, if it asks, and what the attempt to
connect comes to, if it makes one. -/
structure Answer where
  reply : Option BootstrapPkt
  link : Linked
  deriving DecidableEq, Repr

/-- A process in `FTBN_Connect` with `*parent_location_id` and the connection table. -/
structure Dial where
  conn : Conn
  parentLocationId : LocationId
  conns : List LocationId
  deriving DecidableEq, Repr

namespace Dial

/-- What `FTBNI_util_connect_to` writes. -/
def utilConnectTo (link : Linked) (t : Dial) : Dial :=
  match link with
  | .attached dst => { t with parentLocationId := dst, conns := dst :: t.conns }
  | .noRoute => t
  | .general => t

/-- `FTBN_Connect` up to its loop. A leaf tries its local agent first. -/
def start (link : Linked) (c : Conn) (parent : LocationId) (conns : List LocationId) : Dial :=
  let conn := c.start (fun _ => link.ret) default
  if c.leaf then utilConnectTo link ⟨conn, parent, conns⟩ else ⟨conn, parent, conns⟩

/-- The next step. -/
def step (t : Dial) (answer : Answer) : Dial :=
  match t.conn.pc with
  | .request =>
    let conn := t.conn.afterRequest answer.reply
    -- the root branch starts with `parent_location_id->pid = 0`
    if conn.pc = .rootReg then
      { t with conn, parentLocationId := { t.parentLocationId with pid := 0 } }
    else { t with conn }
  | .rootReg =>
    let ret := if t.conn.leaf then .errNotSupported else Conn.registerResult answer.reply
    { t with conn := t.conn.afterRootReg ret }
  | .connect =>
    { utilConnectTo answer.link t with conn := t.conn.afterConnect answer.link.ret }
  | .report => { t with conn := t.conn.afterReport }
  | .childReg => { t with conn := t.conn.afterChildReg (Conn.registerResult answer.reply) }
  | .done _ => t
  | .aborted => t

def run (answers : List Answer) (t : Dial) : Dial := answers.foldl step t

/-! ## The loop is the one of `Conn` -/

section
variable {link : AddrSock → Ret} {t : Dial}

/-- A step of the loop with the server is a step here, for the reply that the server gave. -/
theorem conn_step (hlink : ∀ addr, ∃ r : Linked, link addr = r.ret) (ch : Conn.Choice) (s : Server)
    (t : Dial) : ∃ answer, (t.step answer).conn = (Conn.step link ch (s, t.conn)).2 := by
  obtain ⟨r, hr⟩ := hlink t.conn.parentAddr
  unfold Conn.step
  cases hpc : t.conn.pc with
  | request =>
    let pkt := Bootstrap.parentRequest t.conn.me t.conn.myLevel t.conn.parentAddr
    refine ⟨⟨(Conn.exchange ch pkt s).2, r⟩, ?_⟩
    simp only [step, hpc]
    split <;> rfl
  | rootReg =>
    let pkt := Bootstrap.registerRequest t.conn.me (t.conn.parentLevel + 1)
    refine ⟨⟨(Conn.exchange ch pkt s).2, r⟩, ?_⟩
    simp only [step, hpc]
    cases t.conn.leaf <;> rfl
  | connect =>
    refine ⟨⟨none, r⟩, ?_⟩
    simp only [step, hpc, hr]
  | report => exact ⟨⟨none, r⟩, by simp only [step, hpc]⟩
  | childReg =>
    let pkt := Bootstrap.registerRequest t.conn.me t.conn.myLevel
    refine ⟨⟨(Conn.exchange ch pkt s).2, r⟩, ?_⟩
    simp only [step, hpc]
    rfl
  | done ret => exact ⟨⟨none, r⟩, by simp only [step, hpc]⟩
  | aborted => exact ⟨⟨none, r⟩, by simp only [step, hpc]⟩

/-- Every run of the loop with the server is a run here. -/
theorem conn_run (hlink : ∀ addr, ∃ r : Linked, link addr = r.ret) (chs : List Conn.Choice) :
    ∀ (s : Server) (t : Dial), ∃ answers,
      (run answers t).conn = (chs.foldl (fun sc ch => Conn.step link ch sc) (s, t.conn)).2 := by
  induction chs with
  | nil => exact fun _ t => ⟨[], rfl⟩
  | cons ch chs ih =>
    intro s t
    obtain ⟨answer, ha⟩ := conn_step hlink ch s t
    obtain ⟨answers, hrun⟩ := ih (Conn.step link ch (s, t.conn)).1 (t.step answer)
    refine ⟨answer :: answers, hrun.trans ?_⟩
    rw [ha]
    rfl

end

/-! ## What a return leaves -/

/-- What `FTBN_Connect` returns and leaves, from the parent so far and the connections before. -/
inductive Exit (parent : LocationId) (conns : List LocationId) :
    Ret → LocationId → List LocationId → Prop
  /-- a connection to a parent -/
  | attached (dst : LocationId) : Exit parent conns .success dst (dst :: conns)
  /-- the process is the root -/
  | root : Exit parent conns .success { parent with pid := 0 } conns
  /-- no parent, and the out-parameter is as it was -/
  | kept : Exit parent conns .errNetworkGeneral parent conns
  /-- no parent, and an earlier turn tried to be the root -/
  | cleared : Exit parent conns .errNetworkGeneral { parent with pid := 0 } conns

/-- While no parent is found the table is as it was, and so is the out-parameter but for its process
id. -/
def Searching (parent : LocationId) (conns : List LocationId) (t : Dial) : Prop :=
  t.conns = conns ∧ (t.parentLocationId = parent ∨ t.parentLocationId = { parent with pid := 0 })

/-- The invariant of the loop. -/
def Inv (parent : LocationId) (conns : List LocationId) (t : Dial) : Prop :=
  match t.conn.pc with
  | .rootReg => t.conns = conns ∧ t.parentLocationId = { parent with pid := 0 }
  | .childReg => t.conns = t.parentLocationId :: conns
  | .done ret => Exit parent conns ret t.parentLocationId t.conns
  | _ => Searching parent conns t

section
variable {parent : LocationId} {conns : List LocationId} {t : Dial} {ret : Ret}

theorem Searching.exit (h : Searching parent conns t) :
    Exit parent conns .errNetworkGeneral t.parentLocationId t.conns := by
  obtain ⟨hc, hp | hp⟩ := h
  · rw [hc, hp]
    exact .kept
  · rw [hc, hp]
    exact .cleared

theorem Searching.clear (h : Searching parent conns t) :
    { t.parentLocationId with pid := 0 } = ({ parent with pid := 0 } : LocationId) := by
  obtain ⟨-, hp | hp⟩ := h <;> rw [hp]

/-- A failed request never ends the loop: the first is repeated, the second aborts the process. -/
theorem pc_afterRequest (c : Conn) (reply : Option BootstrapPkt) :
    (c.afterRequest reply).pc = .rootReg ∨ (c.afterRequest reply).pc = .connect ∨
      (c.afterRequest reply).pc = .request ∨ (c.afterRequest reply).pc = .aborted := by
  have hfailed : ∀ ret, ret ≠ Ret.success →
      let c₁ := { c with parentAddr := { c.parentAddr with port := 0 } }
      let c₂ := if c.retry < connectRetryCount then c₁.loopEnd ret else { c₁ with pc := .aborted }
      c₂.pc = .request ∨ c₂.pc = .aborted := by
    intro ret hret
    by_cases hr : c.retry < connectRetryCount
    · left
      simp only [Conn.loopEnd, ne_eq, hret, not_false_eq_true, hr, and_self, if_true]
    · right
      simp only [if_neg hr]
  unfold Conn.afterRequest
  cases reply with
  | none => exact .inr (.inr (hfailed _ (by decide)))
  | some pktRecv =>
    unfold Bootstrap.parentReply
    by_cases ht : (pktRecv.bootstrapMsgType != addrRep) = true
    · simp only [ht, if_true]
      exact .inr (.inr (hfailed _ (by decide)))
    · simp only [ht, Bool.false_eq_true, if_false]
      split
      · exact .inl rfl
      · exact .inr (.inl rfl)

/-- What follows a result other than success, in the loop. -/
theorem Searching.loopEnd (h : Searching parent conns t) (c : Conn) :
    Inv parent conns { t with conn := c.loopEnd .errNetworkGeneral } := by
  unfold Conn.loopEnd
  split
  · exact h
  · exact h.exit

theorem inv_start (link : Linked) (c : Conn) (parent : LocationId) (conns : List LocationId) :
    Inv parent conns (start link c parent conns) := by
  have hs : Searching parent conns ⟨c, parent, conns⟩ := ⟨rfl, .inl rfl⟩
  unfold start Conn.start
  cases hl : c.leaf with
  | false => exact hs
  | true =>
    cases link with
    | attached dst => exact Exit.attached dst
    | noRoute => exact hs
    | general => exact Exit.kept

theorem inv_step (h : Inv parent conns t) (answer : Answer) :
    Inv parent conns (t.step answer) := by
  unfold step
  cases hpc : t.conn.pc with
  | request =>
    simp only [Inv, hpc] at h
    rcases pc_afterRequest t.conn answer.reply with hr | hr | hr | hr
    · simp only [hr, if_true, Inv]
      exact ⟨h.1, h.clear⟩
    all_goals
      simp only [hr, reduceCtorEq, if_false, Inv]
      exact h
  | rootReg =>
    simp only [Inv, hpc] at h
    obtain ⟨hc, hp⟩ := h
    dsimp only
    generalize (if t.conn.leaf then Ret.errNotSupported else Conn.registerResult answer.reply) = ret
    by_cases hret : ret = .success
    · rw [hret, Conn.afterRootReg_success]
      simp only [Inv, hc, hp]
      exact .root
    · rw [Conn.afterRootReg_fails hret]
      exact ⟨hc, .inr hp⟩
  | connect =>
    simp only [Inv, hpc] at h
    cases hlink : answer.link with
    | attached dst =>
      simp only [utilConnectTo, Linked.ret, Conn.afterConnect, reduceCtorEq, if_false, if_true]
      cases t.conn.leaf with
      | false =>
        simp only [Bool.not_false, if_true, Inv, h.1]
      | true =>
        simp only [Bool.not_true, Bool.false_eq_true, if_false, Conn.loopEnd, ne_eq,
          not_true_eq_false, false_and, Inv, h.1]
        exact .attached dst
    | noRoute => exact h
    | general => exact h.loopEnd t.conn
  | report =>
    simp only [Inv, hpc] at h
    -- `retry` is 0 again, so the loop goes on
    exact h
  | childReg =>
    simp only [Inv, hpc] at h
    rw [Conn.afterChildReg_eq]
    simp only [Inv, h]
    exact .attached _
  | done ret => exact h
  | aborted => exact h

theorem inv_run (answers : List Answer) (h : Inv parent conns t) :
    Inv parent conns (run answers t) := by
  induction answers generalizing t with
  | nil => exact h
  | cons answer answers ih => exact ih (inv_step h answer)

/-- A run that returns has taken one of the four ways out. -/
theorem exit_run (link : Linked) (c : Conn) (answers : List Answer)
    (hret : (run answers (start link c parent conns)).conn.pc = .done ret) :
    let t := run answers (start link c parent conns)
    Exit parent conns ret t.parentLocationId t.conns := by
  have h := inv_run answers (inv_start link c parent conns)
  rw [Inv, hret] at h
  exact h

end

/-! ## The ways out are those of `Sock.connect` -/

section
variable {msg : Msg} {parent parent' : LocationId} {n : Net} {ret : Ret} {conns : List LocationId}

theorem exit_connect (msg : Msg) (parent : LocationId) (n : Net) :
    let r := connect msg parent n
    Exit parent n.meet.2.conns r.1 r.2.1 r.2.2.conns := by
  simp only [connect]
  split
  · exact .attached _
  · exact .root
  · exact .cleared
  · split
    · exact .kept
    · unfold Net.record
      split <;> exact .kept

/-- Each way out is one that a call may meet. -/
theorem connect_of_exit {slot : Slot} {slots : List Slot} (hs : n.slots = slot :: slots)
    (h : Exit parent n.meet.2.conns ret parent' conns) :
    ∃ found, let r := connect msg parent { n with slots := { slot with found } :: slots }
      r.1 = ret ∧ r.2.1 = parent' ∧ r.2.2.conns = conns := by
  have hmeet : ∀ found,
      { n with slots := { slot with found } :: slots }.meet = ({ slot with found }, n.meet.2) := by
    intro found
    simp only [Net.meet, hs]
  simp only [connect, hmeet]
  cases h with
  | attached dst => exact ⟨.attached parent', rfl, rfl, rfl⟩
  | root => exact ⟨.root, rfl, rfl, rfl⟩
  | kept =>
    refine ⟨.failed false, rfl, rfl, ?_⟩
    dsimp only
    split
    · rfl
    · unfold Net.record
      split <;> rfl
  | cleared => exact ⟨.failed true, rfl, rfl, rfl⟩

end

end Dial

end FTBN
