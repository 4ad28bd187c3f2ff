import Ftb.Tcp.Transfer

/-!
# The streams of a process

What the calls of a process send and receive (`reportCalls`), and where it is found in the bytes of
the descriptors. The messages are tagged with their descriptor (`Tagged`): `Settled` is the invariant
between calls, and `Busy` the one inside a call that works on one descriptor, about which it says
what `V` says.
-/

open FTB FTBU Journal Pieces

namespace FTBN.Io

/-! ## What calls send and receive -/

/-- The messages that calls were given to send, with the return codes, and those that they received,
with their sources. -/
structure Report where
  sent : List (Msg × Ret)
  received : List (Msg × LocationId)

section
variable (lay : Layout)

def Call.report : Call → NetProg Report
  | .connectTo mem regMsg => do
    let r ← utilConnectTo lay mem regMsg
    pure ⟨[(regMsg, r.1)], []⟩
  | .sendMsg msg => do
    let ret ← Io.sendMsg lay msg
    pure ⟨[(msg, ret)], []⟩
  | .recvMsg mem isNull blocking => do
    let r ← Io.recvMsg lay mem isNull blocking
    pure ⟨[], r.2.toList⟩
  | .grabMessages mem => do
    let grabbed ← Io.grabMessages lay mem
    pure ⟨[], grabbed.msgs⟩
  | .disconnectPeer peerLocationId => do
    let _ ← Io.disconnectPeer peerLocationId
    pure ⟨[], []⟩
  | .finalize => do
    let _ ← Io.finalize
    pure ⟨[], []⟩

/-- `runCalls`, with what the calls report (`runCalls_eq`: it is the same run). -/
def reportCalls : List Call → NetProg Report
  | [] => pure ⟨[], []⟩
  | call :: calls => do
    let _ ← connections
    let first ← call.report lay
    let rest ← reportCalls calls
    pure ⟨first.sent ++ rest.sent, first.received ++ rest.received⟩

theorem map_unit {α : Type} (p : NetProg α) (f : α → Report) (s : Net) :
    (do
      let _ ← p
      pure () : NetProg Unit) s =
      ((do
        let a ← p
        pure (f a) : NetProg Report) s).map fun r => ((), r.2) := by
  rw [Prog.bind_run, Prog.bind_run]
  cases p s <;> rfl

theorem prog_eq (call : Call) (s : Net) :
    call.prog lay s = (call.report lay s).map fun r => ((), r.2) := by
  cases call <;> exact map_unit _ _ s

/-- The runs are those of `runCalls`. -/
theorem runCalls_eq (calls : List Call) (s : Net) :
    runCalls lay calls s = (reportCalls lay calls s).map fun r => ((), r.2) := by
  induction calls generalizing s with
  | nil => rfl
  | cons call calls ih =>
    rw [runCalls, reportCalls, Prog.bind_run, Prog.bind_run]
    cases connections s with
    | none => rfl
    | some x =>
      obtain ⟨conns, mid, t⟩ := x
      rw [Option.bind_some, Option.bind_some, Prog.bind_run, Prog.bind_run]
      dsimp only
      rw [prog_eq]
      cases call.report lay mid with
      | none => rfl
      | some y =>
        obtain ⟨first, mid', u⟩ := y
        rw [Option.map_some, Option.bind_some, Option.bind_some, Prog.bind_run]
        dsimp only
        rw [ih]
        cases reportCalls lay calls mid' with
        | none => rfl
        | some z =>
          obtain ⟨rest, last, w⟩ := z
          show some ((), last, t ++ (u ++ w)) = some ((), last, t ++ (u ++ (w ++ [])))
          rw [List.append_nil]

end

/-! ## Messages and their descriptors -/

/-- A message that a call was given to send, and the descriptor of the connection that the call had
for it. -/
structure Sending where
  fd : Option Fd
  msg : Msg
  ret : Ret

/-- A message that was received: the bytes, from a descriptor. -/
structure Delivery where
  fd : Fd
  src : LocationId
  bytes : List UInt8

structure Tagged where
  sent : List Sending
  received : List Delivery

namespace Tagged

def nil : Tagged := ⟨[], []⟩

def append (g g' : Tagged) : Tagged := ⟨g.sent ++ g'.sent, g.received ++ g'.received⟩

instance : Append Tagged := ⟨append⟩

/-- What is tagged with one descriptor. -/
def on (fd : Fd) (g : Tagged) : Tagged :=
  ⟨g.sent.filter fun x => x.fd = some fd, g.received.filter fun d => d.fd = fd⟩

/-- The messages without their descriptors. -/
def report (lay : Layout) (g : Tagged) : Report :=
  ⟨g.sent.map fun x => (x.msg, x.ret), g.received.map fun d => (lay.toMsg d.bytes, d.src)⟩

/-- The messages handed to a connection. -/
def msgs (g : Tagged) : List Msg := g.sent.map Sending.msg

/-- Those whose call returned `FTB_SUCCESS`. -/
def done (g : Tagged) : List Msg := (g.sent.filter fun x => x.ret = .success).map Sending.msg

variable (fd : Fd) (g g' g'' : Tagged)

@[simp] theorem append_sent : (g ++ g').sent = g.sent ++ g'.sent := rfl

@[simp] theorem append_received : (g ++ g').received = g.received ++ g'.received := rfl

theorem append_nil : g ++ nil = g := by
  show Tagged.mk (g.sent ++ []) (g.received ++ []) = g
  rw [List.append_nil, List.append_nil]

theorem append_assoc : g ++ g' ++ g'' = g ++ (g' ++ g'') := by
  show Tagged.mk (g.sent ++ g'.sent ++ g''.sent) (g.received ++ g'.received ++ g''.received) =
    Tagged.mk (g.sent ++ (g'.sent ++ g''.sent)) (g.received ++ (g'.received ++ g''.received))
  rw [List.append_assoc, List.append_assoc]

theorem on_append : (g ++ g').on fd = g.on fd ++ g'.on fd := by
  show Tagged.mk _ _ = Tagged.mk _ _
  rw [append_sent, append_received, List.filter_append, List.filter_append]
  rfl

@[simp] theorem msgs_append : (g ++ g').msgs = g.msgs ++ g'.msgs := List.map_append

@[simp] theorem done_append : (g ++ g').done = g.done ++ g'.done := by
  show ((g.sent ++ g'.sent).filter _).map _ = _
  rw [List.filter_append, List.map_append]
  rfl

@[simp] theorem msgs_received (deliveries : List Delivery) : msgs ⟨[], deliveries⟩ = [] := rfl

@[simp] theorem done_received (deliveries : List Delivery) : done ⟨[], deliveries⟩ = [] := rfl

theorem report_append (lay : Layout) :
    (g ++ g').report lay =
      ⟨(g.report lay).sent ++ (g'.report lay).sent,
        (g.report lay).received ++ (g'.report lay).received⟩ := by
  show Report.mk _ _ = Report.mk _ _
  rw [append_sent, append_received, List.map_append, List.map_append]
  rfl

end Tagged

/-- What there is of a descriptor: the bytes, and the messages that are tagged with it. -/
structure View where
  reads : List UInt8
  writes : List UInt8
  tags : Tagged

def view (g : Tagged) (past : List FdOp) (fd : Fd) : View :=
  ⟨readFrom fd past, writtenTo fd past, g.on fd⟩

namespace View

def empty : View := ⟨[], [], .nil⟩

def move (v : View) (reads writes : List UInt8) : View :=
  ⟨v.reads ++ reads, v.writes ++ writes, v.tags⟩

def tag (v : View) (g : Tagged) : View := ⟨v.reads, v.writes, v.tags ++ g⟩

section
variable (v : View) (reads writes : List UInt8) (g : Tagged)

@[simp] theorem move_reads : (v.move reads writes).reads = v.reads ++ reads := rfl

@[simp] theorem move_writes : (v.move reads writes).writes = v.writes ++ writes := rfl

@[simp] theorem move_tags : (v.move reads writes).tags = v.tags := rfl

@[simp] theorem tag_reads : (v.tag g).reads = v.reads := rfl

@[simp] theorem tag_writes : (v.tag g).writes = v.writes := rfl

@[simp] theorem tag_tags : (v.tag g).tags = v.tags ++ g := rfl

end

end View

/-- `fd` is a descriptor that `accept` returns in a run from `s`. -/
def Net.accepts (s : Net) (fd : Fd) : Bool :=
  decide (s.nextFd ≤ fd ∧ s.opened[fd - s.nextFd]? = some (.accept true))

end FTBN.Io
