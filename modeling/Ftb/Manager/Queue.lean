import Ftb.Lib.Chain
import Ftb.Manager.State

/-!
# The message queue of an agent (`FTBM_Fill_message_queue`, `FTBM_Recv`)

Two threads share a linked list of `FTBM_msg_node_t`. The filler grabs a batch into nodes of its
own and then appends it under `message_queue_mutex`; the progress thread takes one node at a time
under the same mutex. Each section under the mutex is one step here, and so is the grabbing,
which works on nodes that only the filler knows. `malloc` returns addresses that were never used.

`returned` and `appended` record what `FTBM_Recv` returned and what was appended; no step reads
them.
-/

open FTB

namespace FTBM.Queue

/-- A message with the location it came from. -/
abbrev Item := Msg × LocationId

/-- `FTBM_msg_node_t`. -/
structure Node where
  msg : Msg
  incomingSrc : LocationId
  next : Option Nat
  deriving DecidableEq, Repr

/-- What the node carries. -/
def Node.item (n : Node) : Item := (n.msg, n.incomingSrc)

/-- What `FTBN_Grab_messages` grabs. `failed` is the disconnected location when it returns
`FTB_ERR_NETWORK_GENERAL`; otherwise it returns `FTB_SUCCESS`. -/
structure Batch where
  failed : Option LocationId
  msgs : List Item
  deriving DecidableEq, Repr

/-- The message `FTBM_Fill_message_queue` puts before a failing batch. -/
def cleanupMsg : Msg :=
  { msgType := .cleanupConn, src := default, dst := default, event := default }

/-- The messages of a batch, in the order they have to be handled. -/
def Batch.items (b : Batch) : List Item :=
  match b.failed with
  | some location => (cleanupMsg, location) :: b.msgs
  | none => b.msgs

/-- The filler between its two sections: its `head` and `tail`, and what it grabbed. -/
inductive Filler
  | idle
  | grabbed (head tail : Option Nat) (batch : Batch)
  deriving DecidableEq, Repr

/-- The progress thread: outside of `FTBM_Recv`, or in its `pthread_cond_wait`. -/
inductive Receiver
  | outside
  | waiting
  deriving DecidableEq, Repr

structure State where
  mem : Nat → Option Node
  brk : Nat
  head : Option Nat
  tail : Option Nat
  filler : Filler
  receiver : Receiver
  returned : List Item
  appended : List Item

def State.init : State where
  mem := fun _ => none
  brk := 0
  head := none
  tail := none
  filler := .idle
  receiver := .outside
  returned := []
  appended := []

/-- `malloc` of a node with this content. -/
def State.malloc (s : State) (n : Node) : State :=
  { s with mem := Function.update s.mem s.brk (some n), brk := s.brk + 1 }

/-- `p->next = q`. No value for a null or a dangling pointer. -/
def State.setNext (s : State) (p q : Option Nat) : Option State :=
  match p with
  | none => none
  | some t =>
    match s.mem t with
    | none => none
    | some n => some { s with mem := Function.update s.mem t (some { n with next := q }) }

/-- How `FTBN_Grab_messages` adds a message to the list of `*msg_head` and `*msg_tail`. -/
def linkNode (acc : State × Option Nat × Option Nat) (item : Item) :
    Option (State × Option Nat × Option Nat) :=
  let (s, head, tail) := acc
  let node := some s.brk
  let s := s.malloc { msg := item.1, incomingSrc := item.2, next := none }
  match head with
  | none => some (s, node, node)
  | some _ =>
    match s.setNext tail node with
    | none => none
    | some s => some (s, head, node)

/-- `FTBM_Fill_message_queue` up to the mutex. -/
def grab (b : Batch) (s : State) : Option State :=
  match b.msgs.foldlM linkNode (s, none, none) with
  | none => none
  | some (s, head, tail) =>
    match b.failed with
    | none => some { s with filler := .grabbed head tail b }
    | some location =>
      let node := s.brk
      let s := s.malloc { msg := cleanupMsg, incomingSrc := location, next := head }
      some { s with filler := .grabbed (some node) tail b }

/-- The section of `FTBM_Fill_message_queue` under the mutex. -/
def append (head tail : Option Nat) (b : Batch) (s : State) : Option State :=
  let s := { s with filler := .idle, appended := s.appended ++ b.items }
  match head with
  | none => some s
  | some _ =>
    let qhead := match s.head with
      | none => head
      | some p => some p
    match s.tail with
    | none => some { s with head := qhead, tail }
    | some t =>
      match s.setNext (some t) head with
      | none => none
      | some s => some { s with head := qhead, tail }

/-- `FTBM_Recv` from its second test of `message_queue_head`: the message, or `FTBN_NO_MSG`. -/
def take (s : State) : Option State :=
  match s.head with
  | none => some { s with receiver := .outside }
  | some p =>
    match s.mem p with
    | none => none
    | some n =>
      let tail := match n.next with
        | none => none
        | some _ => s.tail
      some { s with
        mem := Function.update s.mem p none, head := n.next, tail, receiver := .outside
        returned := s.returned ++ [n.item] }

/-- What a thread does next. `recv` enters `FTBM_Recv`; `wake` leaves `pthread_cond_wait`, signalled
or not. -/
inductive Ev
  | grab (b : Batch)
  | append
  | recv
  | wake
  deriving DecidableEq, Repr

/-- One step. No value for a thread that is elsewhere, or for undefined behaviour. -/
def step (s : State) (e : Ev) : Option State :=
  match e, s.filler, s.receiver with
  | .grab b, .idle, _ => grab b s
  | .append, .grabbed head tail b, _ => append head tail b s
  | .recv, _, .outside =>
    match s.head with
    | none => some { s with receiver := .waiting }
    | some _ => take s
  | .wake, _, .waiting => take s
  | _, _, _ => none

/-- The steps in the order of the interleaving. -/
def run (evs : List Ev) : Option State := evs.foldlM step State.init

end FTBM.Queue
