import Mathlib.Logic.Function.Basic
import Ftb.Manager.Catchers

/-!
# The backplane

The agents of a backplane as one system: each runs `progress_loop` over the manager library, and a
FIFO channel that loses nothing leads from each to every other. Only neighbours in the tree of agents
use theirs: an agent that starts registers with its parent (`FTBM_Init`), and `peers` decides whom an
agent sends to. A message of a client takes effect when the agent handles it, so clients have no
channels; what an agent sends, to clients also, is kept in `sent`.

`ι` are the processes of the agents, at the locations of `Places`.
-/

open FTB FTBU FTBN FTBMI Trace

namespace Backplane

/-- Where the agents run: in different processes, none of which is process 0. -/
structure Places (ι : Type) where
  loc : ι → LocationId
  distinct : ∀ i j, isEqualLocationId (loc i) (loc j) = true → i = j
  pid : ∀ i, (loc i).pid ≠ 0

variable {ι : Type} (P : Places ι)

/-- The id of the agent. -/
def Places.agent (i : ι) : Id := agentId (P.loc i)

/-- A client: in none of the processes of the agents, and not under their names. -/
def Places.IsClient (id : Id) : Prop :=
  (∀ i, isEqualLocationId id.locationId (P.loc i) = false) ∧ FTBM.isManagerNameCase id = false

structure World (ι : Type) where
  /-- the manager library of each agent, with what it was told; of no meaning before it starts -/
  nodes : ι → Manager (List Msg × List Agent.Incident)
  agents : List ι
  parent : ι → Option ι
  chan : ι → ι → List Msg
  sent : ι → List Msg

/-- Neighbours in the tree. -/
def World.Adj (w : World ι) (i j : ι) : Prop := w.parent i = some j ∨ w.parent j = some i

/-- After the history, the component is registered and holds a subscription that the event matches. -/
def Catches (hist : List Agent.Incident) (event : Event) (id : Id) : Prop :=
  Agent.Registered hist id ∧ ∃ mask, matchMask event mask = true ∧ Agent.Holds hist id mask

/-- The messages addressed to the process. -/
def toward (location : LocationId) (msgs : List Msg) : List Msg :=
  msgs.filter fun msg => isEqualLocationId msg.dst.locationId location

/-- `FTBM_Init` of an agent. -/
def boot (w : Network (List Msg)) (location : LocationId) :
    Manager (List Msg × List Agent.Incident) :=
  (FTBM.init (Agent.logged w) false location ([], [])).2

/-- The network layer of an agent whose `FTBN_Connect` finds the parent and sends it the
registration. -/
def connecting (parent : LocationId) : Network (List Msg) :=
  { outbox with connect := fun msg _ net => (.success, parent, net ++ [msg]) }

/-- The first agent, alone. -/
def start (r : ι) : World ι where
  nodes i := boot outbox (P.loc i)
  agents := [r]
  parent _ := none
  chan _ _ := []
  sent _ := []

section
variable [DecidableEq ι]

/-- The agent at `x` goes on with `a`, whose messages are sent. -/
def World.post (w : World ι) (x : ι) (a : Manager (List Msg × List Agent.Incident)) : World ι :=
  { w with
    nodes := Function.update w.nodes x ⟨a.info, [], a.net.2⟩
    chan := fun i j => if i = x then w.chan i j ++ toward (P.loc j) a.net.1 else w.chan i j
    sent := Function.update w.sent x (w.sent x ++ a.net.1) }

/-- One turn of `progress_loop` at `x`. -/
def World.handle (w : World ι) (x : ι) (msg : Msg) (incomingSrc : LocationId) :
    Option (World ι) :=
  (Agent.turn outbox (w.nodes x) (msg, incomingSrc)).map (w.post P x)

/-- What is left in a channel. -/
def World.drain (w : World ι) (i j : ι) (rest : List Msg) : World ι :=
  { w with chan := fun k l => if k = i ∧ l = j then rest else w.chan k l }

/-- The first message of the channel is taken out and handled. -/
def World.deliver (w : World ι) (i j : ι) : Option (World ι) :=
  match w.chan i j with
  | [] => none
  | msg :: rest => (w.drain i j rest).handle P j msg (P.loc i)

/-- With the new agent `n` below `p`, and its registration on the way. -/
def World.joined (w : World ι) (n p : ι) : World ι :=
  let a := boot (connecting (P.loc p)) (P.loc n)
  { nodes := Function.update w.nodes n ⟨a.info, [], a.net.2⟩
    agents := n :: w.agents
    parent := Function.update w.parent n (some p)
    chan := fun i j => if i = n ∧ j = p then w.chan i j ++ a.net.1 else w.chan i j
    sent := Function.update w.sent n (w.sent n ++ a.net.1) }

/-- The agent `n` starts below `p`. -/
def World.join (w : World ι) (n p : ι) : Option (World ι) :=
  if n ∉ w.agents ∧ p ∈ w.agents then some (w.joined P n p) else none

/-- A message of a client reaches the agent `a`. -/
def World.client (w : World ι) (a : ι) (msg : Msg) : Option (World ι) :=
  if a ∈ w.agents then w.handle P a msg msg.src.locationId else none

inductive Action (ι : Type)
  | client (a : ι) (msg : Msg)
  | join (n p : ι)
  | deliver (i j : ι)
  deriving DecidableEq

def act (w : World ι) : Action ι → Option (World ι)
  | .client a msg => w.client P a msg
  | .join n p => w.join P n p
  | .deliver i j => w.deliver P i j

/-- Actions, one after the other. -/
def World.run (w : World ι) (acts : List (Action ι)) : Option (World ι) := acts.foldlM (act P) w

/-- What clients do before an event is published: they register, subscribe, cancel and deregister
(and send messages that change nothing). -/
def Control : Action ι → Prop
  | .client _ msg => P.IsClient msg.src ∧ msg.msgType ≠ .notify ∧ msg.msgType ≠ .cleanupConn
  | _ => True

/-- The worlds that these actions reach, from one agent. -/
def Reached : World ι → Prop :=
  Reachable (fun w => ∃ r, w = start P r) fun w w' => ∃ c, Control P c ∧ act P w c = some w'

/-- Deliveries, one after the other. -/
def World.deliverAll (w : World ι) (links : List (ι × ι)) : Option (World ι) :=
  links.foldlM (fun w l => w.deliver P l.1 l.2) w

/-- No registration, subscription or cancellation is in flight. -/
def Quiet (w : World ι) : Prop :=
  ∀ i j, ∀ msg ∈ w.chan i j, msg.msgType ≠ .clientReg ∧ msg.msgType ≠ .regSubscription ∧
    msg.msgType ≠ .subscriptionCancel

/-- No message is in flight. -/
def Drained (w : World ι) : Prop := ∀ i j, w.chan i j = []

end

end Backplane
