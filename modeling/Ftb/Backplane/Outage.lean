import Mathlib.Logic.Relation
import Ftb.Manager.Queue
import Ftb.Backplane.World

/-!
# A backplane that loses a link

An agent and its parent lose their connection, once. What is in flight between the two is lost, and so
is what either sends to the other from then on: `FTBMI_util_reg_propagation` only warns when
`FTBN_Send_msg` fails. The network layer reports the loss to both ends, at any later time
(`FTBM_MSG_TYPE_CLEANUP_CONN`), and `FTBM_Cleanup_connection` of the agent below goes on to
`FTBMI_util_reconnect`, where `FTBN_Connect` finds another parent. Everything else that the backplane
does goes on meanwhile.
-/

open FTB FTBU FTBN FTBMI Trace

namespace Backplane

variable {ι : Type} (P : Places ι)

/-- A lost link: the agent and the parent it lost, and which of them has not been told yet. -/
structure Outage (ι : Type) where
  child : ι
  parent : ι
  childDue : Bool
  parentDue : Bool

/-- The backplane, and the link it has lost. -/
structure System (ι : Type) where
  world : World ι
  outage : Option (Outage ι)

/-- The network layer of an agent whose `FTBN_Connect` finds `parent`. The registration is written to
the connection that is opened, wherever `dst` points. -/
def rejoining (parent : LocationId) : Network (List Msg) :=
  { outbox with
    connect := fun msg _ net => (.success, parent, net ++ [{ msg with dst := agentId parent }]) }

/-- `x` is `y` or lies below it. -/
def World.Below (w : World ι) (x y : ι) : Prop :=
  Relation.ReflTransGen (fun i j => w.parent i = some j) x y

section
variable [DecidableEq ι]

/-- With nothing in flight between the two. -/
def World.cut (w : World ι) (i j : ι) : World ι := (w.drain i j []).drain j i []

/-- What has been sent over the lost link is lost. -/
def World.cutAlong (w : World ι) : Option (Outage ι) → World ι
  | none => w
  | some o => w.cut o.child o.parent

/-- With another parent for the agent, or none. -/
def World.hang (w : World ι) (b : ι) (parent : Option ι) : World ι :=
  { w with parent := Function.update w.parent b parent }

/-- The turn of `x` when it is told that its connection to `y` is gone. -/
def World.cleanup (net : Network (List Msg)) (w : World ι) (x y : ι) : Option (World ι) :=
  (Agent.turn net (w.nodes x) (FTBM.Queue.cleanupMsg, P.loc y)).map (w.post P x)

/-- What the system does next: anything the backplane does, the loss of the link of an agent to its
parent, and the turns in which the parent and the agent are told, the agent with `d` to be found. -/
inductive Move (ι : Type)
  | act (c : Action ι)
  | lose (b : ι)
  | cleanParent
  | cleanChild (d : ι)
  deriving DecidableEq

def System.step (s : System ι) : Move ι → Option (System ι)
  | .act c => (act P s.world c).map fun w => ⟨w.cutAlong s.outage, s.outage⟩
  | .lose b =>
    match s.outage, s.world.parent b with
    | none, some a => some ⟨(s.world.cut b a).hang b none, some ⟨b, a, true, true⟩⟩
    | _, _ => none
  | .cleanParent =>
    match s.outage with
    | some ⟨b, a, childDue, true⟩ =>
      (s.world.cleanup P outbox a b).map fun w => ⟨w.cut b a, some ⟨b, a, childDue, false⟩⟩
    | _ => none
  | .cleanChild d =>
    match s.outage with
    | some ⟨b, a, true, parentDue⟩ =>
      (s.world.cleanup P (rejoining (P.loc d)) b a).map fun w =>
        ⟨(w.cut b a).hang b (some d), some ⟨b, a, false, parentDue⟩⟩
    | _ => none

/-- Moves, one after the other. -/
def System.run (s : System ι) (moves : List (Move ι)) : Option (System ι) :=
  moves.foldlM (System.step P) s

/-- Clients keep to `Control`, and the parent that is found is a running agent, another one than before,
that does not lie below the agent. -/
def Allowed (s : System ι) : Move ι → Prop
  | .act c => Control P c
  | .cleanChild d => ∀ o, s.outage = some o →
      d ∈ s.world.agents ∧ d ≠ o.parent ∧ ¬s.world.Below d o.child
  | _ => True

/-- The systems that such moves reach, from one agent. -/
def Survived : System ι → Prop :=
  Reachable (fun s => ∃ r, s = ⟨start P r, none⟩) fun s s' =>
    ∃ m, Allowed P s m ∧ s.step P m = some s'

/-- Deliveries, one after the other. -/
def System.deliverAll (s : System ι) (links : List (ι × ι)) : Option (System ι) :=
  links.foldlM (fun s l => s.step P (.act (.deliver l.1 l.2))) s

end

end Backplane
