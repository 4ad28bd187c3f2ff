import Ftb.Backplane.Outage

/-!
# A backplane that loses any number of links

Links are lost at any time, one after the other or before anybody has been told of the last one. The
network layer reports each loss to both ends (`FTBM_MSG_TYPE_CLEANUP_CONN`), at any later time and in
any order, or to one end only, or never: an agent that stops loses all its links and is told of none.
An agent that is told of its parent goes on to `FTBMI_util_reconnect`, where `FTBN_Connect` finds
another parent, or none, and then the agent is a root.
-/

open FTB FTBU FTBN FTBMI Trace

namespace Backplane

variable {ι : Type} (P : Places ι)

/-- The backplane; `(i, j)` is in `due` when `i` has lost its link to `j` and has not been told. -/
structure Damaged (ι : Type) where
  world : World ι
  due : List (ι × ι)

/-- What the network layer does on `FTBN_Connect`: the agent `found` is the new parent, if any. -/
def finding : Option ι → Network (List Msg)
  | none => outbox
  | some d => rejoining (P.loc d)

/-- The agent goes by the other one as its parent. -/
def World.GoesBy (w : World ι) (x y : ι) : Prop :=
  isEqualLocationId (w.nodes x).info.parent (P.loc y) = true

instance (w : World ι) (x y : ι) : Decidable (w.GoesBy P x y) :=
  inferInstanceAs (Decidable (_ = true))

/-- What happens next: anything the backplane does, the loss of the link of an agent to its parent, and
the turn in which `x` is told of `y`, with the parent to be found if `y` was the parent. -/
inductive Happening (ι : Type)
  | act (c : Action ι)
  | lose (b : ι)
  | told (x y : ι) (found : Option ι)
  deriving DecidableEq

section
variable [DecidableEq ι]

/-- With nothing in flight where a link is lost. -/
def World.silence (w : World ι) (due : List (ι × ι)) : World ι :=
  { w with chan := fun i j => if (i, j) ∈ due ∨ (j, i) ∈ due then [] else w.chan i j }

def Damaged.step (s : Damaged ι) : Happening ι → Option (Damaged ι)
  | .act c => (act P s.world c).map fun w => ⟨w.silence s.due, s.due⟩
  | .lose b =>
    match s.world.parent b with
    | none => none
    | some a => some ⟨(s.world.cut b a).hang b none, (b, a) :: (a, b) :: s.due⟩
  | .told x y found =>
    if (x, y) ∈ s.due then
      let due := s.due.filter (· ≠ (x, y))
      if s.world.GoesBy P x y then
        (s.world.cleanup P (finding P found) x y).map fun w =>
          ⟨(w.silence s.due).hang x found, due⟩
      else (s.world.cleanup P outbox x y).map fun w => ⟨w.silence s.due, due⟩
    else none

/-- What happens, one after the other. -/
def Damaged.run (s : Damaged ι) (hs : List (Happening ι)) : Option (Damaged ι) :=
  hs.foldlM (Damaged.step P) s

/-- Clients keep to `Control`. The parent that is found is a running agent that does not lie below the
agent, and neither of them has still to be told of an older link between them; so it is not the one that
the agent is told of. -/
def Feasible (s : Damaged ι) : Happening ι → Prop
  | .act c => Control P c
  | .lose _ => True
  | .told x y found => s.world.GoesBy P x y → ∀ d, found = some d →
      d ∈ s.world.agents ∧ ¬s.world.Below d x ∧ (x, d) ∉ s.due ∧ (d, x) ∉ s.due

/-- What is reached, from one agent. -/
def Endured : Damaged ι → Prop :=
  Reachable (fun s => ∃ r, s = ⟨start P r, []⟩) fun s s' =>
    ∃ h, Feasible P s h ∧ s.step P h = some s'

/-- Deliveries, one after the other. -/
def Damaged.deliverAll (s : Damaged ι) (links : List (ι × ι)) : Option (Damaged ι) :=
  links.foldlM (fun s l => s.step P (.act (.deliver l.1 l.2))) s

end

end Backplane
