import Ftb.Client.Declare
import Ftb.Backplane.Traffic

/-!
# Processes on a backplane

Any number of processes run the client library (`ftb_client_lib.c`), each over a connection to one
agent of the backplane. A call of the API, a turn of the two threads of the library, a message that the
agent takes from a connection, and what the agents do among themselves come in any order. A message an
agent sends to a process is in the connection at once.

A process stays connected: its last client does not disconnect, so `FTBM_Finalize` is not reached. The
registration a process sends with `FTBN_Connect` is not handed to the agent: it is for a component
that never subscribes and that no message is sent to.
-/

open FTB FTBU FTBN FTBMI FTBCI

namespace E2E

/-! ## Connections -/

/-- A connection between a process and its agent, with what is in flight in both directions. -/
structure Line where
  up : List Msg
  down : List Msg
  deriving DecidableEq

/-- The network layer of the process at `here`, with the agent at `parent`. -/
def line (here parent : LocationId) : LeafNetwork Line where
  sendMsg msg net := (.success, { net with up := net.up ++ [msg] })
  connect _ _ net := (.success, parent, net)
  disconnectPeer _ net := (.success, net)
  init net := (here, net)
  recvMsg _ net :=
    match net.down with
    | [] => (.noMsg, default, net)
    | msg :: down => (.success, msg, { net with down })
  finalize net := net
  waiting net := net.down.length
  waiting_lt {net net' msg} h := by
    obtain ⟨up, down⟩ := net
    cases down with
    | nil => cases h
    | cons m down =>
      cases h
      exact Nat.lt_succ_self _

/-- Where the agents and the processes are, and which agent a process connects to. -/
structure Site (ι κ : Type) where
  places : Backplane.Places ι
  loc : κ → LocationId
  parent : κ → ι
  distinct : ∀ k l, isEqualLocationId (loc k) (loc l) = true → k = l
  apart : ∀ k i, isEqualLocationId (loc k) (places.loc i) = false

section
variable {ι κ : Type} (S : Site ι κ)

def Site.line (k : κ) : LeafNetwork Line := E2E.line (S.loc k) (S.places.loc (S.parent k))

/-- The id of a client of the process. -/
def Site.client (k : κ) (handle : ClientHandle) : Id := ⟨S.loc k, handle.clientId⟩

end

/-! ## Steps -/

structure State (ι κ : Type) where
  world : Backplane.World ι
  procs : κ → Lib Line

/-- The first agent, and processes without clients. -/
def State.start {ι κ : Type} (S : Site ι κ) (r : ι) : State ι κ where
  world := Backplane.start S.places r
  procs _ := Lib.initial ⟨[], []⟩

/-- What happens next: a call of the API; `FTBC_Declare_publishable_events`; a turn of the thread that
receives; a turn of the thread that runs the callbacks of a client; the agent takes the next message
from the connection; an agent joins or takes a message from another one. -/
inductive Move (ι κ : Type)
  | api (k : κ) (call : FTBC.ApiCall)
  | declare (k : κ) (handle : ClientHandle) (schemaFile : Option CStr) (einfo : List EventInfo)
  | receive (k : κ)
  | callback (k : κ) (handle : ClientHandle)
  | up (k : κ)
  | world (c : Backplane.Action ι)

section
variable {ι κ : Type} [DecidableEq ι] [DecidableEq κ] (S : Site ι κ)

/-- The process goes on with `p`, and has not disconnected its last client. -/
def State.goOn (s : State ι κ) (k : κ) (p : Lib Line) : Option (State ι κ) :=
  if (s.procs k).manager.info.initialized && !p.manager.info.initialized then none
  else some { s with procs := Function.update s.procs k p }

/-- The messages that the agents have sent to the process in the step to `w`. -/
def State.sentTo (s : State ι κ) (w : Backplane.World ι) (k : κ) : List Msg :=
  Backplane.toward (S.loc k)
    ((w.sent (S.parent k)).drop (s.world.sent (S.parent k)).length)

/-- The agents go on with `w`, and what they have sent is in the connections. -/
def State.carry (s : State ι κ) (w : Backplane.World ι) : State ι κ where
  world := w
  procs k :=
    let net := (s.procs k).manager.net
    (s.procs k).withNet { net with down := net.down ++ s.sentTo S w k }

/-- The first message that the process sent is taken out of the connection. -/
def State.drain (s : State ι κ) (k : κ) (up : List Msg) : State ι κ :=
  let net := (s.procs k).manager.net
  { s with procs := Function.update s.procs k ((s.procs k).withNet { net with up }) }

def State.step (s : State ι κ) : Move ι κ → Option (State ι κ)
  | .api k call =>
    if S.parent k ∈ s.world.agents then
      (call.run (S.line k) (s.procs k)).bind (s.goOn k)
    else none
  | .declare k handle schemaFile einfo =>
    (FTBC.declarePublishableEvents (S.line k) handle schemaFile einfo (s.procs k)).bind fun r =>
      s.goOn k r.2
  | .receive k =>
    -- the thread waits in `FTBM_Get`
    if (s.procs k).manager.net.down = [] then none
    else (callbackThreadClient (S.line k) (s.procs k)).bind fun r => s.goOn k r.2
  | .callback k handle =>
    match lookupClientInfo handle (s.procs k) with
    | some (.ok c) =>
      (callbackComponent c).bind fun r => s.goOn k ((s.procs k).update handle fun _ => r.2)
    | _ => none
  | .up k =>
    match (s.procs k).manager.net.up with
    | [] => none
    | msg :: up =>
      (Backplane.act S.places s.world (.client (S.parent k) msg)).map
        ((s.drain k up).carry S)
  | .world (.client _ _) => none
  | .world c => (Backplane.act S.places s.world c).map (s.carry S)

/-- What happens, one after the other. -/
def State.run (s : State ι κ) (moves : List (Move ι κ)) : Option (State ι κ) :=
  moves.foldlM (State.step S) s

/-- No client goes by the names of the agents. -/
def Proper : Move ι κ → Prop
  | .api _ (.connect cinfo _ _) => ∀ region compCat comp,
      splitNamespace cinfo.eventSpace = some (.ok (region, compCat, comp)) →
      (CStr.strcaseEq compCat "FTB_COMP_CAT_BACKPLANE".toList &&
        CStr.strcaseEq comp "FTB_COMP_MANAGER".toList) = false
  | _ => True

/-- The call leaves the client its subscription for the mask. -/
def Spares : FTBC.ApiCall → ClientHandle → Event → Prop
  | .disconnect handle, h, _ => isEqualClienthandle handle h = false
  | .unsubscribe sub, h, mask => isEqualClienthandle sub.clientHandle h = true →
      isEqualEvent sub.subscriptionEvent mask = false
  | _, _, _ => True

/-- The client of the process stays, with its subscription for the mask. -/
def Stays (q : κ) (h : ClientHandle) (mask : Event) : Move ι κ → Prop
  | .api k call => k = q → Spares call h mask
  | _ => True

/-! ## What the applications see -/

/-- What the moves of a run give, in order. -/
def State.collect {A : Type} (out : State ι κ → Move ι κ → List A) (s : State ι κ) :
    List (Move ι κ) → List A
  | [] => []
  | m :: moves => out s m ++ match s.step S m with
    | none => []
    | some s => s.collect out moves

/-- What a call that returns `FTB_SUCCESS` gives. -/
def returned {A B : Type} : Option (Ret × Option A × B) → List A
  | some (.success, some a, _) => [a]
  | _ => []

/-- The event handle of an `FTBC_Publish` on the client that returns `FTB_SUCCESS`. -/
def publishes (p : κ) (g : ClientHandle) (s : State ι κ) : Move ι κ → List EventHandle
  | .api k (.publish handle eventName properties eventHandle) =>
    if k = p ∧ isEqualClienthandle handle g = true then
      returned (FTBC.publish (S.line k) handle eventName properties eventHandle (s.procs k))
    else []
  | _ => []

/-- The events of the client that the move puts into the connection of its process. -/
def puts (p : κ) (g : ClientHandle) (s : State ι κ) (m : Move ι κ) : List Backplane.Publication :=
  match s.step S m with
  | none => []
  | some s' => Backplane.events (S.client p g)
      ((s'.procs p).manager.net.up.drop (s.procs p).manager.net.up.length)

/-- The event of an `FTBC_Poll_event` with the subscription that returns `FTB_SUCCESS`. -/
def polls (q : κ) (sub : SubscribeHandle) (s : State ι κ) : Move ι κ → List ReceiveEvent
  | .api k (.pollEvent subscribeHandle receiveEvent) =>
    if k = q ∧ subscribeHandle = sub then
      returned (FTBC.pollEvent (S.line k) subscribeHandle receiveEvent (s.procs k))
    else []
  | _ => []

/-- The event with which a callback of the client is run. -/
def callsBack (q : κ) (h : ClientHandle) (s : State ι κ) : Move ι κ → List ReceiveEvent
  | .callback k handle =>
    if k = q ∧ isEqualClienthandle handle h = true then
      match lookupClientInfo handle (s.procs k) with
      | some (.ok c) =>
        match callbackComponent c with
        | some (some (_, r), _) => [r]
        | _ => []
      | _ => []
    else []
  | _ => []

end

end E2E
