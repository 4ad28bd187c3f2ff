import Ftb.Manager.Line

/-!
# The connections of an agent (`ftb_network_tcp.c`)

`FTBNI_connection_table` is shared by two threads: the one that fills the message queue takes
connections and messages in (`FTBN_Grab_messages`), and the progress thread sends, connects and
disconnects. Each holds `FTBNI_conn_table_lock` for one function, so the functions of the progress
thread are one step each here, and what the other thread does before such a step is part of what the
step meets (`Slot`). A socket is no more than its location: whether a read or a write on it succeeds is
decided from outside.

`losses` records which step left a location without a connection and without a `CLEANUP_CONN` message;
no step reads it.
-/

open FTB FTBU FTBN FTBM.Queue

namespace FTBN.Sock

/-- What a read from a connection finds. -/
inductive Read
  | idle
  | msg (msg : Msg)
  | broken
  deriving DecidableEq, Repr

/-- What the thread that fills the message queue does next: `FTBN_Grab_messages` accepts a connection
with its registration, reads from the connections and returns, and the batch is appended. -/
inductive Fill
  | accept (location : LocationId) (msg : Msg)
  | read (reads : List Read)
  | append
  deriving DecidableEq, Repr

/-- How `FTBN_Connect` ends: with a connection to a parent, as the root, or without a parent, where an
earlier attempt to be the root may have cleared the process id. -/
inductive Found
  | attached (parent : LocationId)
  | root
  | failed (cleared : Bool)
  deriving DecidableEq, Repr

/-- What one call of the progress thread meets: the steps of the other thread before it, whether
`FTBNI_UTIL_WRITE` writes, and how `FTBN_Connect` ends. -/
structure Slot where
  fills : List Fill
  writes : Bool
  found : Found
  deriving DecidableEq, Repr

/-- A call that meets nothing. -/
def Slot.quiet : Slot := ⟨[], true, .root⟩

/-- The thread that fills the message queue: what it accepted, or the batch it has to append. -/
inductive Filler
  | idle
  | accepted (item : Item)
  | grabbed (b : Batch)
  deriving DecidableEq, Repr

/-- The messages that are on their way into the queue. -/
def Filler.items : Filler → List Item
  | .idle => []
  | .accepted item => [item]
  | .grabbed b => b.items

/-- A step that took the last connection from a location. -/
inductive Loss
  /-- a failed write of the message -/
  | send (msg : Msg)
  /-- `FTBN_Disconnect_peer` -/
  | disconnect (location : LocationId)
  /-- `FTBN_Connect`, which left this parent -/
  | connect (parent : LocationId)
  /-- a batch that was not linked into the queue -/
  | append (b : Batch)
  deriving DecidableEq, Repr

/-- The connection table, front first, the message queue and the thread that fills it. -/
structure Net where
  conns : List LocationId
  filler : Filler
  line : Line
  slots : List Slot
  losses : List Loss
  deriving DecidableEq, Repr

/-- `FTBN_Init`. -/
def Net.init : Net := ⟨[], .idle, .empty, [], []⟩

/-- The message is a `CLEANUP_CONN` for the location. -/
def cleans (location : LocationId) (item : Item) : Bool :=
  item.1.msgType = .cleanupConn && isEqualLocationId item.2 location

/-- `FTBNI_util_find_connection_to_location`. -/
def findConnection (location : LocationId) (conns : List LocationId) : Bool :=
  conns.any fun dst => isEqualLocationId dst location

/-- A connection to the location, or a `CLEANUP_CONN` for it, in the queue or on its way there. -/
def Net.covered (n : Net) (location : LocationId) : Bool :=
  findConnection location n.conns || (n.line.items ++ n.filler.items).any (cleans location)

/-- The loss, where it is one. -/
def Net.record (location : LocationId) (loss : Loss) (n : Net) : Net :=
  if n.covered location then n else { n with losses := n.losses ++ [loss] }

/-! ## The thread that fills the message queue -/

/-- The loop of `FTBN_Grab_messages` over the connections: the messages, the location of the connection
that is broken, and the connections that stay. -/
def readAll : List LocationId → List Read → List Item × Option LocationId × List LocationId
  | dst :: conns, .idle :: reads =>
    let (msgs, failed, conns) := readAll conns reads
    (msgs, failed, dst :: conns)
  | dst :: conns, .msg msg :: reads =>
    let (msgs, failed, conns) := readAll conns reads
    ((msg, dst) :: msgs, failed, dst :: conns)
  | dst :: conns, .broken :: _ => ([], some dst, conns)
  | conns, _ => ([], none, conns)

/-- The batch after what was accepted. -/
def grabMessages (msgs : List Item) (reads : List Read) (n : Net) : Net :=
  let (more, failed, conns) := readAll n.conns reads
  { n with conns, filler := .grabbed ⟨failed, msgs ++ more⟩ }

/-- One step of the thread, if it is there. -/
def Net.fill (n : Net) (f : Fill) : Net :=
  match f, n.filler with
  | .accept location msg, .idle =>
    { n with conns := location :: n.conns, filler := .accepted (msg, location) }
  | .read reads, .idle => grabMessages [] reads n
  | .read reads, .accepted item => grabMessages [item] reads n
  | .append, .grabbed b =>
    let n := { n with line := n.line.append b, filler := .idle }
    if b.items.all fun item => item.1.msgType ≠ .cleanupConn || n.covered item.2 then n
    else { n with losses := n.losses ++ [.append b] }
  | _, _ => n

/-! ## The calls of the progress thread -/

/-- What the call meets, after the other thread did its steps. -/
def Net.meet (n : Net) : Slot × Net :=
  match n.slots with
  | [] => (.quiet, n)
  | slot :: slots => (slot, slot.fills.foldl Net.fill { n with slots })

/-- The front connection to the location is closed. -/
def Net.drop (location : LocationId) (n : Net) : Net :=
  { n with conns := n.conns.eraseP fun dst => isEqualLocationId dst location }

/-- `FTBN_Send_msg`. -/
def sendMsg (msg : Msg) (n : Net) : Ret × Net :=
  let (slot, n) := n.meet
  if !findConnection msg.dst.locationId n.conns then (.errNetworkNoRoute, n)
  else if slot.writes then (.success, n)
  else (.errNetworkGeneral, (n.drop msg.dst.locationId).record msg.dst.locationId (.send msg))

/-- `FTBN_Disconnect_peer`. -/
def disconnectPeer (location : LocationId) (n : Net) : Ret × Net :=
  let (_, n) := n.meet
  if !findConnection location n.conns then (.errInvalidParameter, n)
  else (.success, (n.drop location).record location (.disconnect location))

/-- `FTBN_Connect`, with the parent so far. -/
def connect (_ : Msg) (parent : LocationId) (n : Net) : Ret × LocationId × Net :=
  let (slot, n) := n.meet
  match slot.found with
  | .attached parent => (.success, parent, { n with conns := parent :: n.conns })
  | .root => (.success, { parent with pid := 0 }, n)
  | .failed true => (.errNetworkGeneral, { parent with pid := 0 }, n)
  | .failed false =>
    (.errNetworkGeneral, parent,
      if parent.pid == 0 then n else n.record parent (.connect parent))

end FTBN.Sock

/-- The network layer of an agent. -/
def FTBN.sock : FTBN.Network FTBN.Sock.Net where
  sendMsg := FTBN.Sock.sendMsg
  connect := FTBN.Sock.connect
  disconnectPeer := FTBN.Sock.disconnectPeer
