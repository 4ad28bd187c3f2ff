import Ftb.Client.Ops
import Ftb.Lib.Links

/-!
# The event queues in memory (`ftb_client_lib.c`)

One client whose two queues are rings of `FTBU_list_node_t` in a memory with `malloc` and `free`.
Every node points to an `FTBCI_event_inst_list_t` of its own, and a queue is known by its head node.
A section under the lock of the client is one step here, with what the thread does on nodes that only
it knows; the loop of `FTBCI_callback_component` is three steps, since it holds no lock while it looks
for a mask and while the callback runs.

`malloc` returns addresses that were never used. `free` is recorded, and the memory keeps its contents:
a use of memory that was released is seen in the record (`released`), it does not stop a run. The
other histories (`events`, `queued`, `left`) are ghost state, too; no step reads them.
-/

open FTB FTBU

namespace FTBCI

/-! ## Memory -/

/-- The nodes and entries at their addresses. -/
structure NodeMem where
  /-- `next` and `prev` of a node -/
  links : Links
  /-- `data` of a node -/
  data : Nat → Nat
  /-- an entry -/
  insts : Nat → EventInst
  nextAddr : Nat
  released : List Nat

/-- The entry of a node. -/
def NodeMem.inst (m : NodeMem) (node : Nat) : EventInst := m.insts (m.data node)

/-- `malloc` of a node and of its entry, which is filled. -/
def NodeMem.newNode (entry : EventInst) (m : NodeMem) : Nat × NodeMem :=
  let node := m.nextAddr
  let addr := m.nextAddr + 1
  (node, { m with
    data := Function.update m.data node addr
    insts := Function.update m.insts addr entry
    nextAddr := m.nextAddr + 2 })

/-- `free`. -/
def NodeMem.free (addr : Nat) (m : NodeMem) : NodeMem := { m with released := m.released ++ [addr] }

def NodeMem.relink (f : Links → Links) (m : NodeMem) : NodeMem := { m with links := f m.links }

/-! ## Events -/

/-- The event space of the event fits the receiver's array. -/
def Fits (entry : EventInst) : Prop :=
  (concatenateStrings entry.eventInst.region entry.eventInst.compCat entry.eventInst.comp).length <
    maxEventspace

instance (entry : EventInst) : Decidable (Fits entry) :=
  inferInstanceAs (Decidable (List.length _ < maxEventspace))

/-- An event as `FTBC_Publish` sends it: its names are the parts of one event space
(`fits_publishedEvent`). -/
structure Incoming where
  entry : EventInst
  fits : Fits entry

/-! ## The client -/

/-- What happens to the nodes of the polling queue. -/
inductive PollEvent
  | arrived (node : Nat)
  | dropped (node : Nat)
  | polled (node : Nat)
  deriving DecidableEq, Repr

/-- Why a node left the callback queue: the callback of this entry ran, or none of these entries has
a mask that matches. -/
inductive Exit
  | ran (x : CallbackEntry)
  | moved (entries : List CallbackEntry)
  deriving DecidableEq

/-- A node that left the callback queue. -/
structure Departure where
  node : Nat
  inst : EventInst
  exit : Exit
  deriving DecidableEq

/-- The thread of `FTBCI_callback_component`, with its `node` and `entry`. -/
inductive ComponentThread
  /-- outside, or waiting -/
  | idle
  /-- the callback of `x` runs -/
  | calling (node entry : Nat) (x : CallbackEntry)
  /-- no mask of `entries` matched -/
  | moving (node entry : Nat) (entries : List CallbackEntry)
  deriving DecidableEq

/-- `FTBCI_client_info_t` with its queues in memory. -/
structure NodeClient where
  clientHandle : ClientHandle
  subscriptionType : UInt8
  maxPollingQueueLen : Int
  eventQueueSize : Int
  eventQueue : Nat
  callbackEventQueue : Nat
  callbackMap : Option CallbackMap
  mem : NodeMem
  thread : ComponentThread
  events : List PollEvent
  queued : List Nat
  left : List Departure

namespace NodeClient

/-- `subscription_type & FTB_SUBSCRIPTION_POLLING`. -/
def polls (c : NodeClient) : Bool := c.subscriptionType &&& subscriptionPolling != 0

/-- `subscription_type & FTB_SUBSCRIPTION_NOTIFY`. -/
def notifies (c : NodeClient) : Bool := c.subscriptionType &&& subscriptionNotify != 0

/-- The entries of `callback_map`, the first one first. -/
def callbackEntries (c : NodeClient) : List CallbackEntry :=
  (c.callbackMap.map KeyList.nodes).getD []

/-- The client that `FTBC_Connect` makes, with its two head nodes. -/
def connect (clientHandle : ClientHandle) (subscriptionType : UInt8) (maxPollingQueueLen : Int) :
    NodeClient where
  clientHandle := clientHandle
  subscriptionType := subscriptionType
  maxPollingQueueLen := maxPollingQueueLen
  eventQueueSize := 0
  eventQueue := 0
  callbackEventQueue := 1
  callbackMap := if subscriptionType &&& subscriptionNotify != 0 then some .empty else none
  mem :=
    { links := (Links.mk (fun _ => 0) fun _ => 0).init 0 |>.init 1, data := fun _ => 0,
      insts := fun _ => default, nextAddr := 2, released := [] }
  thread := .idle
  events := []
  queued := []
  left := []

/-! ## Messages -/

/-- `FTBCI_util_push_to_comp_polling_list`. -/
def pushToCompPollingList (node : Nat) (c : NodeClient) : NodeClient :=
  if c.polls then
    let c : NodeClient :=
      if c.eventQueueSize == c.maxPollingQueueLen then
        let temp := c.mem.links.next c.eventQueue
        let mem := c.mem.relink (Links.removeNode temp)
        let mem := (mem.free (mem.data temp)).free temp
        { c with mem, eventQueueSize := c.eventQueueSize - 1, events := c.events ++ [.dropped temp] }
      else c
    { c with
      mem := c.mem.relink (Links.addBack c.eventQueue node)
      eventQueueSize := c.eventQueueSize + 1
      events := c.events ++ [.arrived node] }
  else { c with mem := (c.mem.free (c.mem.data node)).free node }

/-- Whether a mask of `callback_map` matches. -/
def matched (entry : EventInst) (c : NodeClient) : Bool :=
  c.notifies && c.callbackEntries.any fun x => matchMask entry.eventInst x.mask

/-- `FTBCI_util_handle_FTBM_msg` once it has the client. For the callback queue it makes a second node
and a second entry. -/
def handleMsg (entry : EventInst) (c : NodeClient) : NodeClient :=
  let (node, mem) := c.mem.newNode entry
  let c : NodeClient := { c with mem }
  if c.matched entry then
    let (node, mem) := c.mem.newNode entry
    { c with
      mem := mem.relink (Links.addBack c.callbackEventQueue node)
      queued := c.queued ++ [node] }
  else c.pushToCompPollingList node

/-! ## Subscriptions -/

/-- The section of `FTBCI_util_add_to_callback_map`. -/
def subscribe (x : CallbackEntry) (c : NodeClient) : NodeClient :=
  { c with callbackMap := c.callbackMap.map fun map => map.insert x }

/-- The section of `FTBCI_util_remove_from_subscription_map`. -/
def unsubscribe (event : Event) (c : NodeClient) : NodeClient :=
  { c with callbackMap := c.callbackMap.map fun map => map.erase event }

/-! ## `FTBC_Poll_event` -/

/-- What `FTBC_Poll_event` does with the node it found. -/
def takeOut (current : Nat) (c : NodeClient) : NodeClient :=
  let mem := c.mem.relink (Links.removeNode current)
  { c with
    mem := (mem.free (mem.data current)).free current
    eventQueueSize := c.eventQueueSize - 1
    events := c.events ++ [.polled current] }

/-- The section of `FTBC_Poll_event` under the lock: what it copies to the receiver, which holds
`bytes`, if it finds an event. The search ends before its bound does (`Polling.search_queue`). -/
def look (mask : Event) (bytes : Cell.Mem Field) (c : NodeClient) :
    Option (Option ReceiveEvent × NodeClient) :=
  if c.eventQueueSize > 0 then
    let current := c.mem.links.next c.eventQueue
    match c.mem.links.search c.eventQueue (fun node => matchMask (c.mem.inst node).eventInst mask)
      c.mem.nextAddr current with
    | none => some (none, c)
    | some current => do
      let r ← receiveEvent (c.mem.inst current) bytes
      pure (some r, c.takeOut current)
  else some (none, c)

/-- A section under the lock: of the thread that receives, of another `FTBC_Poll_event`, or of a call
that subscribes or unsubscribes. -/
inductive Turn
  | message (incoming : Incoming)
  | look (mask : Event) (bytes : Cell.Mem Field)
  | subscribe (x : CallbackEntry)
  | unsubscribe (event : Event)

def Turn.run : Turn → NodeClient → Option NodeClient
  | .message incoming, c => some (c.handleMsg incoming.entry)
  | .look mask bytes, c => (c.look mask bytes).map (·.2)
  | .subscribe x, c => some (c.subscribe x)
  | .unsubscribe event, c => some (c.unsubscribe event)

def runTurns (turns : List Turn) (c : NodeClient) : Option NodeClient :=
  turns.foldlM (fun c turn => turn.run c) c

/-- The loop of `FTBC_Poll_event`, with what happens before each look. -/
def pollLoop (mask : Event) (bytes : Cell.Mem Field) :
    List (List Turn) → NodeClient → Option (Ret × Option ReceiveEvent × NodeClient)
  | [], c => some (.gotNoEvent, none, c)
  | turns :: rounds, c => do
    let c ← runTurns turns c
    let (r, c) ← look mask bytes c
    match r with
    | none => pollLoop mask bytes rounds c
    | some r => pure (.success, some r, c)

/-- `FTBC_Poll_event` in a process with this client, with what happens before its two looks. -/
def pollEvent (subscribeHandle : SubscribeHandle) (receiveEvent : Option (Cell.Mem Field))
    (first second : List Turn) (c : NodeClient) : Option (Ret × Option ReceiveEvent × NodeClient) :=
  match receiveEvent with
  | none => some (.errNullPointer, none, c)
  | some bytes =>
    if subscribeHandle.valid == 0 then some (.errInvalidHandle, none, c)
    else if !isEqualClienthandle c.clientHandle subscribeHandle.clientHandle then
      some (.errInvalidHandle, none, c)
    else if !c.polls then some (.errNotSupported, none, c)
    else pollLoop subscribeHandle.subscriptionEvent bytes [first, second] c

/-! ## `FTBCI_callback_component` -/

/-- The thread finds an event in its queue, and looks for a mask. -/
def pick (c : NodeClient) : NodeClient :=
  match c.thread with
  | .idle =>
    let node := c.mem.links.next c.callbackEventQueue
    if node = c.callbackEventQueue then c
    else
      let entry := c.mem.data node
      match c.callbackEntries.find? fun x => matchMask (c.mem.insts entry).eventInst x.mask with
      | some x => { c with thread := .calling node entry x }
      | none => { c with thread := .moving node entry c.callbackEntries }
  | _ => c

/-- The callback has returned. -/
def finish (c : NodeClient) : NodeClient :=
  match c.thread with
  | .calling node entry x =>
    let mem := c.mem.relink (Links.removeNode node)
    { c with
      mem := (mem.free entry).free node
      thread := .idle
      left := c.left ++ [⟨node, c.mem.insts entry, .ran x⟩] }
  | _ => c

/-- The event goes to the polling queue. -/
def move (c : NodeClient) : NodeClient :=
  match c.thread with
  | .moving node entry entries =>
    let c : NodeClient :=
      { c with
        mem := c.mem.relink (Links.removeNode node)
        left := c.left ++ [⟨node, c.mem.insts entry, .moved entries⟩] }
    let c := c.pushToCompPollingList node
    { c with mem := (c.mem.free entry).free node, thread := .idle }
  | _ => c

end NodeClient

end FTBCI
