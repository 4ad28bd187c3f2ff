import Ftb.Manager.Ops
import Ftb.Manager.Proof.Tables
import Ftb.Agent
import Ftb.Manager.Proof.Effect
import Ftb.Manager.Proof.Inv
import Ftb.Lib.Trace
import Ftb.Lib.Records
import Ftb.Lib.Journal
import Ftb.Lib.Locks
import Ftb.Manager.Calls
import Ftb.Manager.History
import Ftb.Manager.Catchers
import Ftb.Lib.Chain
import Ftb.Manager.Queue
import Ftb.Manager.Proof.Queue
import Ftb.Bootstrap.Client
import Ftb.Bootstrap.Proof.Server
import Ftb.Tcp.Connect
import Ftb.Tcp.Proof.Pool
import Ftb.Tcp.Terminate
import Ftb.Client.Subscription
import Ftb.Client.Tokens
import Ftb.Client.EventSpace
import Ftb.Client.Meaning
import Ftb.Client.Rendering
import Ftb.Client.FieldStores
import Ftb.Topology.World
import Ftb.Topology.Acyclic
import Ftb.Backplane.Proof.Turn
import Ftb.Lib.Tree
import Ftb.Lib.Words
import Ftb.Backplane.Proof.Inv
import Ftb.Backplane.Proof.Reach
import Ftb.Backplane.Routing
import Ftb.Backplane.Stale
import Ftb.Backplane.Traffic
import Ftb.Backplane.Proof.Flow
import Ftb.Backplane.Proof.Route
import Ftb.Backplane.Delivery
import Ftb.Backplane.Rest
import Ftb.E2E.System
import Ftb.E2E.Proof.Process
import Ftb.E2E.Proof.Calls
import Ftb.E2E.Proof.Queues
import Ftb.E2E.Proof.Run
import Ftb.E2E.Delivery
import Ftb.E2E.CalledBack
import Ftb.Topology.Root
import Ftb.Client.Receive
import Ftb.Client.Ops
import Ftb.Client.Frame
import Ftb.Client.Proof.Nodes
import Ftb.Client.Bookkeeping
import Ftb.Client.Receiver
import Ftb.Client.Subscribing
import Ftb.Client.Callbacks
import Ftb.Client.Restore
import Ftb.Client.Identity
import Ftb.Client.Recovery
import Ftb.Client.Declare
import Ftb.Client.Handles
import Ftb.Manager.Line
import Ftb.Tcp.Proof.Covered
import Ftb.Manager.Orphans
import Ftb.Manager.Dispatch
import Ftb.Backplane.Outage
import Ftb.Backplane.Proof.Outage
import Ftb.Backplane.Proof.Survival
import Ftb.Backplane.Repair
import Ftb.Backplane.Failures
import Ftb.Backplane.Proof.Failures
import Ftb.Backplane.Mending
import Ftb.Client.Schema
import Ftb.Client.Declared
import Ftb.Client.EventName
import Ftb.Bootstrap.Table
import Ftb.Bootstrap.Parent
import Ftb.Client.Nodes
import Ftb.Client.Polling
import Ftb.Client.Ownership
import Ftb.Client.Retry
import Ftb.Tcp.Backoff
import Ftb.Client.Tags
import Ftb.Client.TagDecoders
import Ftb.Client.Locked
import Ftb.Client.Locks
import Ftb.Client.Hangup
import Ftb.Tcp.Io
import Ftb.Tcp.Descriptors
import Ftb.Tcp.Config
import Ftb.Tcp.Lookup
import Ftb.Tcp.Transfer
import Ftb.Tcp.Streams
import Ftb.Tcp.Proof.Settled
import Ftb.Tcp.Proof.Frames
import Ftb.Tcp.Proof.Reports
import Ftb.Tcp.Framing
import Ftb.Tcp.Proof.Held
import Ftb.Tcp.Exits
import Ftb.Manager.Reconnect
import Ftb.Client.Proof.Queues
import Ftb.Util.Map
import Ftb.Util.KeyedList
import Ftb.Lib.Buffer
import Ftb.Lib.Pieces
import Ftb.Auxil
import Ftb.Auxil.Trim
import Ftb.Tcp.Framing
import Ftb.Lib.Layout
import Ftb.Manager.Memory
import Ftb.Manager.Proof.Blocks
import Ftb.Manager.Proof.Image
import Ftb.Manager.Proof.Following
import Ftb.Manager.Proof.Joining
import Ftb.Manager.Proof.Leaving
import Ftb.Manager.Proof.Masks
import Ftb.Manager.Proof.Catching
import Ftb.Manager.Proof.Closing
import Ftb.Manager.Closing
import Ftb.Manager.Upkeep
