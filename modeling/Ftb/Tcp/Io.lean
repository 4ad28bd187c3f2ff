import Ftb.Lib.Journal
import Ftb.Util

/-!
# The descriptors of the connections (`ftb_network_tcp.c`)

`FTBNI_UTIL_READ`, `FTBNI_UTIL_WRITE` and the functions over the connection table, system call by
system call. What the system calls return is given (`Outcome`), one after the other: a run has a
value for the outcomes that it meets, and for no others. A descriptor is the number of the `socket`
or `accept` that returned it, so a number that the system uses again is another descriptor. The
journal is what is done with the descriptors, up to the `free` of the entry that holds one.

How a structure lies in memory, and what memory holds that nothing was written to, are parameters.
-/

open FTB FTBU Journal

namespace FTBN.Io

abbrev Fd := Nat

/-! ## System calls -/

/-- `again` is `EINTR` or `EAGAIN`. -/
inductive ReadResult
  | got (bytes : List UInt8)
  | eof
  | again
  | fail
  deriving DecidableEq, Repr

inductive WriteResult
  | wrote (n : Nat)
  | again
  | fail
  deriving DecidableEq, Repr

/-- What `select` returns, with the descriptors that are ready. -/
inductive SelectResult
  | ready (fds : List Fd)
  | again
  | fail
  deriving DecidableEq, Repr

inductive Outcome
  | read (r : ReadResult)
  | write (r : WriteResult)
  | select (r : SelectResult)
  | socket (ok : Bool)
  | gethostbyname (ok : Bool)
  | setsockopt (ok : Bool)
  | connect (ok : Bool)
  | accept (ok : Bool)
  deriving DecidableEq, Repr

/-- The end of a stream, or an error of a read or a write. -/
def Outcome.fails : Outcome → Bool
  | .read .eof => true
  | .read .fail => true
  | .write .fail => true
  | _ => false

/-- What is done with a descriptor; `release` is the `free` of the entry that holds it. -/
inductive FdOp
  | obtain (fd : Fd)
  | read (fd : Fd) (bytes : List UInt8)
  | write (fd : Fd) (bytes : List UInt8)
  | close (fd : Fd)
  | release (fd : Fd)
  deriving DecidableEq, Repr

/-! ## Memory -/

/-- How the structures lie in memory. -/
structure Layout where
  sizeofLocationId : Nat
  sizeofMsg : Nat
  systemId : UInt32 → List UInt8
  locationId : LocationId → List UInt8
  msg : Msg → List UInt8
  toSystemId : List UInt8 → UInt32
  toLocationId : List UInt8 → LocationId
  toMsg : List UInt8 → Msg

/-- `sizeof(uint32_t)`. -/
def sizeofSystemId : Nat := 4

/-- What a buffer of a given size holds before something is written to it. -/
structure Memory where
  bytes : Nat → List UInt8
  length_bytes (n : Nat) : (bytes n).length = n

/-- `FTB_connection_entry_t`. -/
structure ConnectionEntry where
  errFlag : Bool
  fd : Fd
  dst : LocationId
  refCount : Nat
  deriving DecidableEq

/-- The static variables; `connectionTable` is `none` once it is freed. The descriptors that
`socket` and `accept` will return are numbered on from `nextFd`. -/
structure Net where
  outcomes : List Outcome
  nextFd : Fd
  connectionTable : Option (List ConnectionEntry)
  listenFd : Option Fd
  systemId : UInt32
  myLocationId : LocationId

abbrev NetProg (α : Type) := Prog FdOp Net α

/-- What the next system call returns. -/
def nextOutcome : NetProg Outcome :=
  Prog.lift fun s =>
    match s.outcomes with
    | [] => none
    | o :: outcomes => some (o, { s with outcomes })

def sysRead (fd : Fd) : NetProg ReadResult := do
  match ← nextOutcome with
  | .read (.got bytes) => do
    Prog.emit (.read fd bytes)
    pure (.got bytes)
  | .read r => do
    Prog.emit (.read fd [])
    pure r
  | _ => Prog.undefined

/-- A write of the bytes that are left. -/
def sysWrite (fd : Fd) (bytes : List UInt8) : NetProg WriteResult := do
  match ← nextOutcome with
  | .write (.wrote n) => do
    Prog.emit (.write fd (bytes.take n))
    pure (.wrote n)
  | .write r => do
    Prog.emit (.write fd [])
    pure r
  | _ => Prog.undefined

def sysSelect : NetProg SelectResult := do
  match ← nextOutcome with
  | .select r => pure r
  | _ => Prog.undefined

/-- A descriptor that was not there before. -/
def newFd : NetProg Fd := do
  let s ← Prog.get
  Prog.modify fun s => { s with nextFd := s.nextFd + 1 }
  Prog.emit (.obtain s.nextFd)
  pure s.nextFd

def sysSocket : NetProg (Option Fd) := do
  match ← nextOutcome with
  | .socket true => do
    let fd ← newFd
    pure (some fd)
  | .socket false => pure none
  | _ => Prog.undefined

def sysAccept : NetProg (Option Fd) := do
  match ← nextOutcome with
  | .accept true => do
    let fd ← newFd
    pure (some fd)
  | .accept false => pure none
  | _ => Prog.undefined

/-- `FTBNI_gethostbyname`, `setsockopt` and `connect` of `FTBNI_util_connect_to`, up to the first
that fails: what it returns then. -/
def sysReach : NetProg (Option Ret) := do
  match ← nextOutcome with
  | .gethostbyname false => pure (some .errNetworkNoRoute)
  | .gethostbyname true => do
    match ← nextOutcome with
    | .setsockopt false => pure (some .errNetworkGeneral)
    | .setsockopt true => do
      match ← nextOutcome with
      | .connect false => pure (some .errNetworkNoRoute)
      | .connect true => pure none
      | _ => Prog.undefined
    | _ => Prog.undefined
  | _ => Prog.undefined

/-- `close(entry->fd)` and `free(entry)`. -/
def closeFree (entry : ConnectionEntry) : NetProg Unit := do
  Prog.emit (.close entry.fd)
  Prog.emit (.release entry.fd)

/-! ## `FTBNI_UTIL_READ` and `FTBNI_UTIL_WRITE` -/

/-- The loop of `FTBNI_UTIL_READ`: `done` is read, and `rest` is the part of the buffer behind the
offset. A turn takes an outcome, so as many turns as there are outcomes are enough. -/
def readLoop (fd : Fd) : Nat → List UInt8 → List UInt8 → NetProg (Bool × List UInt8)
  | 0, done, rest => if rest = [] then pure (false, done) else Prog.undefined
  | n + 1, done, rest =>
    if rest = [] then pure (false, done)
    else do
      match ← sysRead fd with
      | .got bytes =>
        if bytes ≠ [] ∧ bytes.length ≤ rest.length then
          readLoop fd n (done ++ bytes) (rest.drop bytes.length)
        else Prog.undefined
      | .again => readLoop fd n done rest
      | .eof => do
        Prog.emit (.close fd)
        pure (true, done ++ rest)
      | .fail => do
        Prog.emit (.close fd)
        pure (true, done ++ rest)

/-- `FTBNI_UTIL_READ` into a buffer, with what it leaves there. -/
def utilRead (conn : ConnectionEntry) (buf : List UInt8) : NetProg (ConnectionEntry × List UInt8) :=
  if conn.errFlag then pure (conn, buf)
  else do
    let s ← Prog.get
    let (errFlag, buf) ← readLoop conn.fd s.outcomes.length [] buf
    pure ({ conn with errFlag }, buf)

/-- The loop of `FTBNI_UTIL_WRITE`, with the bytes behind the offset. -/
def writeLoop (fd : Fd) : Nat → List UInt8 → NetProg Bool
  | 0, rest => if rest = [] then pure false else Prog.undefined
  | n + 1, rest =>
    if rest = [] then pure false
    else do
      match ← sysWrite fd rest with
      | .wrote m => if m ≤ rest.length then writeLoop fd n (rest.drop m) else Prog.undefined
      | .again => writeLoop fd n rest
      | .fail => do
        Prog.emit (.close fd)
        pure true

/-- `FTBNI_UTIL_WRITE`. -/
def utilWrite (conn : ConnectionEntry) (bytes : List UInt8) : NetProg ConnectionEntry :=
  if conn.errFlag then pure conn
  else do
    let s ← Prog.get
    let errFlag ← writeLoop conn.fd s.outcomes.length bytes
    pure { conn with errFlag }

/-! ## The connection table -/

/-- The connections, the front one first. -/
def connections : NetProg (List ConnectionEntry) :=
  Prog.lift fun s => s.connectionTable.map fun conns => (conns, s)

def setConnections (conns : List ConnectionEntry) : NetProg Unit :=
  Prog.modify fun s => { s with connectionTable := some conns }

/-- `FTBNI_util_find_connection_to_location`. -/
def findConnection (locationId : LocationId) (conns : List ConnectionEntry) :
    Option ConnectionEntry :=
  conns.find? fun entry => isEqualLocationId entry.dst locationId

variable (lay : Layout) (mem : Memory)

/-- `FTBNI_util_connect_to`, with what it leaves in `*id`. -/
def utilConnectTo (regMsg : Msg) : NetProg (Ret × Option LocationId) := do
  match ← sysSocket with
  | none => pure (.errNetworkGeneral, none)
  | some fd => do
    let entry : ConnectionEntry := { errFlag := false, fd, dst := default, refCount := 0 }
    match ← sysReach with
    | some ret => do
      closeFree entry
      pure (ret, none)
    | none => do
      let s ← Prog.get
      let entry ← utilWrite entry (lay.systemId s.systemId)
      let entry ← utilWrite entry (lay.locationId s.myLocationId)
      let entry ← utilWrite entry (lay.msg regMsg)
      let (entry, bytes) ← utilRead entry (mem.bytes lay.sizeofLocationId)
      let entry := { entry with dst := lay.toLocationId bytes }
      if entry.errFlag then do
        closeFree entry
        pure (.errNetworkGeneral, none)
      else do
        let conns ← connections
        setConnections (entry :: conns)
        pure (.success, some entry.dst)

/-- `FTBN_Send_msg`. -/
def sendMsg (msg : Msg) : NetProg Ret := do
  let conns ← connections
  match findConnection msg.dst.locationId conns with
  | none => pure .errNetworkNoRoute
  | some conn => do
    let sent ← utilWrite { conn with refCount := conn.refCount + 1 } (lay.msg msg)
    let sent := { sent with refCount := sent.refCount - 1 }
    if sent.errFlag then
      if sent.refCount = 0 then do
        setConnections (conns.erase conn)
        closeFree sent
        pure .errNetworkGeneral
      else do
        setConnections (conns.replace conn sent)
        pure .errNetworkGeneral
    else pure .success

/-- The loop of `FTBN_Recv_msg`, at most `n` turns of it. -/
def recvLoop (blocking : Bool) : Nat → NetProg (Ret × Option (Msg × LocationId))
  | 0 => Prog.undefined
  | n + 1 => do
    let conns ← connections
    match ← sysSelect with
    | .again => recvLoop blocking n
    | .fail => pure (.errNetworkGeneral, none)
    | .ready fds =>
      match conns.find? fun conn => conn.fd ∈ fds with
      | none => if blocking then recvLoop blocking n else pure (.noMsg, none)
      | some conn => do
        let (got, bytes) ← utilRead conn (mem.bytes lay.sizeofMsg)
        if got.errFlag then do
          setConnections (conns.erase conn)
          closeFree got
          pure (.errNetworkGeneral, none)
        else pure (.success, some (lay.toMsg bytes, conn.dst))

/-- `FTBN_Recv_msg`; `isNull` is `msg == NULL`. A turn of its loop takes an outcome. -/
def recvMsg (isNull blocking : Bool) : NetProg (Ret × Option (Msg × LocationId)) :=
  if isNull then pure (.errNullPointer, none)
  else do
    let s ← Prog.get
    recvLoop lay mem blocking s.outcomes.length

/-- What `FTBN_Grab_messages` returns, with the messages that it appends and `*problem_location`; no
`ret` where `FTBU_ERR_ABORT` ends the process. -/
structure Grabbed where
  ret : Option Ret
  msgs : List (Msg × LocationId)
  problemLocation : Option LocationId

/-- The loop of `FTBN_Grab_messages` over the connections that are left of `conns`. -/
def grabReady (conns : List ConnectionEntry) (fds : List Fd) :
    List ConnectionEntry → List (Msg × LocationId) → NetProg Grabbed
  | [], msgs => pure ⟨some .success, msgs, none⟩
  | conn :: rest, msgs =>
    if conn.fd ∈ fds then do
      let (got, bytes) ← utilRead conn (mem.bytes lay.sizeofMsg)
      if got.errFlag then do
        setConnections (conns.erase conn)
        closeFree got
        pure ⟨some .errNetworkGeneral, msgs, some conn.dst⟩
      else grabReady conns fds rest (msgs ++ [(lay.toMsg bytes, conn.dst)])
    else grabReady conns fds rest msgs

/-- A new connection in `FTBN_Grab_messages`, for which `accept` returned `fd`: the message that
comes with it, or `none` where the loop goes on from its top. -/
def grabAccepted (fd : Fd) : NetProg (Option (List (Msg × LocationId))) := do
  let s ← Prog.get
  let entry : ConnectionEntry := { errFlag := false, fd, dst := default, refCount := 0 }
  let (entry, bytes) ← utilRead entry (mem.bytes sizeofSystemId)
  if lay.toSystemId bytes ≠ s.systemId then do
    closeFree entry
    pure none
  else do
    let (entry, dst) ← utilRead entry (mem.bytes lay.sizeofLocationId)
    let (entry, bytes) ← utilRead entry (mem.bytes lay.sizeofMsg)
    let entry := { entry with dst := lay.toLocationId dst }
    if entry.errFlag then do
      closeFree entry
      pure (some [])
    else do
      let entry ← utilWrite entry (lay.locationId s.myLocationId)
      let conns ← connections
      setConnections (entry :: conns)
      pure (some [(lay.toMsg bytes, entry.dst)])

/-- The end of a turn of `FTBN_Grab_messages`. -/
def grabConnections (fds : List Fd) (msgs : List (Msg × LocationId)) : NetProg Grabbed := do
  let conns ← connections
  grabReady lay mem conns fds conns msgs

/-- A turn of `FTBN_Grab_messages` with the descriptors that are set; `next` is the next turn. -/
def grabTurn (next : NetProg Grabbed) (fds : List Fd) (listenFd : Option Fd) : NetProg Grabbed :=
  if listenFd.any fun fd => fd ∈ fds then do
    match ← sysAccept with
    | none => do
      Prog.modify fun s => { s with connectionTable := none }
      pure ⟨none, [], none⟩
    | some fd => do
      match ← grabAccepted lay mem fd with
      | none => next
      | some msgs => grabConnections lay mem fds msgs
  else grabConnections lay mem fds []

/-- The loop of `FTBN_Grab_messages`, at most `n` turns of it. -/
def grabLoop : Nat → NetProg Grabbed
  | 0 => Prog.undefined
  | n + 1 => do
    let s ← Prog.get
    let conns ← connections
    match ← sysSelect with
    | .again => grabLoop n
    -- `select` leaves the set as it was
    | .fail =>
      grabTurn lay mem (grabLoop n) (s.listenFd.toList ++ conns.map ConnectionEntry.fd) s.listenFd
    | .ready fds => grabTurn lay mem (grabLoop n) fds s.listenFd

/-- `FTBN_Grab_messages`. A turn of its loop takes an outcome. -/
def grabMessages : NetProg Grabbed := do
  let s ← Prog.get
  grabLoop lay mem s.outcomes.length

/-- `FTBN_Disconnect_peer`. With a reference it does not return. -/
def disconnectPeer (peerLocationId : LocationId) : NetProg Ret := do
  let conns ← connections
  match findConnection peerLocationId conns with
  | none => pure .errInvalidParameter
  | some conn =>
    if conn.refCount ≠ 0 then Prog.undefined
    else do
      closeFree conn
      setConnections (conns.erase conn)
      pure .success

/-- The loop of `FTBN_Finalize`. -/
def closeAll : List ConnectionEntry → NetProg Unit
  | [] => pure ()
  | entry :: conns => do
    closeFree entry
    closeAll conns

/-- The descriptor for new connections, at the end of `FTBN_Finalize`. -/
def closeListen : NetProg Unit := do
  let s ← Prog.get
  match s.listenFd with
  | none => pure ()
  | some fd => Prog.emit (.close fd)

/-- `FTBN_Finalize`. -/
def finalize : NetProg Ret := do
  let conns ← connections
  closeAll conns
  closeListen
  Prog.modify fun s => { s with connectionTable := none }
  pure .success

/-! ## Any calls -/

/-- A call of one of the functions, with its arguments and what its buffers hold before. -/
inductive Call
  | connectTo (mem : Memory) (regMsg : Msg)
  | sendMsg (msg : Msg)
  | recvMsg (mem : Memory) (isNull blocking : Bool)
  | grabMessages (mem : Memory)
  | disconnectPeer (peerLocationId : LocationId)
  | finalize

def Call.prog : Call → NetProg Unit
  | .connectTo mem regMsg => do
    let _ ← utilConnectTo lay mem regMsg
  | .sendMsg msg => do
    let _ ← Io.sendMsg lay msg
  | .recvMsg mem isNull blocking => do
    let _ ← Io.recvMsg lay mem isNull blocking
  | .grabMessages mem => do
    let _ ← Io.grabMessages lay mem
  | .disconnectPeer peerLocationId => do
    let _ ← Io.disconnectPeer peerLocationId
  | .finalize => do
    let _ ← Io.finalize

/-- The calls, one after the other, while the table is there. -/
def runCalls : List Call → NetProg Unit
  | [] => pure ()
  | call :: calls => do
    let _ ← connections
    call.prog lay
    runCalls calls

end FTBN.Io
