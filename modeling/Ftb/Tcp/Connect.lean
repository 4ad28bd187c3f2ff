import Ftb.Lib.Trace
import Ftb.Bootstrap.Client

/-!
# Connecting to a parent (`FTBN_Connect` of `ftb_network_tcp.c`)

`FTBN_Connect` is a loop around packet exchanges with the bootstrap server and attempts to connect
to the parent that the server names. Between two of these nothing is seen from outside, so each is
one step of a process (`Conn`), whose program counter `Pc` says which is next. What follows an
exchange or an attempt is a function of its result: `afterRequest`, `afterRootReg`, `afterConnect`,
`afterReport`, `afterChildReg`. The pauses between the attempts are left out.

`step` does the next exchange with the server. `answered` is false when
`FTBNI_util_exchange_bootstrap_msg` gave up; then the server did not see the packet.
-/

open FTB FTBN FTBNI

namespace FTBN

/-- `FTBN_CONNECT_RETRY_COUNT`. -/
def connectRetryCount : Nat := 1

/-- The initial value of `FTBN_my_level`. -/
def initialLevel : UInt16 := 0 - 1

/-- What `FTBN_Connect` does next. -/
inductive Pc
  /-- asks the server for a parent -/
  | request
  /-- registers as the root -/
  | rootReg
  /-- connects to the parent -/
  | connect
  /-- reports that it cannot -/
  | report
  /-- registers below the parent -/
  | childReg
  /-- has returned -/
  | done (ret : Ret)
  /-- has aborted the process -/
  | aborted
  deriving DecidableEq, Repr

/-- A process in `FTBN_Connect`: `FTBN_config_location.leaf`, its own address, `FTBN_my_level`,
`FTBN_parent_addr`, and the locals `parent_level` and `retry`. -/
structure Conn where
  leaf : Bool
  me : AddrSock
  myLevel : UInt16
  parentAddr : AddrSock
  parentLevel : UInt16
  retry : Nat
  pc : Pc
  deriving DecidableEq, Repr

namespace Conn

/-- The condition of the loop, and what follows it. -/
def loopEnd (ret : Ret) (c : Conn) : Conn :=
  if ret ≠ .success ∧ c.retry < connectRetryCount then
    { c with retry := c.retry + 1, pc := .request }
  else { c with pc := .done ret }

/-- `FTBN_Connect` up to its loop. `link` is what `FTBNI_util_connect_to` returns for an address, and
`localAddr` the address of the agent on the own host. -/
def start (link : AddrSock → Ret) (localAddr : AddrSock) (c : Conn) : Conn :=
  let c := { c with retry := 0 }
  if c.leaf then
    let ret := link localAddr
    if ret = .errNetworkGeneral then { c with pc := .done ret }
    else if ret = .success then { c with pc := .done ret }
    else { c with parentAddr := { c.parentAddr with port := 0 }, pc := .request }
  else { c with pc := .request }

/-- After the exchange of `FTBNI_Bootstrap_get_parent_addr`. -/
def afterRequest (reply : Option BootstrapPkt) (c : Conn) : Conn :=
  let failed := fun ret : Ret =>
    let c := { c with parentAddr := { c.parentAddr with port := 0 } }
    if c.retry < connectRetryCount then loopEnd ret c else { c with pc := .aborted }
  match reply with
  | none => failed .errNetworkNoRoute
  | some pktRecv =>
    match Bootstrap.parentReply pktRecv with
    | .error ret => failed ret
    | .ok (parentAddr, parentLevel) =>
      { c with parentAddr, parentLevel, pc := if parentAddr.port = 0 then .rootReg else .connect }

/-- After the registration as root. -/
def afterRootReg (ret : Ret) (c : Conn) : Conn :=
  let c := { c with myLevel := c.parentLevel + 1 }
  if ret ≠ .success then loopEnd ret { c with myLevel := initialLevel, retry := 0 }
  else loopEnd ret c

/-- After the attempt to connect to the parent. -/
def afterConnect (ret : Ret) (c : Conn) : Conn :=
  if ret = .errNetworkNoRoute then { c with pc := .report }
  else if ret = .success then
    if !c.leaf then { c with myLevel := c.parentLevel + 1, pc := .childReg }
    else loopEnd ret c
  else loopEnd ret c

/-- After the report. -/
def afterReport (c : Conn) : Conn :=
  loopEnd .errNetworkNoRoute { c with parentAddr := { c.parentAddr with port := 2 }, retry := 0 }

/-- After the registration below the parent. -/
def afterChildReg (ret : Ret) (c : Conn) : Conn :=
  if ret ≠ .success then { c with pc := .done .success } else loopEnd ret c

/-- What `FTBNI_Bootstrap_register_addr` returns for a reply, or for none. -/
def registerResult : Option BootstrapPkt → Ret
  | none => .errNetworkNoRoute
  | some pktRecv => Bootstrap.registerReply pktRecv

/-- What the code does not decide: `rand()` in the server, whether the server answers, and the stack
below a report. -/
structure Choice where
  rand : Nat
  answered : Bool
  junk : BootstrapPkt

/-- An exchange with the server, or none. -/
def exchange (ch : Choice) (pkt : BootstrapPkt) (s : Server) : Server × Option BootstrapPkt :=
  if ch.answered then s.serve pkt ch.rand else (s, none)

/-- The next step. A process that has returned stays. -/
def step (link : AddrSock → Ret) (ch : Choice) (sc : Server × Conn) : Server × Conn :=
  let (s, c) := sc
  match c.pc with
  | .request =>
    let (s, reply) := exchange ch (Bootstrap.parentRequest c.me c.myLevel c.parentAddr) s
    (s, c.afterRequest reply)
  | .rootReg =>
    if c.leaf then (s, c.afterRootReg .errNotSupported)
    else
      let (s, reply) := exchange ch (Bootstrap.registerRequest c.me (c.parentLevel + 1)) s
      (s, c.afterRootReg (registerResult reply))
  | .connect => (s, c.afterConnect (link c.parentAddr))
  | .report => ((s.serve (Bootstrap.connFailure c.parentAddr ch.junk) ch.rand).1, c.afterReport)
  | .childReg =>
    let (s, reply) := exchange ch (Bootstrap.registerRequest c.me c.myLevel) s
    (s, c.afterChildReg (registerResult reply))
  | .done _ => (s, c)
  | .aborted => (s, c)

end Conn

end FTBN
