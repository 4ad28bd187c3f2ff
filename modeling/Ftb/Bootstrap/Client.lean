import Ftb.Bootstrap.Server

/-!
# The bootstrap packets of an agent or client (`ftb_bootstrap_udp.c`)

The packet that each function builds, and what it makes of the reply. `me` is the address of the
process: `FTBN_Get_my_network_address` with the agent port of the configuration.
-/

open FTB

namespace FTBNI.Bootstrap

open FTBN

/-- The request of `FTBNI_Bootstrap_get_parent_addr`. -/
def parentRequest (me : AddrSock) (myLevel : UInt16) (parentAddr : AddrSock) : BootstrapPkt :=
  { bootstrapMsgType := addrReq, level := myLevel, parentAddr, addr := me }

/-- The rest of `FTBNI_Bootstrap_get_parent_addr`: `*parent_addr` and `*parent_level`. -/
def parentReply (pktRecv : BootstrapPkt) : Except Ret (AddrSock × UInt16) :=
  if pktRecv.bootstrapMsgType != addrRep then .error .errGeneral
  else .ok (pktRecv.parentAddr, pktRecv.level)

/-- The packet of `FTBNI_Bootstrap_report_conn_failure`. `junk` is what the stack holds where the
packet is built; the function sets two fields. -/
def connFailure (addr : AddrSock) (junk : BootstrapPkt) : BootstrapPkt :=
  { junk with bootstrapMsgType := connFail, addr }

/-- The request of `FTBNI_Bootstrap_register_addr`. -/
def registerRequest (me : AddrSock) (myLevel : UInt16) : BootstrapPkt :=
  { bootstrapMsgType := regReq, level := myLevel, addr := me }

/-- The rest of `FTBNI_Bootstrap_register_addr`. -/
def registerReply (pktRecv : BootstrapPkt) : Ret :=
  if pktRecv.bootstrapMsgType != regRep then .errGeneral else .success

/-- The request of `FTBNI_util_bootstrap_deregister_addr`, whose other fields are not set. -/
def deregisterRequest (me : AddrSock) (junk : BootstrapPkt) : BootstrapPkt :=
  { junk with bootstrapMsgType := deregReq, addr := me }

end FTBNI.Bootstrap
