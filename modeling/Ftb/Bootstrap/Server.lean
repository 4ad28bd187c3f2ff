import Ftb.Lib.KeyList
import Ftb.Def

/-!
# The bootstrap server (`ftb_database_server_udp.c`)

The server keeps the addresses of the agents that can be parents, with their levels, and answers
UDP packets one at a time (`serve`). `FTBNI_addr_count` is the number of entries and no entry has
port 0, in every state: both are fields of `Server`. A level is a `uint16_t` in a packet and in an
agent, and a `uint32_t` in an entry, where `-1` marks an entry that is crossed out.
-/

open FTB

namespace FTBN

/-- `FTBN_addr_sock_t`. -/
structure AddrSock where
  name : CStr
  port : Int
  deriving DecidableEq, Repr, Inhabited

/-- `FTNI_is_equal_addr_sock`. -/
def isEqualAddrSock (lhs rhs : AddrSock) : Bool :=
  lhs.port == rhs.port && CStr.strncmpEq maxHostAddr lhs.name rhs.name

/-- The fields `isEqualAddrSock` compares. -/
def canonAddr (a : AddrSock) : AddrSock where
  name := a.name.take maxHostAddr
  port := a.port

theorem isEqualAddrSock_iff {a b : AddrSock} :
    isEqualAddrSock a b = true ↔ canonAddr a = canonAddr b := by
  simp only [isEqualAddrSock, canonAddr, Bool.and_eq_true, beq_iff_eq, CStr.strncmpEq_iff,
    AddrSock.mk.injEq]
  tauto

instance : KeyEq isEqualAddrSock := .of_canon canonAddr fun _ _ => isEqualAddrSock_iff

theorem isEqualAddrSock_self (a : AddrSock) : isEqualAddrSock a a = true := KeyEq.refl a

theorem port_eq_of_isEqualAddrSock {a b : AddrSock} (h : isEqualAddrSock a b = true) :
    a.port = b.port := by
  simp only [isEqualAddrSock, Bool.and_eq_true, beq_iff_eq] at h
  exact h.1

end FTBN

namespace FTBNI

open FTBN

/-! ## Packets -/

def addrReq : UInt8 := 1
def addrRep : UInt8 := 2
def regReq : UInt8 := 3
def regRep : UInt8 := 4
def deregReq : UInt8 := 5
def deregRep : UInt8 := 6
def connFail : UInt8 := 7
def regInvalid : UInt8 := 10

/-- `FTBNI_bootstrap_pkt_t`; the defaults are what `memset` leaves. -/
structure BootstrapPkt where
  bootstrapMsgType : UInt8 := 0
  addr : AddrSock := ⟨[], 0⟩
  parentAddr : AddrSock := ⟨[], 0⟩
  level : UInt16 := 0
  deriving DecidableEq, Repr, Inhabited

/-! ## The table -/

/-- `FTBNI_bootstrap_entry_t`. -/
structure BootstrapEntry where
  addr : AddrSock
  level : UInt32
  deriving DecidableEq, Repr, Inhabited

/-- `entry->level = -1`. -/
def crossedOut : UInt32 := 0xFFFFFFFF

/-- `FTBNI_bootstrap_addr_map`. -/
abbrev AddrMap := KeyList BootstrapEntry.addr isEqualAddrSock

/-- `FTBNI_bootstrap_addr_map` and `FTBNI_addr_count`. -/
structure Server where
  addrMap : AddrMap
  addrCount : Nat
  count_eq : addrCount = addrMap.nodes.length
  ports : ∀ e ∈ addrMap.nodes, e.addr.port ≠ 0

namespace Server

theorem ext_addrMap {s s' : Server} (h : s.addrMap = s'.addrMap) : s = s' := by
  obtain ⟨map, n, hn, hp⟩ := s
  obtain ⟨map', n', hn', hp'⟩ := s'
  cases h
  subst hn
  subst hn'
  rfl

/-- The server when it starts. -/
def init : Server := ⟨.empty, 0, rfl, by simp⟩

/-- `level` for the entry of an address. -/
def setLevel (s : Server) (addr : AddrSock) (level : UInt32) : Server where
  addrMap := s.addrMap.adjust addr (fun e => { e with level }) fun _ => rfl
  addrCount := s.addrCount
  count_eq := by
    rw [s.count_eq]
    exact (List.length_map _).symm
  ports := by
    intro e he
    obtain ⟨x, hx, rfl⟩ := KeyList.mem_adjust.1 he
    split
    · exact s.ports x hx
    · exact s.ports x hx

/-- The entry of an address inserted, or its level updated. -/
def register (s : Server) (addr : AddrSock) (level : UInt32) (h : addr.port ≠ 0) : Server :=
  if hc : s.addrMap.contains addr = true then s.setLevel addr level
  else
    { addrMap := s.addrMap.insert ⟨addr, level⟩
      addrCount := s.addrCount + 1
      count_eq := by
        have hn := KeyList.nodes_insert (v := BootstrapEntry.mk addr level) (Bool.eq_false_iff.2 hc)
        rw [hn, s.count_eq, List.length_append]
        rfl
      ports := by
        intro e he
        have hm := KeyList.mem_insert (v := BootstrapEntry.mk addr level) (x := e)
          (Bool.eq_false_iff.2 hc)
        rcases hm.1 he with he | rfl
        · exact s.ports e he
        · exact h }

/-- The entry of an address removed, if there is one. -/
def remove (s : Server) (addr : AddrSock) : Server :=
  if hc : s.addrMap.contains addr = true then
    { addrMap := s.addrMap.erase addr
      addrCount := s.addrCount - 1
      count_eq := by rw [s.count_eq, KeyList.length_erase hc]
      ports := fun e he => s.ports e (KeyList.mem_of_mem_erase he) }
  else s

/-! ## The searches -/

/-- `FTBNI_util_find_root_entry`. -/
def findRootEntry (s : Server) : Option BootstrapEntry :=
  s.addrMap.nodes.find? fun entry => entry.level == 1

/-- `FTBNI_util_cross_out_parent_entry`. -/
def crossOutParentEntry (pktReq : BootstrapPkt) (s : Server) : Server :=
  s.setLevel pktReq.parentAddr crossedOut

/-- The test on `temp` in `FTBNI_util_find_parent_addr`. -/
def suitable (pktReq : BootstrapPkt) (temp : BootstrapEntry) : Bool :=
  decide (temp.level < pktReq.level.toUInt32) && temp.level != crossedOut
    && (pktReq.addr.port != temp.addr.port
      || !CStr.strncmpEq maxHostAddr pktReq.addr.name temp.addr.name)

/-- `FTBNI_util_find_parent_addr`: the last suitable entry of a random range from the first, else
the first suitable one of the rest. -/
def findParentAddr (pktReq : BootstrapPkt) (rand : Nat) (s : Server) : Option BootstrapEntry :=
  if s.addrCount == 0 then none
  else
    let x := rand % s.addrCount
    let entry := (s.addrMap.nodes.take (x + 1)).foldl
      (fun entry temp => if suitable pktReq temp then some temp else entry) none
    match entry with
    | some entry => some entry
    | none => (s.addrMap.nodes.drop (x + 1)).find? (suitable pktReq)

/-! ## The packets -/

/-- The reply to an `ADDR_REQ`: the parent that was found, or port 0. -/
def parentPkt : Option BootstrapEntry → BootstrapPkt
  | some entry =>
    { bootstrapMsgType := addrRep, parentAddr := entry.addr, level := entry.level.toUInt16 }
  | none => { bootstrapMsgType := addrRep, parentAddr := ⟨[], 0⟩, level := 0 }

/-- One turn of the loop of `main`: the packet it received, and what `rand()` returns if it is
called. The second part is the packet that is sent back. -/
def serve (s : Server) (pkt : BootstrapPkt) (rand : Nat) : Server × Option BootstrapPkt :=
  if pkt.bootstrapMsgType == addrReq then
    let s := s.crossOutParentEntry pkt
    (s, some (parentPkt (s.findParentAddr pkt rand)))
  else if pkt.bootstrapMsgType == regReq then
    if h : pkt.addr.port = 0 then (s, none)
    else if pkt.level == 1 && s.findRootEntry.isSome then
      (s, some { bootstrapMsgType := regInvalid })
    else (s.register pkt.addr pkt.level.toUInt32 h, some { bootstrapMsgType := regRep })
  else if pkt.bootstrapMsgType == deregReq then
    if pkt.addr.port = 0 then (s, none)
    else (s.remove pkt.addr, some { bootstrapMsgType := deregRep })
  else if pkt.bootstrapMsgType == connFail then (s.remove pkt.parentAddr, none)
  else (s, none)

end Server

end FTBNI
