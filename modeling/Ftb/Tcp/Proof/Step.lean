import Ftb.Bootstrap.Proof.Server
import Ftb.Tcp.Connect

/-!
# The steps of `FTBN_Connect`

One equation for each step and outcome. What `FTBNI_util_connect_to` returns (`link`) matters only to
the attempt itself.
-/

open FTB FTBN FTBNI

namespace FTBN.Conn

variable {link : AddrSock → Ret} {ch : Choice} {s : Server} {c : Conn}

/-! ## The request -/

/-- An agent asks the server at once. -/
theorem start_of_agent (hl : c.leaf = false) (localAddr : AddrSock) :
    c.start link localAddr = { c with retry := 0, pc := .request } := by
  simp [start, hl]

/-- The server after the request: the last parent is crossed out. -/
def crossed (s : Server) (c : Conn) : Server := s.setLevel c.parentAddr crossedOut

theorem exchange_request (hch : ch.answered = true) :
    exchange ch (Bootstrap.parentRequest c.me c.myLevel c.parentAddr) s =
      (crossed s c, some (Server.parentPkt ((crossed s c).findParentAddr
        (Bootstrap.parentRequest c.me c.myLevel c.parentAddr) ch.rand))) := by
  rw [exchange, if_pos hch]
  exact Server.serve_addrReq rfl

theorem step_request_some (hpc : c.pc = .request) (hch : ch.answered = true) {e : BootstrapEntry}
    (he : (crossed s c).findParentAddr
      (Bootstrap.parentRequest c.me c.myLevel c.parentAddr) ch.rand = some e) :
    step link ch (s, c) = (crossed s c,
      { c with parentAddr := e.addr, parentLevel := e.level.toUInt16, pc := .connect }) := by
  have hp : e.addr.port ≠ 0 := (crossed s c).ports e (Server.mem_of_findParentAddr he).1
  simp only [step, hpc, exchange_request hch, he, afterRequest, Server.parentPkt,
    Bootstrap.parentReply]
  simp [addrRep, hp]

theorem step_request_none (hpc : c.pc = .request) (hch : ch.answered = true)
    (he : (crossed s c).findParentAddr
      (Bootstrap.parentRequest c.me c.myLevel c.parentAddr) ch.rand = none) :
    step link ch (s, c) = (crossed s c,
      { c with parentAddr := ⟨[], 0⟩, parentLevel := 0, pc := .rootReg }) := by
  simp only [step, hpc, exchange_request hch, he, afterRequest, Server.parentPkt,
    Bootstrap.parentReply]
  simp [addrRep]

/-- The request is made again, or the process ends. -/
theorem step_request_unanswered (hpc : c.pc = .request) (hch : ch.answered = false) :
    ∃ retry pc, (pc ≠ .done .success ∧ pc ≠ .rootReg ∧ pc ≠ .connect ∧ pc ≠ .childReg) ∧
      step link ch (s, c) =
        (s, { c with parentAddr := { c.parentAddr with port := 0 }, retry, pc }) := by
  simp only [step, hpc, exchange, hch, Bool.false_eq_true, if_false, afterRequest]
  split
  · rename_i hr
    exact ⟨c.retry + 1, .request, by decide, by simp [loopEnd, hr]⟩
  · exact ⟨c.retry, .aborted, by decide, by simp⟩

/-! ## The registrations -/

/-- A registration is accepted, or changes nothing. -/
theorem exchange_register (ch : Choice) (s : Server) (me : AddrSock) (level : UInt16) :
    (ch.answered = true ∧ ∃ hp : me.port ≠ 0, (level = 1 → s.findRootEntry = none) ∧
      exchange ch (Bootstrap.registerRequest me level) s =
        (s.register me level.toUInt32 hp, some { bootstrapMsgType := regRep })) ∨
    ∃ reply, exchange ch (Bootstrap.registerRequest me level) s = (s, reply) ∧
      registerResult reply ≠ .success ∧
      ¬(ch.answered = true ∧ me.port ≠ 0 ∧ s.findRootEntry = none) := by
  by_cases hch : ch.answered = true
  · simp only [exchange, hch, if_true]
    by_cases hp : me.port = 0
    · refine .inr ⟨none, ?_, by decide, fun h => h.2.1 hp⟩
      rw [Server.serve_regReq rfl, dif_pos (by exact hp)]
    · by_cases hr : (level == 1 && s.findRootEntry.isSome) = true
      · refine .inr ⟨some { bootstrapMsgType := regInvalid }, ?_, by decide, fun h => ?_⟩
        · rw [Server.serve_regReq rfl, dif_neg (by exact hp), if_pos (by exact hr)]
        · rw [h.2.2, Option.isSome_none, Bool.and_false] at hr
          cases hr
      · refine .inl ⟨trivial, hp, fun hl => ?_, ?_⟩
        · simpa [hl] using hr
        · rw [Server.serve_regReq rfl, dif_neg (by exact hp), if_neg (by exact hr)]
          rfl
  · exact .inr ⟨none, by simp [exchange, hch], by decide, fun h => hch h.1⟩

theorem afterRootReg_success :
    c.afterRootReg .success = { c with myLevel := c.parentLevel + 1, pc := .done .success } := by
  simp [afterRootReg, loopEnd]

theorem afterRootReg_fails {ret : Ret} (h : ret ≠ .success) :
    c.afterRootReg ret = { c with myLevel := initialLevel, retry := 1, pc := .request } := by
  simp [afterRootReg, h, loopEnd, connectRetryCount]

theorem step_rootReg (hpc : c.pc = .rootReg) (hleaf : c.leaf = false) :
    step link ch (s, c) = ((exchange ch (Bootstrap.registerRequest c.me (c.parentLevel + 1)) s).1,
      c.afterRootReg (registerResult
        (exchange ch (Bootstrap.registerRequest c.me (c.parentLevel + 1)) s).2)) := by
  simp only [step, hpc, hleaf, Bool.false_eq_true, if_false]

/-- A refused or unsupported registration as root. -/
theorem step_rootReg_fails (hpc : c.pc = .rootReg) (hl : c.parentLevel = 0)
    (hr : c.leaf = true ∨ s.findRootEntry.isSome = true) :
    step link ch (s, c) = (s, { c with myLevel := initialLevel, retry := 1, pc := .request }) := by
  by_cases hleaf : c.leaf = true
  · simp only [step, hpc, hleaf, if_true]
    rw [afterRootReg_fails (by decide)]
    simp [hleaf]
  · rw [step_rootReg hpc (Bool.eq_false_iff.2 hleaf)]
    rcases exchange_register ch s c.me (c.parentLevel + 1) with ⟨-, -, h, -⟩ | ⟨reply, he, hne, -⟩
    · have := hr.resolve_left hleaf
      rw [h (by rw [hl]; rfl)] at this
      cases this
    · rw [he]
      simp only [afterRootReg_fails hne]

theorem afterChildReg_eq (ret : Ret) : c.afterChildReg ret = { c with pc := .done .success } := by
  unfold afterChildReg
  split
  · rfl
  · rename_i h
    simp [loopEnd, Decidable.not_not.1 h]

theorem step_childReg (hpc : c.pc = .childReg) :
    step link ch (s, c) = ((exchange ch (Bootstrap.registerRequest c.me c.myLevel) s).1,
      { c with pc := .done .success }) := by
  simp only [step, hpc, afterChildReg_eq]

/-! ## The attempt -/

theorem afterConnect_success (hleaf : c.leaf = false) : c.afterConnect .success =
    { c with myLevel := c.parentLevel + 1, pc := .childReg } := by
  simp [afterConnect, hleaf]

theorem afterConnect_fails (c : Conn) {ret : Ret} (hret : ret ≠ .success) :
    ∃ retry pc, c.afterConnect ret = { c with retry, pc } ∧
      (pc = .report ∨ pc = .request ∨ pc = .done ret) := by
  have he : c.afterConnect ret = if ret = .errNetworkNoRoute then
      { c with pc := .report } else c.loopEnd ret := by simp [afterConnect, hret]
  rw [he]
  split
  · exact ⟨c.retry, .report, rfl, .inl rfl⟩
  · unfold loopEnd
    split
    · exact ⟨c.retry + 1, .request, rfl, .inr (.inl rfl)⟩
    · exact ⟨c.retry, .done ret, rfl, .inr (.inr rfl)⟩

/-- The level below a parent. -/
theorem toNat_succ {l : UInt16} (h : l.toNat < 65535) : (l + 1).toNat = l.toNat + 1 := by
  rw [UInt16.toNat_add]
  simp
  omega

theorem step_report (hpc : c.pc = .report) :
    step link ch (s, c) = (s.remove ch.junk.parentAddr, { c with
      parentAddr := { c.parentAddr with port := 2 }, retry := 1, pc := .request }) := by
  simp [step, hpc, Server.serve_connFailure, afterReport, loopEnd, connectRetryCount]

end FTBN.Conn
