import Ftb.Tcp.Proof.Pool
import Ftb.Tcp.Proof.Step

/-!
# When `FTBN_Connect` returns

The loop of one process with the server to itself: it returns from every run in which the server
answers, exactly when its pool of parents is not `Endless` (`returns_iff`). A turn of the loop is two
or three steps, from `request` to `request`.
-/

open Trace FTB FTBN FTBNI

namespace FTBN.Conn

/-- `FTBNI_util_connect_to`, for a fixed assignment of which addresses accept connections. -/
def linkOf (accepts : AddrSock → Bool) (addr : AddrSock) : Ret :=
  if accepts addr then .success else .errNetworkNoRoute

/-- The server answers the request of the next step, if there is one. -/
def Answered (ch : Choice) (sc : Server × Conn) : Prop :=
  let (s, c) := sc
  match c.pc with
  | .request => (exchange ch (Bootstrap.parentRequest c.me c.myLevel c.parentAddr) s).2.isSome = true
  | .rootReg =>
    c.leaf = true ∨
      (exchange ch (Bootstrap.registerRequest c.me (c.parentLevel + 1)) s).2.isSome = true
  | .childReg => (exchange ch (Bootstrap.registerRequest c.me c.myLevel) s).2.isSome = true
  | _ => True

/-- The process has returned. -/
def Returned (sc : Server × Conn) : Prop := ∃ ret, sc.2.pc = .done ret

/-- The process returns, whatever the server chooses and whatever its own stack holds. -/
def Returns (accepts : AddrSock → Bool) (localAddr : AddrSock) (s : Server) (c : Conn) : Prop :=
  ∀ cs, Follows (step (linkOf accepts)) Answered cs (s, c.start (linkOf accepts) localAddr) →
    ∃ n, Returned (runChoices (step (linkOf accepts)) cs n (s, c.start (linkOf accepts) localAddr))

/-! ## The steps -/

section
variable {accepts : AddrSock → Bool} {ch : Choice} {s : Server} {c : Conn}

theorem eligible_eq (c : Conn) :
    Server.suitable (Bootstrap.parentRequest c.me c.myLevel c.parentAddr) =
      eligible c.me c.myLevel := rfl

theorem step_connect_dead (hpc : c.pc = .connect) (ha : accepts c.parentAddr = false) :
    step (linkOf accepts) ch (s, c) = (s, { c with pc := .report }) := by
  simp [step, hpc, linkOf, ha, afterConnect]

theorem step_connect_alive (hpc : c.pc = .connect) (ha : accepts c.parentAddr = true) :
    step (linkOf accepts) ch (s, c) = (s, if c.leaf then { c with pc := .done .success }
      else { c with myLevel := c.parentLevel + 1, pc := .childReg }) := by
  cases hl : c.leaf <;> simp [step, hpc, linkOf, ha, afterConnect, hl, loopEnd]

/-- A registration as root that the server accepts. -/
theorem returned_rootReg (hpc : c.pc = .rootReg) (hleaf : c.leaf = false)
    (hch : ch.answered = true) (hp : c.me.port ≠ 0) (hroot : s.findRootEntry = none) :
    Returned (step (linkOf accepts) ch (s, c)) := by
  have hs : s.serve (Bootstrap.registerRequest c.me (c.parentLevel + 1)) ch.rand =
      (s.register c.me (c.parentLevel + 1).toUInt32 hp, some { bootstrapMsgType := regRep }) := by
    rw [Server.serve_regReq rfl, dif_neg (by exact hp), hroot, Option.isSome_none, Bool.and_false,
      if_neg Bool.false_ne_true]
    rfl
  simp only [step, hpc, hleaf, Bool.false_eq_true, if_false, exchange, hch, if_true, hs]
  exact ⟨.success, by simp [registerResult, Bootstrap.registerReply, afterRootReg_success]⟩

theorem returned_childReg (hpc : c.pc = .childReg) :
    Returned (step (linkOf accepts) ch (s, c)) := by
  rw [step_childReg hpc]
  exact ⟨_, rfl⟩

theorem answered_of_request (hpc : c.pc = .request) (h : Answered ch (s, c)) :
    ch.answered = true := by
  simp only [Answered, hpc, exchange] at h
  by_contra hch
  simp [hch] at h

/-- An answered registration as root has a port. -/
theorem asks_of_rootReg (hpc : c.pc = .rootReg) (h : Answered ch (s, c)) :
    Asks c.leaf c.me ∧ (c.leaf = true ∨ ch.answered = true) := by
  simp only [Answered, hpc, exchange] at h
  refine ⟨h.imp_right fun h hp => ?_, h.imp_right fun h => ?_⟩
  · have hs : (s.serve (Bootstrap.registerRequest c.me (c.parentLevel + 1)) ch.rand).2 = none := by
      rw [Server.serve_regReq rfl, dif_pos (by exact hp)]
    split at h
    · rw [hs] at h
      cases h
    · cases h
  · by_contra hch
    simp [hch] at h

end

/-! ## The endless loop -/

section
variable (accepts : AddrSock → Bool)

/-- At every step of an endless loop. -/
def Doomed (sc : Server × Conn) : Prop :=
  let (s, c) := sc
  let failing := ∃ junk, Endless accepts c.leaf c.me (s.fail junk c.parentAddr) c.myLevel
  match c.pc with
  | .request => Endless accepts c.leaf c.me (crossed s c) c.myLevel
  | .rootReg =>
    c.parentAddr.port = 0 ∧ c.parentLevel = 0 ∧ Asks c.leaf c.me ∧
      (c.leaf = true ∨ s.findRootEntry.isSome = true) ∧ Endless accepts c.leaf c.me s initialLevel
  | .connect => accepts c.parentAddr = false ∧ failing
  | .report => failing
  | _ => False

variable {accepts}

theorem not_returned_of_doomed {sc : Server × Conn} (h : Doomed accepts sc) : ¬Returned sc := by
  rintro ⟨ret, hpc⟩
  simp [Doomed, hpc] at h

theorem findParentAddr_eq_none {s : Server} {c : Conn}
    (h : ∀ e ∈ s.addrMap.nodes, eligible c.me c.myLevel e = false) (rand : Nat) :
    s.findParentAddr (Bootstrap.parentRequest c.me c.myLevel c.parentAddr) rand = none := by
  cases hf : s.findParentAddr (Bootstrap.parentRequest c.me c.myLevel c.parentAddr) rand with
  | none => rfl
  | some e =>
    obtain ⟨he, hs⟩ := Server.mem_of_findParentAddr hf
    rw [eligible_eq, h e he] at hs
    cases hs

/-- Some choice goes on. -/
theorem Doomed.step {sc : Server × Conn} (h : Doomed accepts sc) :
    ∃ ch, Answered ch sc ∧ Doomed accepts (step (linkOf accepts) ch sc) := by
  obtain ⟨s, c⟩ := sc
  cases hpc : c.pc with
  | request =>
    simp only [Doomed, hpc] at h
    rcases h.turn with ⟨e, he, hel, hac, junk, hE⟩ | ⟨hp, ha, hr, hE⟩
    · obtain ⟨rand, hf⟩ := Server.exists_findParentAddr
        (Bootstrap.parentRequest c.me c.myLevel c.parentAddr) he hel
      refine ⟨⟨rand, true, default⟩, ?_, ?_⟩
      · simp [Answered, hpc, exchange_request]
      · rw [step_request_some hpc rfl hf]
        exact ⟨hac, junk, hE⟩
    · refine ⟨⟨0, true, default⟩, ?_, ?_⟩
      · simp [Answered, hpc, exchange_request]
      · rw [step_request_none hpc rfl (findParentAddr_eq_none hp 0)]
        exact ⟨rfl, rfl, ha, hr, hE⟩
  | rootReg =>
    simp only [Doomed, hpc] at h
    obtain ⟨hp, hl, ha, hr, hE⟩ := h
    refine ⟨⟨0, true, default⟩, ?_, ?_⟩
    · simp only [Answered, hpc, exchange, if_true]
      refine ha.imp_right fun hport => ?_
      rw [Server.serve_regReq rfl, dif_neg (by exact hport)]
      split <;> rfl
    · rw [step_rootReg_fails hpc hl hr]
      simp only [Doomed, crossed]
      rwa [Server.setLevel_of_port hp]
  | connect =>
    simp only [Doomed, hpc] at h
    refine ⟨⟨0, true, default⟩, by simp [Answered, hpc], ?_⟩
    rw [step_connect_dead hpc h.1]
    exact h.2
  | report =>
    simp only [Doomed, hpc] at h
    obtain ⟨junk, hE⟩ := h
    refine ⟨⟨0, true, { bootstrapMsgType := 0, parentAddr := junk }⟩, by simp [Answered, hpc], ?_⟩
    rw [step_report hpc]
    exact hE
  | childReg | done | aborted => simp [Doomed, hpc] at h

/-- **The loop goes on for ever.** -/
theorem not_returns {localAddr : AddrSock} {s : Server} {c : Conn}
    (hd : Doomed accepts (s, c.start (linkOf accepts) localAddr)) :
    ¬Returns accepts localAddr s c := by
  intro h
  obtain ⟨cs, hcs, hall⟩ := exists_run_of_closed (fun _ h => Doomed.step h) hd
  obtain ⟨n, hn⟩ := h cs hcs
  exact not_returned_of_doomed (hall n) hn

/-! ## The loop that ends -/

/-- At the start of a turn of a loop that ends. -/
def Ending (accepts : AddrSock → Bool) (sc : Server × Conn) : Prop :=
  sc.2.pc = .request ∧
    ¬Endless accepts sc.2.leaf sc.2.me (crossed sc.1 sc.2) sc.2.myLevel

/-- The entries that are left to try, and whether the level is still to be reset. -/
def turnsLeft (sc : Server × Conn) : Nat :=
  2 * (crossed sc.1 sc.2).count live + if sc.2.myLevel = initialLevel then 0 else 1

/-- A turn returns, or leaves less. -/
theorem Ending.turn {sc : Server × Conn} (h : Ending accepts sc) {cs : Nat → Choice}
    (hcs : Follows (Conn.step (linkOf accepts)) Answered cs sc) :
    ∃ k, Returned (runChoices (Conn.step (linkOf accepts)) cs k sc) ∨
      (Ending accepts (runChoices (Conn.step (linkOf accepts)) cs k sc) ∧
        turnsLeft (runChoices (Conn.step (linkOf accepts)) cs k sc) < turnsLeft sc) := by
  obtain ⟨s, c⟩ := sc
  obtain ⟨hpc, hE⟩ := h
  simp only at hpc hE
  have hans := answered_of_request hpc (hcs 0)
  cases hf : (crossed s c).findParentAddr
      (Bootstrap.parentRequest c.me c.myLevel c.parentAddr) (cs 0).rand with
  | some e =>
    have h1 : step (linkOf accepts) (cs 0) (s, c) = _ := step_request_some hpc hans hf
    obtain ⟨he, hel⟩ := Server.mem_of_findParentAddr hf
    let c₁ : Conn := { c with parentAddr := e.addr, parentLevel := e.level.toUInt16, pc := .connect }
    by_cases hac : accepts e.addr = true
    · have h2 : step (linkOf accepts) (cs 1) (crossed s c, c₁) = _ := step_connect_alive rfl hac
      cases hl : c.leaf with
      | true =>
        refine ⟨2, .inl ?_⟩
        simp only [runChoices, h1]
        rw [h2, if_pos hl]
        exact ⟨_, rfl⟩
      | false =>
        refine ⟨3, .inl ?_⟩
        simp only [runChoices, h1]
        rw [h2, if_neg (by simp [c₁, hl])]
        exact returned_childReg rfl
    · have hac := Bool.eq_false_iff.2 hac
      have h2 : step (linkOf accepts) (cs 1) (crossed s c, c₁) = _ := step_connect_dead rfl hac
      have h3 : step (linkOf accepts) (cs 2) (crossed s c, { c₁ with pc := .report }) = _ :=
        step_report rfl
      obtain ⟨hE', hlt⟩ := not_endless_fail hE he hel hac (cs 2).junk.parentAddr
      refine ⟨3, .inr ?_⟩
      simp only [runChoices, h1]
      rw [h2, h3]
      exact ⟨⟨rfl, hE'⟩, by
        simp only [turnsLeft]
        exact Nat.add_lt_add_right (Nat.mul_lt_mul_of_pos_left hlt (by decide)) _⟩
  | none =>
    have h1 : step (linkOf accepts) (cs 0) (s, c) = _ := step_request_none hpc hans hf
    let c₁ : Conn := { c with parentAddr := ⟨[], 0⟩, parentLevel := 0, pc := .rootReg }
    have hp : ∀ e ∈ (crossed s c).addrMap.nodes, eligible c.me c.myLevel e = false :=
      Server.not_suitable_of_findParentAddr hf
    have hans1 : Answered (cs 1) (crossed s c, c₁) := by
      have := hcs 1
      simp only [runChoices, h1] at this
      exact this
    obtain ⟨ha, hans1⟩ := asks_of_rootReg rfl hans1
    by_cases hr : c.leaf = true ∨ (crossed s c).findRootEntry.isSome = true
    · -- refused, and again from the initial level
      have h2 : step (linkOf accepts) (cs 1) (crossed s c, c₁) = _ := step_rootReg_fails rfl rfl hr
      have hid : (crossed s c).setLevel ⟨[], 0⟩ crossedOut = crossed s c :=
        Server.setLevel_of_port rfl _
      obtain ⟨hE', hne⟩ := not_endless_top hE hp ha hr
      refine ⟨2, .inr ?_⟩
      simp only [runChoices, h1]
      rw [h2]
      refine ⟨⟨rfl, ?_⟩, ?_⟩
      · show ¬Endless accepts c.leaf c.me ((crossed s c).setLevel ⟨[], 0⟩ crossedOut) initialLevel
        rwa [hid]
      · show 2 * ((crossed s c).setLevel ⟨[], 0⟩ crossedOut).count live + 0 < turnsLeft (s, c)
        simp only [hid, turnsLeft, if_neg hne]
        omega
    · rw [not_or] at hr
      have h2 : Returned (step (linkOf accepts) (cs 1) (crossed s c, c₁)) :=
        returned_rootReg rfl (Bool.eq_false_iff.2 hr.1) (hans1.resolve_left hr.1)
          (ha.resolve_left hr.1) (Option.not_isSome_iff_eq_none.1 hr.2)
      refine ⟨2, .inl ?_⟩
      simp only [runChoices, h1]
      exact h2

/-- **Every turn brings the loop closer to its end.** -/
theorem returns_of_ending {localAddr : AddrSock} {s : Server} {c : Conn}
    (h : Ending accepts (s, c.start (linkOf accepts) localAddr)) : Returns accepts localAddr s c :=
  fun cs hcs => ends_of_decreasing (I := Ending accepts) Nat.lt_wfRel.wf turnsLeft
    (fun _ h _ hcs => h.turn hcs) h cs hcs

/-! ## The theorem -/

/-- The table once `FTBN_Connect` has asked for the first time. A leaf does not name a parent. -/
def firstAsked (s : Server) (c : Conn) : Server := if c.leaf then s else crossed s c

/-- A connection that asks the server first. -/
theorem returns_iff_asking {localAddr : AddrSock} {s : Server} {c c' : Conn}
    (hstart : c.start (linkOf accepts) localAddr = c') (hpc : c'.pc = .request) :
    Returns accepts localAddr s c ↔
      ¬Endless accepts c'.leaf c'.me (crossed s c') c'.myLevel := by
  subst hstart
  refine ⟨fun h hE => not_returns ?_ h, fun h => returns_of_ending ⟨hpc, h⟩⟩
  simp only [Doomed, hpc]
  exact hE

/-- **`FTBN_Connect` returns from every run in which the server answers, unless it is a leaf without
a local agent or an agent, and its pool of parents is endless.** -/
theorem returns_iff (accepts : AddrSock → Bool) (localAddr : AddrSock) (s : Server) (c : Conn) :
    Returns accepts localAddr s c ↔ ¬((c.leaf = true → accepts localAddr = false) ∧
      Endless accepts c.leaf c.me (firstAsked s c) c.myLevel) := by
  by_cases hl : c.leaf = true
  · by_cases ha : accepts localAddr = true
    · refine iff_of_true (fun cs _ => ⟨0, .success, ?_⟩) fun h => ?_
      · simp [runChoices, start, hl, linkOf, ha]
      · exact absurd ha (by simp [h.1 hl])
    · have hstart : c.start (linkOf accepts) localAddr =
          { c with retry := 0, parentAddr := { c.parentAddr with port := 0 }, pc := .request } := by
        simp [start, hl, linkOf, ha]
      -- nobody has the port of the request
      have hcr : crossed s { c with
          retry := 0, parentAddr := { c.parentAddr with port := 0 }, pc := .request } =
            firstAsked s c := by
        rw [firstAsked, if_pos hl]
        exact Server.setLevel_of_port rfl _
      rw [returns_iff_asking hstart rfl, hcr, and_iff_right fun _ => Bool.eq_false_iff.2 ha]
  · have hstart := @start_of_agent (linkOf accepts) c (Bool.eq_false_iff.2 hl) localAddr
    have hcr : crossed s { c with retry := 0, pc := .request } = firstAsked s c := by
      rw [firstAsked, if_neg hl]
      rfl
    rw [returns_iff_asking hstart rfl, hcr, and_iff_right fun h => absurd h hl]

/-- A dead parent is offered again and again. -/
theorem deadParent_loops : ¬∀ accepts localAddr s c, Returns accepts localAddr s c := by
  intro h
  let s := Server.init.register ⟨['r'], 10809⟩ 1 (by decide)
  let c : Conn := ⟨false, ⟨['h'], 10809⟩, initialLevel, ⟨[], 0⟩, 0, 0, .request⟩
  refine not_returns ?_ (h (fun _ => false) ⟨[], 0⟩ s c)
  exact .inl (Server.count_pos.2 ⟨⟨⟨['r'], 10809⟩, 1⟩, by decide, by decide⟩)

end

end FTBN.Conn
