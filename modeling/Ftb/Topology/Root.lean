import Ftb.Tcp.Proof.Step
import Ftb.Topology.World
import Mathlib.Data.List.FinRange

/-!
# When there is one root

The server refuses a registration as root while some entry has level 1, so the table never has two
such entries (`RootTable`). That makes the root unique as long as the entry of the root stays as it
is. Two packets change the entry of another agent: an `ADDR_REQ` crosses out the parent that the
asking agent has lost, and a `CONN_FAIL` removes the address that its sender left unset. With neither
done to a running root there is one root (`singleRoot_of_undisturbed`); an agent that loses the
connection to a root that still runs becomes a second one (`lostLink_splits`).
-/

open Trace FTB FTBN FTBNI

namespace Topology

variable {ι : Type} {addr : ι → AddrSock}

/-- It runs, and its last `FTBN_Connect` ended with parent pid 0 and an accepted registration. -/
def Agent.IsRoot (p : Agent ι) : Prop :=
  p.running = true ∧ p.conn.pc = .done .success ∧ p.parent = none

instance (p : Agent ι) : Decidable p.IsRoot := inferInstanceAs (Decidable (_ ∧ _ ∧ _))

def SingleRoot (w : World ι) : Prop :=
  ∀ i j p q, w.agents i = some p → w.agents j = some q → p.IsRoot → q.IsRoot → i = j

/-- The worlds that agents with an address of their own reach. -/
def ListenReached [DecidableEq ι] (addr : ι → AddrSock) : World ι → Prop :=
  Reachable (· = World.init) fun w w' => ∃ a, Listens addr w a ∧ act addr w a = some w'

/-- No packet of the action takes the entry of a running root away: the parent that an `ADDR_REQ` has
crossed out is none, and neither is the unset address of a `CONN_FAIL`. -/
def Undisturbed (addr : ι → AddrSock) (w : World ι) : Action ι → Prop
  | .exchange i ch => ∀ p, w.agents i = some p → ∀ j q, w.agents j = some q → q.IsRoot →
      (p.conn.pc = .request → isEqualAddrSock p.conn.parentAddr (addr j) = false) ∧
      (p.conn.pc = .report → isEqualAddrSock ch.junk.parentAddr (addr j) = false)
  | _ => True

instance [Fintype ι] (addr : ι → AddrSock) (w : World ι) (a : Action ι) :
    Decidable (Undisturbed addr w a) :=
  match a with
  | .exchange i ch => inferInstanceAs (Decidable (∀ p, w.agents i = some p →
      ∀ j q, w.agents j = some q → q.IsRoot →
      (p.conn.pc = .request → isEqualAddrSock p.conn.parentAddr (addr j) = false) ∧
      (p.conn.pc = .report → isEqualAddrSock ch.junk.parentAddr (addr j) = false)))
  | .start _ | .lost _ | .reach _ _ | .unreached _ _ | .crash _ | .deregister _ _ =>
    inferInstanceAs (Decidable True)

/-- The worlds that they reach by undisturbed actions. -/
def UndisturbedReached [DecidableEq ι] (addr : ι → AddrSock) : World ι → Prop :=
  Reachable (· = World.init) fun w w' =>
    ∃ a, Listens addr w a ∧ Undisturbed addr w a ∧ act addr w a = some w'

/-! ## The table -/

/-- No entry has level 0, and at most one has level 1. -/
structure RootTable (s : Server) : Prop where
  pos : ∀ e ∈ s.addrMap.nodes, e.level ≠ 0
  one : ∀ e ∈ s.addrMap.nodes, ∀ e' ∈ s.addrMap.nodes, e.level = 1 → e'.level = 1 → e = e'

/-- The address is registered as the root. -/
def RootAt (s : Server) (a : AddrSock) : Prop :=
  ∃ e ∈ s.addrMap.nodes, isEqualAddrSock e.addr a = true ∧ e.level = 1

section
variable {s : Server} {a b : AddrSock} {level : UInt32}

theorem RootTable.setLevel (h : RootTable s) (h0 : level ≠ 0) (h1 : level ≠ 1) :
    RootTable (s.setLevel a level) := by
  refine ⟨fun e he => ?_, fun e he e' he' hl hl' => ?_⟩
  · obtain ⟨x, hx, rfl⟩ := Server.mem_setLevel.1 he
    split
    · exact h0
    · exact h.pos x hx
  · obtain ⟨x, hx, rfl⟩ := Server.mem_setLevel.1 he
    obtain ⟨x', hx', rfl⟩ := Server.mem_setLevel.1 he'
    -- an entry of level 1 is not the one that was set
    split at hl
    · exact absurd hl h1
    · split at hl'
      · exact absurd hl' h1
      · rename_i hn hn'
        rw [if_neg hn, if_neg hn']
        exact h.one x hx x' hx' hl hl'

theorem RootTable.remove (h : RootTable s) : RootTable (s.remove a) := by
  have hsub : ∀ e ∈ (s.remove a).addrMap.nodes, e ∈ s.addrMap.nodes := by
    rw [Server.addrMap_remove]
    exact fun e he => KeyList.mem_of_mem_erase he
  exact ⟨fun e he => h.pos e (hsub e he), fun e he e' he' => h.one e (hsub e he) e' (hsub e' he')⟩

/-- An agent registers below a parent. -/
theorem RootTable.registerChild (h : RootTable s) (hp : a.port ≠ 0) (h0 : level ≠ 0)
    (h1 : level ≠ 1) : RootTable (s.register a level hp) := by
  unfold Server.register
  split
  · exact h.setLevel h0 h1
  · rename_i hc
    have hm := fun e => KeyList.mem_insert (v := BootstrapEntry.mk a level) (x := e)
      (Bool.eq_false_iff.2 hc)
    refine ⟨fun e he => ?_, fun e he e' he' hl hl' => ?_⟩
    · rcases (hm e).1 he with he | rfl
      · exact h.pos e he
      · exact h0
    · rcases (hm e).1 he with he | rfl
      · rcases (hm e').1 he' with he' | rfl
        · exact h.one e he e' he' hl hl'
        · exact absurd hl' h1
      · exact absurd hl h1

/-- The root registers, where no other has. -/
theorem RootTable.registerRoot (h : RootTable s) (hp : a.port ≠ 0) (hn : s.findRootEntry = none) :
    RootTable (s.register a 1 hp) := by
  have hnone : ∀ e ∈ s.addrMap.nodes, e.level ≠ 1 := by
    have := List.find?_eq_none.1 hn
    simpa using this
  unfold Server.register
  split
  · refine ⟨fun e he => ?_, fun e he e' he' hl hl' => ?_⟩
    · obtain ⟨x, hx, rfl⟩ := Server.mem_setLevel.1 he
      split
      · simp
      · exact h.pos x hx
    · obtain ⟨x, hx, rfl⟩ := Server.mem_setLevel.1 he
      obtain ⟨x', hx', rfl⟩ := Server.mem_setLevel.1 he'
      split at hl
      · split at hl'
        · rename_i ha ha'
          rw [KeyList.eq_of_mem hx hx' (KeyEq.trans ha (KeyEq.symm ha'))]
        · exact absurd hl' (hnone x' hx')
      · exact absurd hl (hnone x hx)
  · rename_i hc
    have hm := fun e => KeyList.mem_insert (v := BootstrapEntry.mk a 1) (x := e)
      (Bool.eq_false_iff.2 hc)
    refine ⟨fun e he => ?_, fun e he e' he' hl hl' => ?_⟩
    · rcases (hm e).1 he with he | rfl
      · exact h.pos e he
      · simp
    · rcases (hm e).1 he with he | rfl
      · exact absurd hl (hnone e he)
      · rcases (hm e').1 he' with he' | rfl
        · exact absurd hl' (hnone e' he')
        · rfl

theorem RootAt.setLevel (h : RootAt s b) (hab : isEqualAddrSock a b = false) :
    RootAt (s.setLevel a level) b := by
  obtain ⟨e, he, heb, hl⟩ := h
  refine ⟨e, Server.mem_setLevel.2 ⟨e, he, if_neg fun hea => ?_⟩, heb, hl⟩
  have := KeyEq.trans (KeyEq.symm hea) heb
  rw [hab] at this
  cases this

theorem RootAt.remove (h : RootAt s b) (hab : isEqualAddrSock a b = false) :
    RootAt (s.remove a) b := by
  obtain ⟨e, he, heb, hl⟩ := h
  refine ⟨e, ?_, heb, hl⟩
  rw [Server.addrMap_remove]
  refine KeyList.mem_erase.2 ⟨he, Bool.eq_false_iff.2 fun hea => ?_⟩
  have := KeyEq.trans (KeyEq.symm hea) heb
  rw [hab] at this
  cases this

theorem RootAt.register (h : RootAt s b) (hp : a.port ≠ 0) (hab : isEqualAddrSock a b = false) :
    RootAt (s.register a level hp) b := by
  unfold Server.register
  split
  · exact h.setLevel hab
  · rename_i hc
    obtain ⟨e, he, heb, hl⟩ := h
    exact ⟨e, (KeyList.mem_insert (v := BootstrapEntry.mk a level)
      (Bool.eq_false_iff.2 hc)).2 (.inl he), heb, hl⟩

end

/-! ## The invariant -/

/-- An agent in or after `FTBN_Connect`. Level 0 means that no parent was found. -/
structure ConnOk (addr : ι → AddrSock) (i : ι) (p : Agent ι) : Prop where
  me : p.conn.me = addr i
  leaf : p.conn.leaf = false
  root : p.conn.pc = .rootReg → p.conn.parentLevel = 0
  offer : p.conn.pc = .connect → p.conn.parentLevel ≠ 0 ∧ p.conn.parentLevel.toNat < 65535
  child : p.conn.pc = .childReg → (p.conn.myLevel ≠ 0 ∧ p.conn.myLevel ≠ 1) ∧ p.peer.isSome = true

/-- Every running root is registered as the root, at its own address. -/
structure Rooted (addr : ι → AddrSock) (w : World ι) : Prop where
  table : RootTable w.server
  agents : ∀ i p, w.agents i = some p → ConnOk addr i p
  apart : w.Apart addr
  entry : ∀ i p, w.agents i = some p → p.IsRoot → RootAt w.server (addr i)

theorem Rooted.singleRoot {w : World ι} (h : Rooted addr w) : SingleRoot w := by
  intro i j p q hp hq hi hj
  obtain ⟨e, he, hei, hl⟩ := h.entry i p hp hi
  obtain ⟨e', he', hej, hl'⟩ := h.entry j q hq hj
  -- both registered as the root, so in one entry, which has one address
  have hee := h.table.one e he e' he' hl hl'
  subst hee
  exact h.apart i j p q hp hq hi.1 hj.1 (KeyEq.trans (KeyEq.symm hei) hej)

/-! ## The actions -/

section
variable {w : World ι} {i : ι} {p p' : Agent ι}

theorem not_isRoot_of_pc (h : p.conn.pc ≠ .done .success) : ¬p.IsRoot := fun hr => h hr.2.1

/-- A step to a point where nothing has been promised. -/
theorem ConnOk.idle (h : ConnOk addr i p) (conn : Conn) (hme : conn.me = p.conn.me)
    (hleaf : conn.leaf = p.conn.leaf) (h1 : conn.pc ≠ .rootReg) (h2 : conn.pc ≠ .connect)
    (h3 : conn.pc ≠ .childReg) : ConnOk addr i { p with conn } where
  me := hme.trans h.me
  leaf := hleaf.trans h.leaf
  root hpc := absurd hpc h1
  offer hpc := absurd hpc h2
  child hpc := absurd hpc h3

variable [DecidableEq ι]

/-- One agent changes, and the table with it. The other running roots keep their entries. -/
theorem Rooted.update {s : Server} (h : Rooted addr w) (hp : w.agents i = some p)
    (hr : p'.running = true → p.running = true) (hok : ConnOk addr i p') (hs : RootTable s)
    (hkeep : ∀ j q, j ≠ i → w.agents j = some q → q.IsRoot → RootAt w.server (addr j) →
      RootAt s (addr j))
    (hself : p'.IsRoot → RootAt s (addr i)) : Rooted addr { w.set i p' with server := s } := by
  refine ⟨hs, fun j q hq => ?_, h.apart.update hp hr s, fun j q hq hroot => ?_⟩
  · rcases set_cases hq with ⟨rfl, rfl⟩ | ⟨-, hq⟩
    · exact hok
    · exact h.agents j q hq
  · rcases set_cases hq with ⟨rfl, rfl⟩ | ⟨hj, hq⟩
    · exact hself hroot
    · exact hkeep j q hj hq hroot (h.entry j q hq hroot)

/-- The table does not change, and the agent is no root. -/
theorem Rooted.keep (h : Rooted addr w) (hp : w.agents i = some p)
    (hr : p'.running = true → p.running = true) (hok : ConnOk addr i p') (hself : ¬p'.IsRoot) :
    Rooted addr (w.set i p') :=
  h.update hp hr hok h.table (fun _ _ _ _ _ he => he) fun hroot => absurd hroot hself

theorem Rooted.start (h : Rooted addr w) (hi : w.agents i = none)
    (hl : Listens addr w (.start i)) {link : AddrSock → Ret} {localAddr : AddrSock} :
    Rooted addr (w.set i ⟨(newConn (addr i)).start link localAddr, true, none, false, none⟩) := by
  have hstart : (newConn (addr i)).start link localAddr = newConn (addr i) := rfl
  rw [hstart]
  refine ⟨h.table, fun j q hq => ?_, h.apart.start hl _, fun j q hq hroot => ?_⟩
  · rcases set_cases hq with ⟨rfl, rfl⟩ | ⟨-, hq⟩
    · exact ⟨rfl, rfl, fun hpc => (by cases hpc), fun hpc => (by cases hpc), fun hpc => (by cases hpc)⟩
    · exact h.agents j q hq
  · rcases set_cases hq with ⟨rfl, rfl⟩ | ⟨-, hq⟩
    · cases hroot.2.1
    · exact h.entry j q hq hroot

/-- A request crosses out no running root, and offers no agent at level 0. -/
theorem Rooted.request (h : Rooted addr w) (hp : w.agents i = some p)
    (hpc : p.conn.pc = .request) {link : AddrSock → Ret} {ch : Conn.Choice}
    (hu : Undisturbed addr w (.exchange i ch)) {s : Server} {conn : Conn}
    (hs : Conn.step link ch (w.server, p.conn) = (s, conn)) :
    Rooted addr { w.set i (p.advance conn) with server := s } := by
  have hok := h.agents i p hp
  by_cases hch : ch.answered = true
  · have htable : RootTable (Conn.crossed w.server p.conn) :=
      h.table.setLevel (by decide) (by decide)
    have hkeep : ∀ j q, j ≠ i → w.agents j = some q → q.IsRoot → RootAt w.server (addr j) →
        RootAt (Conn.crossed w.server p.conn) (addr j) := fun j q _ hq hroot he =>
      he.setLevel ((hu p hp j q hq hroot).1 hpc)
    cases hf : (Conn.crossed w.server p.conn).findParentAddr
        (Bootstrap.parentRequest p.conn.me p.conn.myLevel p.conn.parentAddr) ch.rand with
    | none =>
      rw [Conn.step_request_none hpc hch hf] at hs
      cases hs
      rw [advance_of_ne (by simp)]
      exact h.update hp (by exact id) ⟨hok.me, hok.leaf, fun _ => rfl, fun hpc => (by cases hpc),
        fun hpc => (by cases hpc)⟩ htable hkeep fun hroot => (by cases hroot.2.1)
    | some e =>
      rw [Conn.step_request_some hpc hch hf] at hs
      cases hs
      rw [advance_of_ne (by simp)]
      obtain ⟨he, hsuit⟩ := Server.mem_of_findParentAddr hf
      simp only [Server.suitable, Bootstrap.parentRequest, Bool.and_eq_true] at hsuit
      have hlt : e.level.toNat < 65535 := by
        have := of_decide_eq_true hsuit.1.1
        rw [UInt32.lt_iff_toNat_lt, UInt16.toNat_toUInt32] at this
        have := p.conn.myLevel.toNat_lt
        omega
      have h16 : e.level.toUInt16.toNat = e.level.toNat := by
        rw [UInt32.toNat_toUInt16]
        omega
      refine h.update hp (by exact id) ⟨hok.me, hok.leaf, fun hpc => (by cases hpc),
        fun _ => ⟨fun h0 => htable.pos e he ?_, ?_⟩, fun hpc => (by cases hpc)⟩ htable hkeep
        fun hroot => (by cases hroot.2.1)
      · have h0 : e.level.toUInt16 = 0 := h0
        rw [h0] at h16
        exact UInt32.toNat_inj.1 h16.symm
      · show e.level.toUInt16.toNat < 65535
        rwa [h16]
  · obtain ⟨retry, pc, hpc', hstep⟩ : ∃ retry pc, _ ∧ Conn.step link ch (w.server, p.conn) = _ :=
      Conn.step_request_unanswered hpc (Bool.eq_false_iff.2 hch)
    rw [hstep] at hs
    cases hs
    rw [advance_of_ne hpc'.1]
    exact h.keep hp (by exact id) (hok.idle _ rfl rfl hpc'.2.1 hpc'.2.2.1 hpc'.2.2.2)
      (not_isRoot_of_pc hpc'.1)

/-- A registration as root is accepted where no entry has level 1, so no running agent is root. -/
theorem Rooted.rootReg (h : Rooted addr w) (hp : w.agents i = some p)
    (hpc : p.conn.pc = .rootReg) {link : AddrSock → Ret} {ch : Conn.Choice} {s : Server} {conn : Conn}
    (hs : Conn.step link ch (w.server, p.conn) = (s, conn)) :
    Rooted addr { w.set i (p.advance conn) with server := s } := by
  have hok := h.agents i p hp
  have hl := hok.root hpc
  rw [Conn.step_rootReg hpc hok.leaf, hl] at hs
  rcases Conn.exchange_register ch w.server p.conn.me (0 + 1) with
    ⟨-, hport, hnone, he⟩ | ⟨reply, he, hne, -⟩
  · have hret : Conn.registerResult (some { bootstrapMsgType := regRep }) = .success := rfl
    rw [he] at hs
    cases hs
    have hn := hnone rfl
    simp only [hret, Conn.afterRootReg_success]
    rw [advance_done rfl, if_neg (by rw [hpc]; decide)]
    refine h.update hp (by exact id) ⟨hok.me, hok.leaf, fun hpc => (by cases hpc),
      fun hpc => (by cases hpc), fun hpc => (by cases hpc)⟩ (h.table.registerRoot hport hn) ?_ ?_
    · rintro j q - - - ⟨e, he, -, hle⟩
      have := List.find?_eq_none.1 hn e he
      simp [hle] at this
    · intro _
      obtain ⟨e, he, hea, hle⟩ := Server.mem_register_self w.server p.conn.me 1 hport
      exact ⟨e, he, hok.me ▸ hea, hle⟩
  · rw [he] at hs
    cases hs
    simp only [Conn.afterRootReg_fails hne]
    rw [advance_of_ne (by simp)]
    exact h.keep hp (by exact id) (hok.idle _ rfl rfl (by simp) (by simp) (by simp))
      (not_isRoot_of_pc (by simp))

/-- A registration below a parent is at a level above 1. -/
theorem Rooted.childReg (h : Rooted addr w) (hp : w.agents i = some p)
    (hpc : p.conn.pc = .childReg) (hrun : p.running = true) {link : AddrSock → Ret}
    {ch : Conn.Choice} {s : Server} {conn : Conn}
    (hs : Conn.step link ch (w.server, p.conn) = (s, conn)) :
    Rooted addr { w.set i (p.advance conn) with server := s } := by
  have hok := h.agents i p hp
  obtain ⟨⟨h0, h1⟩, hpeer⟩ := hok.child hpc
  have hnot : ∀ {conn : Conn}, ¬({ p with
      conn, connected := true, parent := p.peer } : Agent ι).IsRoot := fun hroot => by
    have hn : p.peer = none := hroot.2.2
    rw [hn] at hpeer
    cases hpeer
  have hok' : ConnOk addr i { p with
      conn := { p.conn with pc := .done .success }, connected := true, parent := p.peer } :=
    ⟨hok.me, hok.leaf, fun hpc => (by cases hpc), fun hpc => (by cases hpc),
      fun hpc => (by cases hpc)⟩
  rw [Conn.step_childReg hpc] at hs
  cases hs
  rw [advance_done rfl, if_pos hpc]
  rcases Conn.exchange_register ch w.server p.conn.me p.conn.myLevel with
    ⟨-, hport, -, he⟩ | ⟨reply, he, -⟩
  · rw [he]
    refine h.update hp (by exact id) hok' (h.table.registerChild hport ?_ ?_) ?_
      fun hroot => absurd hroot hnot
    · exact fun hz => h0 (UInt16.toNat_inj.1 (by simpa using congrArg UInt32.toNat hz))
    · exact fun hz => h1 (UInt16.toNat_inj.1 (by simpa using congrArg UInt32.toNat hz))
    · intro j q hj hq hroot hat
      refine hat.register hport (Bool.eq_false_iff.2 fun ha => ?_)
      rw [hok.me] at ha
      exact hj (h.apart i j p q hp hq hrun hroot.1 ha).symm
  · rw [he]
    exact h.keep hp (by exact id) hok' hnot

/-- A report removes no running root. -/
theorem Rooted.report (h : Rooted addr w) (hp : w.agents i = some p)
    (hpc : p.conn.pc = .report) {link : AddrSock → Ret} {ch : Conn.Choice}
    (hu : Undisturbed addr w (.exchange i ch)) {s : Server} {conn : Conn}
    (hs : Conn.step link ch (w.server, p.conn) = (s, conn)) :
    Rooted addr { w.set i (p.advance conn) with server := s } := by
  rw [Conn.step_report hpc] at hs
  cases hs
  rw [advance_of_ne (by simp)]
  exact h.update hp (by exact id) ((h.agents i p hp).idle _ rfl rfl (by simp) (by simp) (by simp))
    h.table.remove (fun j q _ hq hroot he => he.remove ((hu p hp j q hq hroot).2 hpc))
    fun hroot => (by cases hroot.2.1)

theorem Rooted.reach (h : Rooted addr w) (hp : w.agents i = some p) (hpc : p.conn.pc = .connect)
    (j : ι) :
    Rooted addr (w.set i { p with conn := p.conn.afterConnect .success, peer := some j }) := by
  have hok := h.agents i p hp
  obtain ⟨h0, hlt⟩ := hok.offer hpc
  have hsucc := Conn.toNat_succ hlt
  have hpos : p.conn.parentLevel.toNat ≠ 0 := fun hz => h0 (UInt16.toNat_inj.1 hz)
  rw [Conn.afterConnect_success hok.leaf]
  refine h.keep hp (by exact id) ⟨hok.me, hok.leaf, fun hpc => (by cases hpc),
    fun hpc => (by cases hpc), fun _ => ⟨⟨fun hz => ?_, fun hz => ?_⟩, rfl⟩⟩ (fun hroot => by
      cases hroot.2.1)
  · have := congrArg UInt16.toNat hz
    simp only [hsucc] at this
    cases this
  · have := congrArg UInt16.toNat hz
    simp only [hsucc] at this
    exact hpos (Nat.succ.inj this)

theorem Rooted.unreached (h : Rooted addr w) (hp : w.agents i = some p)
    {ret : Ret} (hret : ret ≠ .success) :
    Rooted addr (w.set i (p.advance (p.conn.afterConnect ret))) := by
  obtain ⟨retry, pc, he, hpc'⟩ := Conn.afterConnect_fails p.conn hret
  have hpc'' : pc ≠ .done .success ∧ pc ≠ .rootReg ∧ pc ≠ .connect ∧ pc ≠ .childReg := by
    rcases hpc' with rfl | rfl | rfl <;> simp [hret]
  rw [he, advance_of_ne hpc''.1]
  exact h.keep hp (by exact id) ((h.agents i p hp).idle _ rfl rfl hpc''.2.1 hpc''.2.2.1 hpc''.2.2.2)
    (not_isRoot_of_pc hpc''.1)

/-- An agent that stops is no root any more. -/
theorem Rooted.stop (h : Rooted addr w) (hp : w.agents i = some p) {s : Server}
    (hs : RootTable s) (hkeep : ∀ j q, j ≠ i → w.agents j = some q → q.IsRoot →
      RootAt w.server (addr j) → RootAt s (addr j)) :
    Rooted addr { w.set i { p with running := false } with server := s } :=
  have hok := h.agents i p hp
  h.update hp (fun hr => (by cases hr)) ⟨hok.me, hok.leaf, hok.root, hok.offer, hok.child⟩ hs hkeep
    fun hroot => (by cases hroot.1)

/-- **Every undisturbed action keeps the root where it is.** -/
theorem Rooted.act (h : Rooted addr w) {a : Action ι} (hl : Listens addr w a)
    (hu : Undisturbed addr w a) {w' : World ι} (hact : act addr w a = some w') :
    Rooted addr w' := by
  cases acted hact with
  | start hi => exact h.start hi hl
  | @lost i p ret hp hpc =>
    have hok := h.agents i p hp
    rw [Conn.start_of_agent hok.leaf]
    exact h.keep hp (by exact id) (hok.idle _ rfl rfl (by simp) (by simp) (by simp))
      (not_isRoot_of_pc (by simp))
  | exchange hp hrun hpc hs =>
    rcases hpc with hpc | hpc | hpc | hpc
    · exact h.request hp hpc hu hs
    · exact h.rootReg hp hpc hs
    · exact h.report hp hpc hu hs
    · exact h.childReg hp hpc hrun hs
  | @reach i j p q hp hq hpc hrun hj => exact h.reach hp hpc j
  | unreached hp hpc hret => exact h.unreached hp hret
  | crash hp => exact h.stop hp h.table fun _ _ _ _ _ he => he
  | @deregister i ch p s hp hrun hs =>
    rcases hs with rfl | rfl
    · exact h.stop hp h.table fun _ _ _ _ _ he => he
    · refine h.stop hp h.table.remove fun j q hj hq hroot he => he.remove ?_
      rw [(h.agents i p hp).me]
      exact Bool.eq_false_iff.2 fun ha => hj (h.apart i j p q hp hq hrun hroot.1 ha).symm

end

/-! ## The runs -/

theorem rooted_init : Rooted addr (World.init : World ι) where
  table := ⟨fun _ he => (by cases he), fun _ he => (by cases he)⟩
  agents _ _ hp := by cases hp
  apart _ _ _ _ hp := by cases hp
  entry _ _ hp := by cases hp

section
variable [DecidableEq ι]

/-- **There is one root at most, as long as no packet takes the entry of a running root away.** -/
theorem singleRoot_of_undisturbed (addr : ι → AddrSock) (w : World ι)
    (h : UndisturbedReached addr w) : SingleRoot w := by
  have : Rooted addr w := by
    refine h.invariant (I := Rooted addr) ?_ ?_
    · rintro _ rfl
      exact rooted_init
    · rintro w w' hw ⟨a, hl, hu, hact⟩
      exact hw.act hl hu hact
  exact this.singleRoot

end

/-- The root crashes; 1 loses it and becomes the root, 3 loses it and connects below 1. -/
def newRoot : List (Action (Fin 4)) :=
  fourAgents ++ [.crash 0, .lost 1, ask 1 0, ask 1 0, .lost 3, ask 3 0, .reach 3 1, ask 3 0]

theorem singleRoot_of_undisturbed_newRoot : ∃ w : World (Fin 4),
    (List.finRange 4).map (fun i => (w.agents i).map fun p => (decide p.IsRoot, p.parent)) =
      [some (false, none), some (true, none), some (false, some 1), some (false, some 1)] ∧
    SingleRoot w := by
  have hrun : (newRoot.foldlM (fun w a => if Listens hostOf w a ∧ Undisturbed hostOf w a then
      act hostOf w a else none) World.init).map (fun w => (List.finRange 4).map fun i =>
        (w.agents i).map fun p => (decide p.IsRoot, p.parent)) =
      some [some (false, none), some (true, none), some (false, some 1), some (false, some 1)] := by
    decide +kernel
  obtain ⟨w, hw, hp⟩ := Option.map_eq_some_iff.1 hrun
  refine ⟨w, hp, singleRoot_of_undisturbed hostOf w
    (foldlM_invariant (fun v a v' hv ha => ?_) newRoot (.init rfl) hw)⟩
  split at ha
  · rename_i hc
    exact .step hv ⟨a, hc.1, hc.2, ha⟩
  · cases ha

/-! ## Two roots -/

/-- Two agents on two hosts. -/
def twoHosts (i : Fin 2) : AddrSock := ⟨[Char.ofNat (i.val + 97)], 10809⟩

/-- The child 1 of the root 0 loses the connection, and the root goes on. The request of 1 crosses the
root out, so no entry has level 1 when 1 registers as root. -/
def lostLink : List (Action (Fin 2)) :=
  [.start 0, .exchange 0 ⟨0, true, default⟩, .exchange 0 ⟨0, true, default⟩,
    .start 1, .exchange 1 ⟨0, true, default⟩, .reach 1 0, .exchange 1 ⟨0, true, default⟩,
    .lost 1, .exchange 1 ⟨0, true, default⟩, .exchange 1 ⟨0, true, default⟩]

theorem lostLink_splits : ¬∀ (addr : Fin 2 → AddrSock) (w : World (Fin 2)),
    ListenReached addr w → SingleRoot w := by
  intro h
  have hrun : (lostLink.foldlM (act twoHosts) World.init).map (fun w =>
      ((w.agents 0).any fun p => decide p.IsRoot, (w.agents 1).any fun p => decide p.IsRoot)) =
      some (true, true) := by
    decide +kernel
  obtain ⟨w, hw, hp⟩ := Option.map_eq_some_iff.1 hrun
  simp only [Prod.mk.injEq, Option.any_eq_true, decide_eq_true_eq] at hp
  obtain ⟨⟨p, hp, h0⟩, q, hq, h1⟩ := hp
  have hreached : ListenReached twoHosts w :=
    foldlM_invariant (fun v a v' hv ha => .step hv ⟨a, listens_of_distinct (by decide) ha, ha⟩)
      lostLink (.init rfl) hw
  cases h twoHosts w hreached 0 1 p q hp hq h0 h1

end Topology
