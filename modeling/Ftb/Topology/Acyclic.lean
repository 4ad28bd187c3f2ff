import Ftb.Tcp.Proof.Step
import Ftb.Topology.World
import Mathlib.Logic.Relation
import Mathlib.Data.List.FinRange

/-!
# When the topology has no cycle

Every agent has the level at which it last connected (`initialLevel` before it has). The invariant
(`Leveled`) is that this level is above the level of its parent, that no entry of the server is below
the level of its agent, and that the level of an agent never grows: a parent is offered only to an
agent above its entry. Levels grow in one place only, where a registration as root is refused to an
agent that has been connected before. And a level says nothing about an agent that starts later at
the address: nothing of the old agent may be left there, neither an entry of the server nor an offer
that the server has sent. With both excluded the parents never come back (`acyclic_of_orderly`).
-/

open Trace FTB FTBN FTBNI

namespace Topology

variable {ι : Type} {addr : ι → AddrSock}

/-- Which agents have an offer that is older than the agent at the offered address. The next exchange
ends it. -/
def outdated (addr : ι → AddrSock) [DecidableEq ι] (w : World ι) (old : ι → Bool) :
    Action ι → ι → Bool
  | .start i => fun j => old j || (w.agents j).any fun p =>
      p.conn.pc = .connect && isEqualAddrSock p.conn.parentAddr (addr i)
  | .exchange i _ => Function.update old i false
  | _ => old

/-- No entry is left at the address of an agent that starts, the agent that is reached is the one that
was offered, and a registration as root of an agent that has been connected before is accepted. -/
def Orderly (addr : ι → AddrSock) (w : World ι) (old : ι → Bool) : Action ι → Prop
  | .start i => ∀ e ∈ w.server.addrMap.nodes, isEqualAddrSock e.addr (addr i) = false
  | .reach i _ => old i = false
  | .exchange i ch => ∀ p, w.agents i = some p → p.conn.pc = .rootReg → p.connected = true →
      ch.answered = true ∧ p.conn.me.port ≠ 0 ∧ w.server.findRootEntry = none
  | _ => True

instance (addr : ι → AddrSock) (w : World ι) (old : ι → Bool) (a : Action ι) :
    Decidable (Orderly addr w old a) :=
  match a with
  | .start i => inferInstanceAs (Decidable (∀ e ∈ w.server.addrMap.nodes,
      isEqualAddrSock e.addr (addr i) = false))
  | .reach i _ => inferInstanceAs (Decidable (old i = false))
  | .exchange i ch => inferInstanceAs (Decidable (∀ p, w.agents i = some p →
      p.conn.pc = .rootReg → p.connected = true →
      ch.answered = true ∧ p.conn.me.port ≠ 0 ∧ w.server.findRootEntry = none))
  | .lost _ | .unreached _ _ | .crash _ | .deregister _ _ => inferInstanceAs (Decidable True)

section
variable [DecidableEq ι]

/-- The worlds that actions of a kind reach, with the agents whose offer is outdated there. -/
def ReachedBy (addr : ι → AddrSock) (P : World ι → (ι → Bool) → Action ι → Prop) :
    World ι × (ι → Bool) → Prop :=
  Reachable (· = (World.init, fun _ => false)) fun v v' => ∃ a, Listens addr v.1 a ∧
    P v.1 v.2 a ∧ act addr v.1 a = some v'.1 ∧ v'.2 = outdated addr v.1 v.2 a

def OrderlyReached (addr : ι → AddrSock) : World ι × (ι → Bool) → Prop :=
  ReachedBy addr (Orderly addr)

/-- An action, if it is of the kind. -/
def actIf [Fintype ι] (addr : ι → AddrSock) (P : World ι → (ι → Bool) → Action ι → Prop)
    [∀ w old a, Decidable (P w old a)] (v : World ι × (ι → Bool)) (a : Action ι) :
    Option (World ι × (ι → Bool)) :=
  if Listens addr v.1 a ∧ P v.1 v.2 a then
    (act addr v.1 a).map fun w => (w, outdated addr v.1 v.2 a)
  else none

theorem reachedBy_of_run [Fintype ι] {addr : ι → AddrSock}
    {P : World ι → (ι → Bool) → Action ι → Prop} [∀ w old a, Decidable (P w old a)]
    (acts : List (Action ι)) {v : World ι × (ι → Bool)}
    (h : acts.foldlM (actIf addr P) (World.init, fun _ => false) = some v) : ReachedBy addr P v := by
  refine foldlM_invariant (fun v a v' hv ha => ?_) acts (.init rfl) h
  unfold actIf at ha
  split at ha
  · rename_i hc
    obtain ⟨w, hw, rfl⟩ := Option.map_eq_some_iff.1 ha
    exact .step hv ⟨a, hc.1, hc.2, hw, rfl⟩
  · cases ha

end

/-! ## The invariant -/

/-- No other agent runs at the address of `i`. -/
def World.Holds (addr : ι → AddrSock) (w : World ι) (i : ι) : Prop :=
  ∀ j q, w.agents j = some q → q.running = true → isEqualAddrSock (addr j) (addr i) = true → j = i

/-- An agent at level `cl i`. An offer to it is of an agent that still holds the address. -/
structure AgentOk (addr : ι → AddrSock) (holds : ι → Prop) (old : Bool) (cl : ι → Nat) (i : ι)
    (p : Agent ι) : Prop where
  me : p.conn.me = addr i
  leaf : p.conn.leaf = false
  fresh : p.connected = false → cl i = initialLevel.toNat
  link : ∀ j, p.parent = some j → cl j < cl i
  level : p.conn.pc ≠ .childReg → p.conn.myLevel.toNat = cl i
  root : p.conn.pc = .rootReg → p.conn.parentLevel = 0
  offer : p.conn.pc = .connect → old = false → ∃ j, holds j ∧
    isEqualAddrSock p.conn.parentAddr (addr j) = true ∧ cl j ≤ p.conn.parentLevel.toNat ∧
    p.conn.parentLevel.toNat < cl i
  child : p.conn.pc = .childReg → ∃ j, p.peer = some j ∧ cl j < p.conn.myLevel.toNat ∧
    p.conn.myLevel.toNat ≤ cl i

/-- An entry is crossed out, or not below the level of its agent. -/
def EntryOk (addr : ι → AddrSock) (w : World ι) (cl : ι → Nat) (e : BootstrapEntry) : Prop :=
  ∃ i, w.Holds addr i ∧ isEqualAddrSock e.addr (addr i) = true ∧
    (e.level = crossedOut ∨ cl i ≤ e.level.toNat)

structure Leveled (addr : ι → AddrSock) (w : World ι) (old : ι → Bool) (cl : ι → Nat) : Prop where
  apart : w.Apart addr
  pos : ∀ i, 1 ≤ cl i
  new : ∀ i, w.agents i = none → cl i = initialLevel.toNat
  entries : ∀ e ∈ w.server.addrMap.nodes, EntryOk addr w cl e
  agents : ∀ i p, w.agents i = some p → AgentOk addr (w.Holds addr) (old i) cl i p

/-- A relation along which a number decreases has no cycle. -/
theorem acyclic_of_rank {α : Type} {r : α → α → Prop} (rank : α → Nat)
    (h : ∀ i j, r i j → rank j < rank i) (i : α) : ¬Relation.TransGen r i i := by
  have lt : ∀ {i j}, Relation.TransGen r i j → rank j < rank i := fun hij => by
    induction hij with
    | single hij => exact h _ _ hij
    | tail _ hjk ih => exact Nat.lt_trans (h _ _ hjk) ih
  exact fun hi => Nat.lt_irrefl _ (lt hi)

theorem Leveled.acyclic {w : World ι} {old : ι → Bool} {cl : ι → Nat} (h : Leveled addr w old cl) :
    Acyclic w :=
  acyclic_of_rank cl fun i j ⟨p, hp, hj⟩ => (h.agents i p hp).link j hj

/-! ## One agent changes -/

section
variable {w : World ι} {old old' : ι → Bool} {cl : ι → Nat} {i : ι} {p p' : Agent ι}

theorem World.Apart.holds (h : w.Apart addr) (hp : w.agents i = some p) (hr : p.running = true) :
    w.Holds addr i :=
  fun j q hq hq' ha => h j i q p hq hp hq' hr ha

/-- Where an entry of the server after a step comes from: the table before it, perhaps crossed out,
or the registration of the running agent `i` at level `n`. -/
def EntryFrom (addr : ι → AddrSock) (w : World ι) (i : ι) (p : Agent ι) (n : Nat)
    (e : BootstrapEntry) : Prop :=
  (∃ x ∈ w.server.addrMap.nodes, x.addr = e.addr ∧ (e.level = crossedOut ∨ e.level = x.level)) ∨
    (p.running = true ∧ isEqualAddrSock e.addr (addr i) = true ∧ n ≤ e.level.toNat)

theorem entryFrom_same {n : Nat} : ∀ e ∈ w.server.addrMap.nodes, EntryFrom addr w i p n e :=
  fun e he => .inl ⟨e, he, rfl, .inr rfl⟩

theorem entryFrom_crossed {n : Nat} {a : AddrSock} :
    ∀ e ∈ (w.server.setLevel a crossedOut).addrMap.nodes, EntryFrom addr w i p n e := by
  intro e he
  obtain ⟨x, hx, rfl⟩ := Server.mem_setLevel.1 he
  refine .inl ⟨x, hx, ?_⟩
  split
  · exact ⟨rfl, .inl rfl⟩
  · exact ⟨rfl, .inr rfl⟩

theorem entryFrom_remove {n : Nat} {a : AddrSock} :
    ∀ e ∈ (w.server.remove a).addrMap.nodes, EntryFrom addr w i p n e := by
  intro e he
  rw [Server.addrMap_remove] at he
  exact .inl ⟨e, KeyList.mem_of_mem_erase he, rfl, .inr rfl⟩

theorem entryFrom_register {n : Nat} {level : UInt32} (hport : (addr i).port ≠ 0)
    (hr : p.running = true) (hl : n ≤ level.toNat) :
    ∀ e ∈ (w.server.register (addr i) level hport).addrMap.nodes, EntryFrom addr w i p n e := by
  intro e he
  unfold Server.register at he
  split at he
  · obtain ⟨x, hx, rfl⟩ := Server.mem_setLevel.1 he
    split
    · rename_i ha
      exact .inr ⟨hr, ha, hl⟩
    · exact .inl ⟨x, hx, rfl, .inr rfl⟩
  · rename_i hnew
    rcases (KeyList.mem_insert (v := BootstrapEntry.mk (addr i) level)
      (Bool.eq_false_iff.2 hnew)).1 he with he | rfl
    · exact entryFrom_same e he
    · exact .inr ⟨hr, isEqualAddrSock_self _, hl⟩

/-- What was promised about an offer may be said of another world. -/
theorem AgentOk.mono {holds holds' : ι → Prop} {o o' : Bool} (h : AgentOk addr holds o cl i p)
    (hs : p.conn.pc = .connect → o' = false → o = false ∧ ∀ j, holds j →
      isEqualAddrSock p.conn.parentAddr (addr j) = true → holds' j) :
    AgentOk addr holds' o' cl i p :=
  { h with
    offer := fun hpc ho =>
      let ⟨ho, hh⟩ := hs hpc ho
      let ⟨j, hj, ha, hl⟩ := h.offer hpc ho
      ⟨j, hh j hj ha, ha, hl⟩ }

variable [DecidableEq ι]

theorem World.Holds.update {j : ι} (h : w.Holds addr j) (hp : w.agents i = some p)
    (hr : p'.running = true → p.running = true) (s : Server) :
    ({ w.set i p' with server := s } : World ι).Holds addr j := by
  intro k q hq hrun ha
  rcases set_cases hq with ⟨rfl, rfl⟩ | ⟨-, hq⟩
  · exact h k p hp (hr hrun) ha
  · exact h k q hq hrun ha

theorem World.Holds.start {j : ι} (h : w.Holds addr j)
    (hne : isEqualAddrSock (addr i) (addr j) = false) : (w.set i p).Holds addr j := by
  intro k q hq hrun ha
  rcases set_cases hq with ⟨rfl, rfl⟩ | ⟨-, hq⟩
  · rw [hne] at ha
    cases ha
  · exact h k q hq hrun ha

/-- The level of an agent may sink, and the others keep theirs. -/
theorem Leveled.update (h : Leveled addr w old cl) (hp : w.agents i = some p) {n : Nat} (hn : 1 ≤ n)
    (hle : n ≤ cl i) (hr : p'.running = true → p.running = true) {s : Server}
    (he : ∀ e ∈ s.addrMap.nodes, EntryFrom addr w i p n e) (ho : ∀ j, j ≠ i → old' j = old j)
    (ha : AgentOk addr (w.Holds addr) (old' i) (Function.update cl i n) i p') :
    Leveled addr { w.set i p' with server := s } old' (Function.update cl i n) := by
  have hcl : ∀ j, Function.update cl i n j ≤ cl j := fun j => by
    by_cases hj : j = i
    · subst hj
      rwa [Function.update_self]
    · rw [Function.update_of_ne hj]
  refine ⟨h.apart.update hp hr s, fun j => ?_, fun j hj => ?_, fun e hm => ?_, fun j q hq => ?_⟩
  · by_cases hj : j = i
    · subst hj
      rwa [Function.update_self]
    · rw [Function.update_of_ne hj]
      exact h.pos j
  · have hji : j ≠ i := by
      rintro rfl
      rw [show ({ w.set j p' with server := s } : World ι).agents j = some p' from set_self w j p']
        at hj
      cases hj
    rw [Function.update_of_ne hji]
    exact h.new j ((set_of_ne hji).symm.trans hj)
  · rcases he e hm with ⟨x, hx, hax, hl⟩ | ⟨hrun, hae, hl⟩
    · obtain ⟨j, hj, hxa, hxl⟩ := h.entries x hx
      refine ⟨j, hj.update hp hr s, hax ▸ hxa, ?_⟩
      rcases hl with hl | hl
      · exact .inl hl
      · rw [hl]
        exact hxl.imp_right (Nat.le_trans (hcl j))
    · exact ⟨i, (h.apart.holds hp hrun).update hp hr s, hae, .inr (by rwa [Function.update_self])⟩
  · by_cases hj : j = i
    · subst hj
      have hq' : p' = q := Option.some.inj ((set_self w j p').symm.trans hq)
      exact hq' ▸ ha.mono fun _ ho => ⟨ho, fun k hk _ => hk.update hp hr s⟩
    · have hok := (h.agents j q ((set_of_ne hj).symm.trans hq)).mono
        fun _ ho' => ⟨ho j hj ▸ ho', fun k hk _ => World.Holds.update hk hp hr s⟩
      have hcj : Function.update cl i n j = cl j := Function.update_of_ne hj ..
      refine { hok with fresh := ?_, link := ?_, level := ?_, offer := ?_, child := ?_ }
      · rw [hcj]
        exact hok.fresh
      · intro k hk
        rw [hcj]
        exact Nat.lt_of_le_of_lt (hcl k) (hok.link k hk)
      · rw [hcj]
        exact hok.level
      · intro hpc ho'
        obtain ⟨k, hk, hak, hlk, hlt⟩ := hok.offer hpc ho'
        rw [hcj]
        exact ⟨k, hk, hak, Nat.le_trans (hcl k) hlk, hlt⟩
      · intro hpc
        obtain ⟨k, hk, hlt, hle⟩ := hok.child hpc
        rw [hcj]
        exact ⟨k, hk, Nat.lt_of_le_of_lt (hcl k) hlt, hle⟩

/-- Nobody's level changes. -/
theorem Leveled.keep (h : Leveled addr w old cl) (hp : w.agents i = some p)
    (hr : p'.running = true → p.running = true) {s : Server}
    (he : ∀ e ∈ s.addrMap.nodes, EntryFrom addr w i p (cl i) e) (ho : ∀ j, j ≠ i → old' j = old j)
    (ha : AgentOk addr (w.Holds addr) (old' i) cl i p') :
    Leveled addr { w.set i p' with server := s } old' cl := by
  have := h.update hp (h.pos i) (Nat.le_refl _) hr he ho (by rwa [Function.update_eq_self])
  rwa [Function.update_eq_self] at this

end

/-! ## The actions -/

section
variable {w : World ι} {old : ι → Bool} {cl : ι → Nat} {i : ι} {p : Agent ι} {holds : ι → Prop}
  {o o' : Bool}

/-- A step to a point where nothing has been promised. -/
theorem AgentOk.idle (h : AgentOk addr holds o cl i p) (hpc : p.conn.pc ≠ .childReg) (conn : Conn)
    (hme : conn.me = p.conn.me) (hleaf : conn.leaf = p.conn.leaf)
    (hlevel : conn.myLevel = p.conn.myLevel) (h1 : conn.pc ≠ .rootReg) (h2 : conn.pc ≠ .connect)
    (h3 : conn.pc ≠ .childReg) : AgentOk addr holds o' cl i { p with conn } where
  me := hme.trans h.me
  leaf := hleaf.trans h.leaf
  fresh := h.fresh
  link := h.link
  level _ := by rw [hlevel, h.level hpc]
  root hpc := absurd hpc h1
  offer hpc := absurd hpc h2
  child hpc := absurd hpc h3

/-- An agent in `FTBN_Connect` has at most the initial level. -/
theorem AgentOk.le_initial (h : AgentOk addr holds o cl i p) (hpc : p.conn.pc ≠ .childReg) :
    cl i ≤ 65535 := by
  have := p.conn.myLevel.toNat_lt
  have := h.level hpc
  omega

variable [DecidableEq ι]

/-- Nothing is left at the address: no entry, and no offer that counts. -/
theorem Leveled.start (h : Leveled addr w old cl) (hi : w.agents i = none)
    (hl : Listens addr w (.start i)) (ho : Orderly addr w old (.start i))
    {link : AddrSock → Ret} {localAddr : AddrSock} :
    Leveled addr (w.set i ⟨(newConn (addr i)).start link localAddr, true, none, false, none⟩)
      (outdated addr w old (.start i)) cl := by
  -- whoever holds an address that is not the one of the new agent still holds it
  have keeps : ∀ {j : ι} {a : AddrSock} {p : Agent ι}, w.Holds addr j →
      isEqualAddrSock a (addr j) = true → isEqualAddrSock a (addr i) = false →
      (w.set i p).Holds addr j := fun {j a p} hj ha hn => hj.start <| Bool.eq_false_iff.2 fun hij => by
    have := KeyEq.trans ha (KeyEq.symm hij)
    rw [hn] at this
    cases this
  refine ⟨h.apart.start hl _, h.pos, fun j hj => h.new j ?_, fun e he => ?_, fun j q hq => ?_⟩
  · by_cases hji : j = i
    · rw [hji, hi]
    · rwa [set_of_ne hji] at hj
  · obtain ⟨j, hj, ha, hrest⟩ := h.entries e he
    exact ⟨j, keeps hj ha (ho e he), ha, hrest⟩
  · rcases set_cases hq with ⟨rfl, rfl⟩ | ⟨-, hq⟩
    · have hstart : (newConn (addr j)).start link localAddr = newConn (addr j) := rfl
      have hl := h.new j hi
      refine ⟨rfl, rfl, fun _ => hl, fun k hk => ?_, fun _ => ?_, fun hpc => ?_, fun hpc => ?_,
        fun hpc => ?_⟩
      · cases hk
      · rw [hl, hstart]
        rfl
      · rw [hstart] at hpc
        cases hpc
      · rw [hstart] at hpc
        cases hpc
      · rw [hstart] at hpc
        cases hpc
    · refine (h.agents j q hq).mono fun hpc ho' => ?_
      simp only [outdated, Bool.or_eq_false_iff, hq, Option.any_some, hpc, decide_true,
        Bool.true_and] at ho'
      exact ⟨ho'.1, fun k hk ha => keeps hk ha ho'.2⟩

theorem exchanged : ∀ j, j ≠ i → Function.update old i false j = old j :=
  fun _ hj => Function.update_of_ne hj ..

/-- An answered request offers a parent of a lower level, or none. -/
theorem Leveled.request (h : Leveled addr w old cl) (hp : w.agents i = some p)
    (hpc : p.conn.pc = .request) {link : AddrSock → Ret} {ch : Conn.Choice} {s : Server} {conn : Conn}
    (hs : Conn.step link ch (w.server, p.conn) = (s, conn)) :
    Leveled addr { w.set i (p.advance conn) with server := s } (Function.update old i false) cl := by
  have hok := h.agents i p hp
  have hne : p.conn.pc ≠ .childReg := by rw [hpc]; decide
  by_cases hch : ch.answered = true
  · cases hf : (Conn.crossed w.server p.conn).findParentAddr
        (Bootstrap.parentRequest p.conn.me p.conn.myLevel p.conn.parentAddr) ch.rand with
    | none =>
      rw [Conn.step_request_none hpc hch hf] at hs
      cases hs
      rw [advance_of_ne (by simp)]
      exact h.keep hp (by exact id) entryFrom_crossed exchanged ⟨hok.me, hok.leaf, hok.fresh,
        hok.link, fun _ => hok.level hne, fun _ => rfl, fun hpc => (by cases hpc),
        fun hpc => (by cases hpc)⟩
    | some e =>
      rw [Conn.step_request_some hpc hch hf] at hs
      cases hs
      rw [advance_of_ne (by simp)]
      obtain ⟨he, hsuit⟩ := Server.mem_of_findParentAddr hf
      obtain ⟨x, hx, hxe⟩ := Server.mem_setLevel.1 he
      obtain ⟨j, hj, ha, hl⟩ := h.entries x hx
      simp only [Server.suitable, Bootstrap.parentRequest, Bool.and_eq_true, bne_iff_ne] at hsuit
      have hlt : e.level.toNat < cl i := by
        have := of_decide_eq_true hsuit.1.1
        rw [UInt32.lt_iff_toNat_lt, UInt16.toNat_toUInt32, hok.level hne] at this
        exact this
      have h16 : e.level.toUInt16.toNat = e.level.toNat := by
        have := hok.le_initial hne
        rw [UInt32.toNat_toUInt16]
        omega
      -- an entry that is offered is not crossed out, so its level is the old one
      have hxe' : e = x := by
        rw [← hxe] at hsuit ⊢
        split at hsuit
        · exact absurd rfl hsuit.1.2
        · rename_i hna
          rw [if_neg hna]
      refine h.keep hp (by exact id) entryFrom_crossed exchanged ⟨hok.me, hok.leaf, hok.fresh,
        hok.link, fun _ => hok.level hne, fun hpc => (by cases hpc),
        fun _ _ => ⟨j, hj, hxe' ▸ ha, ?_, ?_⟩, fun hpc => (by cases hpc)⟩
      · show cl j ≤ e.level.toUInt16.toNat
        rw [h16, hxe']
        exact hl.resolve_left fun hc => hsuit.1.2 (hxe' ▸ hc)
      · show e.level.toUInt16.toNat < cl i
        rwa [h16]
  · obtain ⟨retry, pc, hpc', hstep⟩ : ∃ retry pc, _ ∧ Conn.step link ch (w.server, p.conn) = _ :=
      Conn.step_request_unanswered hpc (Bool.eq_false_iff.2 hch)
    rw [hstep] at hs
    cases hs
    rw [advance_of_ne hpc'.1]
    exact h.keep hp (by exact id) entryFrom_same exchanged
      (hok.idle hne _ rfl rfl rfl hpc'.2.1 hpc'.2.2.1 hpc'.2.2.2)

/-- An accepted registration as root is at level 1. A refused one resets the level of an agent that has
not been connected yet, which is the initial one. -/
theorem Leveled.rootReg (h : Leveled addr w old cl) (hp : w.agents i = some p)
    (hpc : p.conn.pc = .rootReg) (hrun : p.running = true) {link : AddrSock → Ret}
    {ch : Conn.Choice} (ho : Orderly addr w old (.exchange i ch)) {s : Server} {conn : Conn}
    (hs : Conn.step link ch (w.server, p.conn) = (s, conn)) :
    ∃ cl', Leveled addr { w.set i (p.advance conn) with server := s } (Function.update old i false)
      cl' := by
  have hok := h.agents i p hp
  have hl := hok.root hpc
  rw [Conn.step_rootReg hpc hok.leaf] at hs
  rcases Conn.exchange_register ch w.server p.conn.me (p.conn.parentLevel + 1) with
    ⟨-, hport, -, he⟩ | ⟨reply, he, hne, hrefused⟩
  · have hret : Conn.registerResult (some { bootstrapMsgType := regRep }) = .success := rfl
    rw [he] at hs
    cases hs
    simp only [hret, Conn.afterRootReg_success, hl]
    rw [advance_done rfl, if_neg (by rw [hpc]; decide)]
    have hself : Function.update cl i 1 i = 1 := Function.update_self ..
    have hport' : (addr i).port ≠ 0 := hok.me ▸ hport
    refine ⟨_, h.update hp (n := 1) (Nat.le_refl 1) (h.pos i) (by exact id) ?_ exchanged ?_⟩
    · simp only [hok.me]
      exact entryFrom_register hport' hrun (by decide)
    · refine ⟨hok.me, hok.leaf, fun hc => (by cases hc), fun j hj => (by cases hj), fun _ => ?_,
        fun hpc => (by cases hpc), fun hpc => (by cases hpc), fun hpc => (by cases hpc)⟩
      rw [hself]
      rfl
  · rw [he] at hs
    cases hs
    simp only [Conn.afterRootReg_fails hne]
    rw [advance_of_ne (by simp)]
    have hnc : p.connected = false := Bool.eq_false_iff.2 fun hc => hrefused (ho p hp hpc hc)
    refine ⟨cl, h.keep hp (by exact id) entryFrom_same exchanged ⟨hok.me, hok.leaf, hok.fresh,
      hok.link, fun _ => (hok.fresh hnc).symm, fun hpc => (by cases hpc),
      fun hpc => (by cases hpc), fun hpc => (by cases hpc)⟩⟩

/-- A registration below a parent, accepted or not, completes `FTBN_Connect` at a level that is not
above the old one. -/
theorem Leveled.childReg (h : Leveled addr w old cl) (hp : w.agents i = some p)
    (hpc : p.conn.pc = .childReg) (hrun : p.running = true) {link : AddrSock → Ret}
    {ch : Conn.Choice} {s : Server} {conn : Conn}
    (hs : Conn.step link ch (w.server, p.conn) = (s, conn)) :
    ∃ cl', Leveled addr { w.set i (p.advance conn) with server := s } (Function.update old i false)
      cl' := by
  have hok := h.agents i p hp
  obtain ⟨j, hj, hlt, hle⟩ := hok.child hpc
  rw [Conn.step_childReg hpc] at hs
  cases hs
  rw [advance_done rfl, if_pos hpc]
  have hself : Function.update cl i p.conn.myLevel.toNat i = p.conn.myLevel.toNat :=
    Function.update_self ..
  refine ⟨_, h.update hp (n := p.conn.myLevel.toNat) (by omega) hle (by exact id) ?_ exchanged ?_⟩
  · rcases Conn.exchange_register ch w.server p.conn.me p.conn.myLevel with
      ⟨-, hport, -, he⟩ | ⟨reply, he, -⟩
    · have hport' : (addr i).port ≠ 0 := hok.me ▸ hport
      rw [he]
      simp only [hok.me]
      exact entryFrom_register hport' hrun (by rw [UInt16.toNat_toUInt32])
    · rw [he]
      exact entryFrom_same
  · refine ⟨hok.me, hok.leaf, fun hc => (by cases hc), fun k hk => ?_, fun _ => hself.symm,
      fun hpc => (by cases hpc), fun hpc => (by cases hpc), fun hpc => (by cases hpc)⟩
    have hk : p.peer = some k := hk
    rw [hj] at hk
    cases hk
    have hji : j ≠ i := by
      rintro rfl
      omega
    rwa [hself, Function.update_of_ne hji]

theorem Leveled.report (h : Leveled addr w old cl) (hp : w.agents i = some p)
    (hpc : p.conn.pc = .report) {link : AddrSock → Ret} {ch : Conn.Choice} {s : Server} {conn : Conn}
    (hs : Conn.step link ch (w.server, p.conn) = (s, conn)) :
    Leveled addr { w.set i (p.advance conn) with server := s } (Function.update old i false) cl := by
  rw [Conn.step_report hpc] at hs
  cases hs
  rw [advance_of_ne (by simp)]
  exact h.keep hp (by exact id) entryFrom_remove exchanged ((h.agents i p hp).idle
    (by rw [hpc]; decide) _ rfl rfl rfl (by simp) (by simp) (by simp))

/-- A connection is to the agent that was offered, which still holds its address. -/
theorem Leveled.reach (h : Leveled addr w old cl) (hp : w.agents i = some p)
    (hpc : p.conn.pc = .connect) (ho : old i = false) {j : ι} {q : Agent ι}
    (hq : w.agents j = some q) (hrun : q.running = true)
    (ha : isEqualAddrSock p.conn.parentAddr (addr j) = true) :
    Leveled addr (w.set i { p with conn := p.conn.afterConnect .success, peer := some j }) old
      cl := by
  have hok := h.agents i p hp
  have hne : p.conn.pc ≠ .childReg := by rw [hpc]; decide
  obtain ⟨k, hk, hak, hlk, hlt⟩ := hok.offer hpc ho
  have hkj : k = j := (hk j q hq hrun (KeyEq.trans (KeyEq.symm ha) hak)).symm
  have hle := hok.le_initial hne
  have hsucc : (p.conn.parentLevel + 1).toNat = p.conn.parentLevel.toNat + 1 :=
    Conn.toNat_succ (by omega)
  rw [Conn.afterConnect_success hok.leaf]
  refine h.keep hp (by exact id) entryFrom_same (fun _ _ => rfl) ⟨hok.me, hok.leaf, hok.fresh,
    hok.link, fun hpc => absurd rfl hpc, fun hpc => (by cases hpc), fun hpc => (by cases hpc),
    fun _ => ⟨j, rfl, ?_, ?_⟩⟩
  · rw [hsucc, ← hkj]
    omega
  · rw [hsucc]
    omega

theorem Leveled.unreached (h : Leveled addr w old cl) (hp : w.agents i = some p)
    (hpc : p.conn.pc = .connect) {ret : Ret} (hret : ret ≠ .success) :
    Leveled addr (w.set i (p.advance (p.conn.afterConnect ret))) old cl := by
  have hok := h.agents i p hp
  have hne : p.conn.pc ≠ .childReg := by rw [hpc]; decide
  obtain ⟨retry, pc, he, hpc'⟩ := Conn.afterConnect_fails p.conn hret
  have hpc'' : pc ≠ .done .success ∧ pc ≠ .rootReg ∧ pc ≠ .connect ∧ pc ≠ .childReg := by
    rcases hpc' with rfl | rfl | rfl <;> simp [hret]
  rw [he, advance_of_ne hpc''.1]
  exact h.keep hp (by exact id) entryFrom_same (fun _ _ => rfl)
    (hok.idle hne _ rfl rfl rfl hpc''.2.1 hpc''.2.2.1 hpc''.2.2.2)

/-- An agent that stops keeps what it has promised. -/
theorem Leveled.stop (h : Leveled addr w old cl) (hp : w.agents i = some p) {s : Server}
    (he : ∀ e ∈ s.addrMap.nodes, EntryFrom addr w i p (cl i) e) :
    Leveled addr { w.set i { p with running := false } with server := s } old cl :=
  have hok := h.agents i p hp
  h.keep hp (fun hr => (by cases hr)) he (fun _ _ => rfl)
    ⟨hok.me, hok.leaf, hok.fresh, hok.link, hok.level, hok.root, hok.offer, hok.child⟩

/-- **Every orderly action keeps the levels in order.** -/
theorem Leveled.act (h : Leveled addr w old cl) {a : Action ι} (hl : Listens addr w a)
    (ho : Orderly addr w old a) {w' : World ι} (hact : act addr w a = some w') :
    ∃ cl', Leveled addr w' (outdated addr w old a) cl' := by
  cases acted hact with
  | start hi => exact ⟨cl, h.start hi hl ho⟩
  | @lost i p ret hp hpc =>
    have hok := h.agents i p hp
    rw [Conn.start_of_agent hok.leaf]
    exact ⟨cl, h.keep hp (by exact id) entryFrom_same (fun _ _ => rfl)
      (hok.idle (by rw [hpc]; simp) _ rfl rfl rfl (by simp) (by simp) (by simp))⟩
  | exchange hp hrun hpc hs =>
    rcases hpc with hpc | hpc | hpc | hpc
    · exact ⟨cl, h.request hp hpc hs⟩
    · exact h.rootReg hp hpc hrun ho hs
    · exact ⟨cl, h.report hp hpc hs⟩
    · exact h.childReg hp hpc hrun hs
  | reach hp hq hpc hrun hj => exact ⟨cl, h.reach hp hpc ho hq hrun hj⟩
  | unreached hp hpc hret => exact ⟨cl, h.unreached hp hpc hret⟩
  | crash hp => exact ⟨cl, h.stop hp entryFrom_same⟩
  | deregister hp hrun hs =>
    refine ⟨cl, h.stop hp ?_⟩
    rcases hs with rfl | rfl
    · exact entryFrom_same
    · exact entryFrom_remove

end

/-! ## The runs -/

theorem leveled_init :
    Leveled addr (World.init : World ι) (fun _ => false) fun _ => initialLevel.toNat where
  apart _ _ _ _ hp := by cases hp
  pos _ := by decide
  new _ _ := rfl
  entries _ he := by cases he
  agents _ _ hp := by cases hp

section
variable [DecidableEq ι]

/-- **No cycle is reached, as long as nothing of an old agent is left at the address of a new one and
a root that has been connected before is accepted.** -/
theorem acyclic_of_orderly (addr : ι → AddrSock) (w : World ι) (old : ι → Bool)
    (h : OrderlyReached addr (w, old)) : Acyclic w := by
  have : ∃ cl, Leveled addr w old cl := by
    refine h.invariant (I := fun v => ∃ cl, Leveled addr v.1 v.2 cl) ?_ ?_
    · rintro _ rfl
      exact ⟨_, leveled_init⟩
    · rintro ⟨w, old⟩ ⟨w', old'⟩ ⟨cl, hcl⟩ ⟨a, hl, ho, hact, rfl⟩
      exact hcl.act hl ho hact
  obtain ⟨cl, hcl⟩ := this
  exact hcl.acyclic

end

/-- Five agents on four hosts: agent 4 starts at the address of agent 0. -/
def reusedHost (i : Fin 5) : AddrSock := ⟨[Char.ofNat (i.val % 4 + 97)], 10809⟩

def askAgain (i : Fin 5) (rand : Nat) : Action (Fin 5) := .exchange i ⟨rand, true, default⟩

/-- Agents 1 and 3 are below the root 0, and 2 is below 1. The root deregisters; 1 loses it and becomes
the root, 3 loses it and connects below 1. Agent 4 starts at the old address and connects below 3. -/
def newHead : List (Action (Fin 5)) :=
  [.start 0, askAgain 0 0, askAgain 0 0,
    .start 1, askAgain 1 0, .reach 1 0, askAgain 1 0,
    .start 2, askAgain 2 1, .reach 2 1, askAgain 2 0,
    .start 3, askAgain 3 0, .reach 3 0, askAgain 3 0,
    .deregister 0 ⟨0, true, default⟩, .lost 1, askAgain 1 0, askAgain 1 0,
    .lost 3, askAgain 3 0, .reach 3 1, askAgain 3 0,
    .start 4, askAgain 4 2, .reach 4 3, askAgain 4 0]

theorem acyclic_of_orderly_newHead : ∃ w : World (Fin 5),
    (List.finRange 5).map (fun i => (w.agents i).bind Agent.parent) =
      [none, none, some 1, some 1, some 3] ∧ Acyclic w := by
  have hrun : (newHead.foldlM (actIf reusedHost (Orderly reusedHost))
      (World.init, fun _ => false)).map (fun v =>
        (List.finRange 5).map fun i => (v.1.agents i).bind Agent.parent) =
      some [none, none, some 1, some 1, some 3] := by
    decide +kernel
  obtain ⟨⟨w, old⟩, hw, hp⟩ := Option.map_eq_some_iff.1 hrun
  exact ⟨w, hp, acyclic_of_orderly reusedHost w old (reachedBy_of_run newHead hw)⟩

/-! ## A cycle -/

/-- The children 1 and 3 of the root 0 lose it. Both are told to become the root; 3 registers, 1 is
refused, starts again from the initial level and is offered its own child 2. -/
def lostRoot : List (Action (Fin 4)) :=
  fourAgents ++ [.crash 0, .lost 1, ask 1 0, .lost 3, ask 3 0, ask 3 0, ask 1 0,
    ask 1 2, .reach 1 2, ask 1 0]

theorem lostRoot_cycles : ¬∀ (addr : Fin 4 → AddrSock) (w : World (Fin 4)),
    (∀ i j, isEqualAddrSock (addr i) (addr j) = true → i = j) → Reached addr w → Acyclic w := by
  intro h
  have hrun : (lostRoot.foldlM (act hostOf) World.init).map (fun w =>
      ((w.agents 1).bind Agent.parent, (w.agents 2).bind Agent.parent)) = some (some 2, some 1) := by
    decide +kernel
  obtain ⟨w, hw, hp⟩ := Option.map_eq_some_iff.1 hrun
  have hreached : Reached hostOf w :=
    foldlM_invariant (fun _ a _ hs ha => .step hs ⟨a, ha⟩) lostRoot (.init rfl) hw
  simp only [Prod.mk.injEq, Option.bind_eq_some_iff] at hp
  obtain ⟨⟨p, hp, h12⟩, q, hq, h21⟩ := hp
  refine h hostOf w (by decide) hreached 1 (.tail (.single (b := 2) ?_) ?_)
  · exact ⟨p, hp, h12⟩
  · exact ⟨q, hq, h21⟩

/-! ## Cycles through an old address -/

/-- The agents 0, 1, 2, 3 are below each other. Agent 0 crashes and is started again, as agent 4,
while its entry still says that it is the root; it connects below 3. Agent 1 crashes also, and 2 is
offered the old root. -/
def oldRoot : List (Action (Fin 5)) :=
  [.start 0, askAgain 0 0, askAgain 0 0,
    .start 1, askAgain 1 0, .reach 1 0, askAgain 1 0,
    .start 2, askAgain 2 1, .reach 2 1, askAgain 2 0,
    .start 3, askAgain 3 2, .reach 3 2, askAgain 3 0,
    .crash 0, .start 4, askAgain 4 3, .reach 4 3,
    .crash 1, .lost 2, askAgain 2 0, .reach 2 4, askAgain 2 0, askAgain 4 0]

def Action.isStart : Action ι → Bool
  | .start _ => true
  | _ => false

def Action.isReach : Action ι → Bool
  | .reach _ _ => true
  | _ => false

/-- An entry that is left at the address of an agent that starts is enough for a cycle. -/
theorem oldRoot_cycles : ∃ v, ReachedBy reusedHost
    (fun w old a => Orderly reusedHost w old a ∨ a.isStart = true) v ∧ ¬Acyclic v.1 := by
  have hrun : (oldRoot.foldlM (actIf reusedHost
      fun w old a => Orderly reusedHost w old a ∨ a.isStart = true)
      (World.init, fun _ => false)).map (fun v => ((v.1.agents 2).bind Agent.parent,
        (v.1.agents 4).bind Agent.parent, (v.1.agents 3).bind Agent.parent)) =
      some (some 4, some 3, some 2) := by
    decide +kernel
  obtain ⟨v, hv, hp⟩ := Option.map_eq_some_iff.1 hrun
  refine ⟨v, reachedBy_of_run oldRoot hv, ?_⟩
  simp only [Prod.mk.injEq, Option.bind_eq_some_iff] at hp
  obtain ⟨⟨p, hp, h24⟩, ⟨q, hq, h43⟩, r, hr, h32⟩ := hp
  intro h
  exact h 2 (.tail (.tail (.single ⟨p, hp, h24⟩) ⟨q, hq, h43⟩) ⟨r, hr, h32⟩)

/-- Agent 1 is offered the root 0, which deregisters. Agent 4 starts at the address of 0, and 1 connects
to it; then 4 is offered 1. -/
def oldOffer : List (Action (Fin 5)) :=
  [.start 0, askAgain 0 0, askAgain 0 0, .start 1, askAgain 1 0,
    .deregister 0 ⟨0, true, default⟩, .start 4, .reach 1 4, askAgain 1 0,
    askAgain 4 0, .reach 4 1, askAgain 4 0]

/-- So is an offer of the address that the server has sent before. -/
theorem oldOffer_cycles : ∃ v, ReachedBy reusedHost
    (fun w old a => Orderly reusedHost w old a ∨ a.isReach = true) v ∧ ¬Acyclic v.1 := by
  have hrun : (oldOffer.foldlM (actIf reusedHost
      fun w old a => Orderly reusedHost w old a ∨ a.isReach = true)
      (World.init, fun _ => false)).map (fun v => ((v.1.agents 1).bind Agent.parent,
        (v.1.agents 4).bind Agent.parent)) = some (some 4, some 1) := by
    decide +kernel
  obtain ⟨v, hv, hp⟩ := Option.map_eq_some_iff.1 hrun
  refine ⟨v, reachedBy_of_run oldOffer hv, ?_⟩
  simp only [Prod.mk.injEq, Option.bind_eq_some_iff] at hp
  obtain ⟨⟨p, hp, h14⟩, q, hq, h41⟩ := hp
  intro h
  exact h 1 (.tail (.single ⟨p, hp, h14⟩) ⟨q, hq, h41⟩)

end Topology
