import Ftb.Bootstrap.Table

/-!
# The parent that the bootstrap server offers

The reply to an `ADDR_REQ` names an eligible entry if the table holds one, whatever `rand()` returns,
and an address that a request gives as its parent is not offered until it registers again
(`selects_parent`).
-/

open FTB FTBN

namespace FTBNI.Table

/-- The table after some packets. -/
def Reached (t : Table) : Prop := ∃ pkts, init.serveAll pkts = some t

/-- The entry can be the parent of the agent that asks. -/
structure Eligible (pkt : BootstrapPkt) (e : BootstrapEntry) : Prop where
  level : e.level.toNat < pkt.level.toNat
  kept : e.level ≠ crossedOut
  requester : isEqualAddrSock e.addr pkt.addr = false
  parent : isEqualAddrSock e.addr pkt.parentAddr = false

/-- The reply names an entry exactly if one is eligible, and the one it names is. -/
structure Selection (pkt : BootstrapPkt) (t : Table) (reply : BootstrapPkt) : Prop where
  type : reply.bootstrapMsgType = addrRep
  names : (∃ e ∈ t.addrMap, isEqualAddrSock e.addr reply.parentAddr = true) ↔
    ∃ e ∈ t.addrMap, Eligible pkt e
  eligible : ∀ e ∈ t.addrMap, isEqualAddrSock e.addr reply.parentAddr = true →
    Eligible pkt e ∧ reply.level.toNat = e.level.toNat
  none : (∀ e ∈ t.addrMap, ¬Eligible pkt e) → reply.parentAddr.port = 0 ∧ reply.level = 0

/-- The packet registers the address. -/
def Accepts (t : Table) (p : BootstrapPkt × Nat) (a : AddrSock) : Prop :=
  Server.Registers p.1 a ∧ ∃ t' reply, t.serve p.1 p.2 = some (t', some reply) ∧
    reply.bootstrapMsgType = regRep

/-- No reply offers the address until it registers. -/
def Withheld (t : Table) (a : AddrSock) : Prop :=
  ∀ pkts, (∀ pre p post u, pkts = pre ++ p :: post → t.serveAll pre = some u → ¬Accepts u p a) →
    ∀ u, t.serveAll pkts = some u → ∀ pkt rand u' reply, u.serve pkt rand = some (u', reply) →
      ¬Server.Offers reply a

/-! ## The search -/

theorem suitable_iff {pkt : BootstrapPkt} {e : BootstrapEntry} :
    Server.suitable pkt e = true ↔ e.level.toNat < pkt.level.toNat ∧ e.level ≠ crossedOut ∧
      isEqualAddrSock e.addr pkt.addr = false := by
  have hlevel : e.level < pkt.level.toUInt32 ↔ e.level.toNat < pkt.level.toNat := by
    rw [UInt32.lt_iff_toNat_lt, UInt16.toNat_toUInt32]
  have haddr : isEqualAddrSock e.addr pkt.addr = isEqualAddrSock pkt.addr e.addr :=
    KeyEq.comm isEqualAddrSock _ _
  rw [haddr]
  simp only [Server.suitable, isEqualAddrSock, Bool.and_eq_true, decide_eq_true_eq, hlevel,
    bne_iff_ne, Bool.or_eq_true, Bool.not_eq_true', Bool.and_eq_false_iff, beq_eq_false_iff_ne,
    and_assoc]

section
variable {s : Server} {t : Table} {pkt : BootstrapPkt} {rand : Nat} {a : AddrSock}

/-- An entry is eligible exactly if it is suitable when the parent is crossed out. -/
theorem eligible_iff {e : BootstrapEntry} :
    (e ∈ (s.crossOutParentEntry pkt).addrMap.nodes ∧ Server.suitable pkt e = true) ↔
      e ∈ s.addrMap.nodes ∧ Eligible pkt e := by
  rw [Server.crossOutParentEntry, Server.mem_setLevel, suitable_iff]
  constructor
  · rintro ⟨⟨x, hx, rfl⟩, hlevel, hkept, hrequester⟩
    by_cases hparent : isEqualAddrSock x.addr pkt.parentAddr = true
    · rw [if_pos hparent] at hkept
      exact absurd rfl hkept
    · rw [if_neg hparent] at hlevel hkept hrequester ⊢
      exact ⟨hx, hlevel, hkept, hrequester, Bool.eq_false_iff.2 hparent⟩
  · rintro ⟨he, hlevel, hkept, hrequester, hparent⟩
    exact ⟨⟨e, he, by rw [hparent]; rfl⟩, hlevel, hkept, hrequester⟩

theorem selection (h : Shows t s) : Selection pkt t
    (Server.parentPkt ((s.crossOutParentEntry pkt).findParentAddr pkt rand)) := by
  cases hf : (s.crossOutParentEntry pkt).findParentAddr pkt rand with
  | none =>
    have hno : ∀ e ∈ t.addrMap, ¬Eligible pkt e := by
      intro e he hel
      rw [h.addrMap] at he
      obtain ⟨hm, hs⟩ := eligible_iff.2 ⟨he, hel⟩
      rw [Server.not_suitable_of_findParentAddr hf e hm] at hs
      cases hs
    have hport : ∀ e ∈ t.addrMap, isEqualAddrSock e.addr ⟨[], 0⟩ = false := by
      intro e he
      rw [h.addrMap] at he
      exact Bool.eq_false_iff.2 fun ha => s.ports e he (port_eq_of_isEqualAddrSock ha)
    refine ⟨rfl, iff_of_false ?_ ?_, fun e he ha => ?_, fun _ => ⟨rfl, rfl⟩⟩
    · rintro ⟨e, he, ha⟩
      exact absurd ha (Bool.eq_false_iff.1 (hport e he))
    · rintro ⟨e, he, hel⟩
      exact hno e he hel
    · exact absurd ha (Bool.eq_false_iff.1 (hport e he))
  | some entry =>
    obtain ⟨hm, hel⟩ := eligible_iff.1 (Server.mem_of_findParentAddr hf)
    have hmem : entry ∈ t.addrMap := by rwa [h.addrMap]
    refine ⟨rfl, iff_of_true ⟨entry, hmem, KeyEq.refl _⟩ ⟨entry, hmem, hel⟩, fun e he ha => ?_,
      fun hno => absurd hel (hno entry hmem)⟩
    rw [h.addrMap] at he
    obtain rfl : e = entry := KeyList.eq_of_mem he hm ha
    refine ⟨hel, ?_⟩
    have hlt := hel.level
    have hbound := pkt.level.toNat_lt
    show e.level.toUInt16.toNat = e.level.toNat
    rw [UInt32.toNat_toUInt16]
    omega

/-! ## The parent that was given -/

/-- The address has no entry, or one that is crossed out. -/
def Hidden (s : Server) (a : AddrSock) : Prop :=
  ∀ e ∈ s.addrMap.nodes, isEqualAddrSock e.addr a = true → e.level = crossedOut

theorem hidden_setLevel {addr : AddrSock} {level : UInt32} (h : Hidden s a)
    (hlevel : isEqualAddrSock addr a = true → level = crossedOut) :
    Hidden (s.setLevel addr level) a := by
  intro e he ha
  obtain ⟨x, hx, rfl⟩ := Server.mem_setLevel.1 he
  by_cases hxa : isEqualAddrSock x.addr addr = true
  · rw [if_pos hxa] at ha ⊢
    exact hlevel (KeyEq.trans (KeyEq.symm hxa) ha)
  · rw [if_neg hxa] at ha ⊢
    exact h x hx ha

theorem hidden_crossOutParentEntry (h : Hidden s a) : Hidden (s.crossOutParentEntry pkt) a :=
  hidden_setLevel h fun _ => rfl

theorem hidden_parent (s : Server) (pkt : BootstrapPkt) :
    Hidden (s.crossOutParentEntry pkt) pkt.parentAddr := by
  intro e he ha
  obtain ⟨x, hx, rfl⟩ := Server.mem_setLevel.1 he
  split
  · rfl
  · rename_i hno
    rw [if_neg hno] at ha
    exact absurd ha hno

/-- An address stays hidden until a packet registers it. -/
theorem hidden_serve (h : Hidden s a) (hno : ¬(Server.Registers pkt a ∧
    ∃ reply, (s.serve pkt rand).2 = some reply ∧ reply.bootstrapMsgType = regRep)) :
    Hidden (s.serve pkt rand).1 a := by
  rcases Server.serve_cases s pkt rand with ⟨-, he⟩ | ⟨ht, hp, -, he⟩ | ⟨addr, _, he, -⟩ | ⟨_, he, -⟩
  · rw [he]
    exact hidden_crossOutParentEntry h
  · have haddr : isEqualAddrSock pkt.addr a = false := by
      rw [Bool.eq_false_iff]
      intro ha
      rw [he] at hno
      exact hno ⟨⟨ht, ha⟩, _, rfl, rfl⟩
    rw [he]
    show Hidden (s.register pkt.addr pkt.level.toUInt32 hp) a
    cases hc : s.addrMap.contains pkt.addr with
    | true =>
      rw [Server.register, dif_pos hc]
      exact hidden_setLevel h fun ha => absurd ha (Bool.eq_false_iff.1 haddr)
    | false =>
      intro e hmem ha
      rw [Server.nodes_register_new hc, List.mem_append, List.mem_singleton] at hmem
      rcases hmem with hmem | rfl
      · exact h e hmem ha
      · exact absurd ha (Bool.eq_false_iff.1 haddr)
  · rw [he]
    intro e hmem ha
    rw [Server.addrMap_remove] at hmem
    exact h e (KeyList.mem_of_mem_erase hmem) ha
  · rw [he]
    exact h

theorem not_offers_of_hidden (h : Hidden s a) : ¬Server.Offers (s.serve pkt rand).2 a := by
  intro ho
  obtain ⟨entry, hm, hs, ha⟩ := Server.entry_of_offers ho
  exact (suitable_iff.1 hs).2.1 (hidden_crossOutParentEntry h entry hm ha)

theorem withheld_of_hidden (h : Shows t s) (hh : Hidden s a) : Withheld t a := by
  intro pkts
  induction pkts generalizing t s with
  | nil =>
    intro _ u hu pkt rand u' reply hserve
    cases hu
    obtain ⟨t', ht', -⟩ := serve_shows h pkt rand
    rw [hserve] at ht'
    cases ht'
    exact not_offers_of_hidden hh
  | cons p pkts ih =>
    intro hno u hu
    obtain ⟨t', ht', h'⟩ := serve_shows h p.1 p.2
    have hall : ∀ rest, serveAll t (p :: rest) = serveAll t' rest := by
      intro rest
      rw [serveAll, List.foldlM_cons, ht']
      rfl
    rw [hall] at hu
    refine ih h' (hidden_serve hh ?_) (fun pre q post v heq hv => ?_) u hu
    · rintro ⟨hreg, reply, hreply, htype⟩
      refine hno [] p pkts t rfl rfl ⟨hreg, t', reply, ?_, htype⟩
      rw [ht', hreply]
    · exact hno (p :: pre) q post v (by rw [heq, List.cons_append]) (by rw [hall, hv])

end

/-- **In every table that packets lead to, whatever `rand()` returns, the reply to an `ADDR_REQ` names
an eligible entry if there is one, and the parent that the request gives is not offered, by this reply
or by a later one, until it registers.** -/
theorem selects_parent {t : Table} (ht : Reached t) (pkt : BootstrapPkt)
    (hpkt : pkt.bootstrapMsgType = addrReq) (rand : Nat) :
    ∃ t' reply, t.serve pkt rand = some (t', some reply) ∧ Selection pkt t reply ∧
      ¬Server.Offers (some reply) pkt.parentAddr ∧ Withheld t' pkt.parentAddr := by
  obtain ⟨pkts, hpkts⟩ := ht
  obtain ⟨u, hu, h⟩ := serveAll_shows shows_init pkts
  rw [hpkts] at hu
  cases hu
  obtain ⟨t', ht', h'⟩ := serve_shows h pkt rand
  have hserve : (Server.serveAll Server.init pkts).serve pkt rand = _ := Server.serve_addrReq hpkt
  have hoffers : ¬Server.Offers ((Server.serveAll Server.init pkts).serve pkt rand).2
      pkt.parentAddr := by
    intro ho
    obtain ⟨entry, hm, hs, ha⟩ := Server.entry_of_offers ho
    exact (suitable_iff.1 hs).2.1 (hidden_parent _ pkt entry hm ha)
  rw [hserve] at ht' h' hoffers
  exact ⟨t', _, ht', selection h, hoffers, withheld_of_hidden h' (hidden_parent _ pkt)⟩

/-- A root registers. -/
def rootReg : List (BootstrapPkt × Nat) :=
  [({ bootstrapMsgType := regReq, addr := ⟨['r'], 10809⟩, level := 1 }, 0)]

/-- An agent that lost its parent asks. -/
def orphanReq : BootstrapPkt where
  bootstrapMsgType := addrReq
  addr := ⟨['h'], 10809⟩
  parentAddr := ⟨['p'], 10809⟩
  level := 3

theorem selects_parent_root : ∃ t, init.serveAll rootReg = some t ∧
    ∃ t' reply, t.serve orphanReq 7 = some (t', some reply) ∧ Selection orphanReq t reply ∧
      ¬Server.Offers (some reply) orphanReq.parentAddr ∧ Withheld t' orphanReq.parentAddr :=
  ⟨_, rfl, selects_parent ⟨rootReg, rfl⟩ orphanReq rfl 7⟩

end FTBNI.Table
