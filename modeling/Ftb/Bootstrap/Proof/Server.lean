import Ftb.Bootstrap.Client

/-!
# What the bootstrap server does with a packet

The table after a packet, asked through `contains` and `levelOf`, and two laws about it: the
failed parent that an agent reports is withdrawn exactly when the packet's unset field happens to
say so (`withdraws_iff`), and a second copy of a registration changes nothing, but for the reply
to a first root (`harmless_iff`).
-/

open FTB FTBN FTBNI

namespace FTBNI.Server

/-! ## The table after one operation -/

theorem mem_setLevel {s : Server} {addr : AddrSock} {level : UInt32} {e : BootstrapEntry} :
    e ∈ (s.setLevel addr level).addrMap.nodes ↔ ∃ x ∈ s.addrMap.nodes,
      (if isEqualAddrSock x.addr addr then { x with level } else x) = e :=
  List.mem_map

theorem contains_setLevel (s : Server) (addr : AddrSock) (level : UInt32) (a : AddrSock) :
    (s.setLevel addr level).addrMap.contains a = s.addrMap.contains a := by
  rw [KeyList.contains_eq_isSome, KeyList.contains_eq_isSome, setLevel,
    KeyList.find?_adjust_isSome]

theorem contains_register (s : Server) (addr : AddrSock) (level : UInt32) (h : addr.port ≠ 0)
    (a : AddrSock) :
    (s.register addr level h).addrMap.contains a =
      (s.addrMap.contains a || isEqualAddrSock addr a) := by
  unfold register
  split
  · rename_i hc
    rw [contains_setLevel]
    by_cases ha : isEqualAddrSock addr a = true
    · rw [KeyList.contains_eq_isSome, ← KeyList.find?_congr ha, ← KeyList.contains_eq_isSome, hc]
      rfl
    · rw [Bool.eq_false_iff.2 ha, Bool.or_false]
  · rw [Bool.eq_iff_iff, KeyList.contains_eq_isSome, KeyList.find?_insert_isSome',
      Bool.or_eq_true, KeyList.contains_eq_isSome]

theorem addrMap_remove (s : Server) (addr : AddrSock) :
    (s.remove addr).addrMap = s.addrMap.erase addr := by
  unfold remove
  split
  · rfl
  · rename_i hc
    exact (KeyList.erase_of_not_contains (Bool.eq_false_iff.2 hc)).symm

theorem contains_remove (s : Server) (addr a : AddrSock) :
    (s.remove addr).addrMap.contains a = (s.addrMap.contains a && !isEqualAddrSock addr a) := by
  rw [addrMap_remove, Bool.eq_iff_iff, KeyList.contains_eq_isSome, KeyList.find?_erase_isSome,
    Bool.and_eq_true, KeyList.contains_eq_isSome, Bool.not_eq_true']

theorem addrCount_remove (s : Server) (addr : AddrSock) :
    (s.remove addr).addrCount = s.addrCount - if s.addrMap.contains addr then 1 else 0 := by
  unfold remove
  split
  · rfl
  · rfl

theorem remove_of_not_contains {s : Server} {addr : AddrSock}
    (h : s.addrMap.contains addr = false) : s.remove addr = s := by
  unfold remove
  rw [dif_neg (by rw [h]; decide)]

theorem remove_congr (s : Server) {a b : AddrSock} (h : isEqualAddrSock a b = true) :
    s.remove a = s.remove b := by
  apply ext_addrMap
  apply KeyList.ext_nodes
  rw [addrMap_remove, addrMap_remove, KeyList.nodes_erase, KeyList.nodes_erase]
  exact List.filter_congr fun x _ => by rw [KeyEq.congr_right h]

/-! ## The search for a parent -/

theorem foldl_suitable (pkt : BootstrapPkt) (l : List BootstrapEntry)
    (acc : Option BootstrapEntry) :
    l.foldl (fun entry temp => if suitable pkt temp then some temp else entry) acc =
      (l.reverse.find? (suitable pkt)).or acc := by
  induction l generalizing acc with
  | nil => rfl
  | cons temp l ih =>
    rw [List.foldl_cons, ih, List.reverse_cons, List.find?_append, Option.or_assoc]
    congr 1
    cases hs : suitable pkt temp <;> simp [hs]

/-- The search goes backwards through the range and then forwards through the rest. -/
theorem findParentAddr_eq (s : Server) (pkt : BootstrapPkt) (rand : Nat) :
    s.findParentAddr pkt rand =
      ((s.addrMap.nodes.take (rand % s.addrCount + 1)).reverse.find? (suitable pkt)).or
        ((s.addrMap.nodes.drop (rand % s.addrCount + 1)).find? (suitable pkt)) := by
  unfold findParentAddr
  by_cases hc : s.addrCount = 0
  · have hn : s.addrMap.nodes = [] := List.length_eq_zero_iff.1 (s.count_eq ▸ hc)
    simp [hc, hn]
  · rw [if_neg (by simpa using hc)]
    simp only [foldl_suitable, Option.or_none]
    cases (s.addrMap.nodes.take (rand % s.addrCount + 1)).reverse.find? (suitable pkt) <;> rfl

/-- The parent that a search finds is in the table. -/
theorem mem_of_findParentAddr {s : Server} {pkt : BootstrapPkt} {rand : Nat}
    {entry : BootstrapEntry} (h : s.findParentAddr pkt rand = some entry) :
    entry ∈ s.addrMap.nodes ∧ suitable pkt entry = true := by
  rw [findParentAddr_eq, Option.or_eq_some_iff] at h
  rcases h with h | ⟨-, h⟩
  · have hm := List.mem_of_find?_eq_some h
    exact ⟨List.mem_of_mem_take (List.mem_reverse.1 hm), by simpa using List.find?_some h⟩
  · exact ⟨List.mem_of_mem_drop (List.mem_of_find?_eq_some h), by simpa using List.find?_some h⟩

/-- A search that finds none has none to find. -/
theorem not_suitable_of_findParentAddr {s : Server} {pkt : BootstrapPkt} {rand : Nat}
    (h : s.findParentAddr pkt rand = none) : ∀ e ∈ s.addrMap.nodes, suitable pkt e = false := by
  rw [findParentAddr_eq, Option.or_eq_none_iff] at h
  simp only [List.find?_eq_none, List.mem_reverse, Bool.not_eq_true] at h
  intro e he
  rw [← List.take_append_drop (rand % s.addrCount + 1) s.addrMap.nodes, List.mem_append] at he
  exact he.elim (h.1 e) (h.2 e)

/-- Every suitable entry is found for some value of `rand()`. -/
theorem exists_findParentAddr {s : Server} (pkt : BootstrapPkt) {e : BootstrapEntry}
    (he : e ∈ s.addrMap.nodes) (hs : suitable pkt e = true) :
    ∃ rand, s.findParentAddr pkt rand = some e := by
  obtain ⟨l₁, l₂, hn⟩ := List.append_of_mem he
  refine ⟨l₁.length, ?_⟩
  have hlt : l₁.length < s.addrCount := by
    rw [s.count_eq, hn]
    simp
  have htake : s.addrMap.nodes.take (l₁.length + 1) = l₁ ++ [e] := by
    rw [hn, List.append_cons, List.take_left' (by simp)]
  rw [findParentAddr_eq, Nat.mod_eq_of_lt hlt, htake]
  simp [hs]

/-! ## The failed parent -/

/-- The reply offers the address as a parent. -/
def Offers (reply : Option BootstrapPkt) (a : AddrSock) : Prop :=
  ∃ pkt, reply = some pkt ∧ pkt.bootstrapMsgType = addrRep ∧ pkt.parentAddr.port ≠ 0 ∧
    isEqualAddrSock pkt.parentAddr a = true

/-- The packet registers the address. -/
def Registers (pkt : BootstrapPkt) (a : AddrSock) : Prop :=
  pkt.bootstrapMsgType = regReq ∧ isEqualAddrSock pkt.addr a = true

/-- The server after the packets, with what `rand()` returned at each. -/
def serveAll (s : Server) (pkts : List (BootstrapPkt × Nat)) : Server :=
  pkts.foldl (fun s p => (s.serve p.1 p.2).1) s

/-! What one packet of each type does. -/

section
variable {s : Server} {pkt : BootstrapPkt} {rand : Nat}

theorem serve_addrReq (h : pkt.bootstrapMsgType = addrReq) :
    s.serve pkt rand = (s.crossOutParentEntry pkt,
      some (parentPkt ((s.crossOutParentEntry pkt).findParentAddr pkt rand))) := by
  unfold serve
  rw [if_pos (by rw [h]; rfl)]

/-- A registration that is refused, or has no address, changes nothing. -/
theorem serve_regReq (h : pkt.bootstrapMsgType = regReq) :
    s.serve pkt rand =
      if h : pkt.addr.port = 0 then (s, none)
      else if pkt.level == 1 && s.findRootEntry.isSome then
        (s, some { bootstrapMsgType := regInvalid })
      else (s.register pkt.addr pkt.level.toUInt32 h, some { bootstrapMsgType := regRep }) := by
  unfold serve
  rw [if_neg (by rw [h]; decide), if_pos (by rw [h]; rfl)]

theorem serve_deregReq (h : pkt.bootstrapMsgType = deregReq) :
    s.serve pkt rand =
      if pkt.addr.port = 0 then (s, none)
      else (s.remove pkt.addr, some { bootstrapMsgType := deregRep }) := by
  unfold serve
  rw [if_neg (by rw [h]; decide), if_neg (by rw [h]; decide), if_pos (by rw [h]; rfl)]

theorem serve_connFail (h : pkt.bootstrapMsgType = connFail) :
    s.serve pkt rand = (s.remove pkt.parentAddr, none) := by
  unfold serve
  rw [if_neg (by rw [h]; decide), if_neg (by rw [h]; decide), if_neg (by rw [h]; decide),
    if_pos (by rw [h]; rfl)]

theorem serve_other (h1 : pkt.bootstrapMsgType ≠ addrReq) (h2 : pkt.bootstrapMsgType ≠ regReq)
    (h3 : pkt.bootstrapMsgType ≠ deregReq) (h4 : pkt.bootstrapMsgType ≠ connFail) :
    s.serve pkt rand = (s, none) := by
  unfold serve
  rw [if_neg (by simpa using h1), if_neg (by simpa using h2), if_neg (by simpa using h3),
    if_neg (by simpa using h4)]

/-- The types of packet, and how the server treats each. -/
theorem serve_cases (s : Server) (pkt : BootstrapPkt) (rand : Nat) :
    (pkt.bootstrapMsgType = addrReq ∧ s.serve pkt rand = (s.crossOutParentEntry pkt,
      some (parentPkt ((s.crossOutParentEntry pkt).findParentAddr pkt rand)))) ∨
    (pkt.bootstrapMsgType = regReq ∧ ∃ h : pkt.addr.port ≠ 0,
      (pkt.level == 1 && s.findRootEntry.isSome) = false ∧ s.serve pkt rand =
        (s.register pkt.addr pkt.level.toUInt32 h, some { bootstrapMsgType := regRep })) ∨
    (∃ addr reply, s.serve pkt rand = (s.remove addr, reply) ∧
      (reply = none ∨ reply = some { bootstrapMsgType := deregRep })) ∨
    (∃ reply, s.serve pkt rand = (s, reply) ∧
      (reply = none ∨ reply = some { bootstrapMsgType := regInvalid })) := by
  by_cases h1 : pkt.bootstrapMsgType = addrReq
  · exact .inl ⟨h1, serve_addrReq h1⟩
  right
  by_cases h2 : pkt.bootstrapMsgType = regReq
  · have he : s.serve pkt rand = _ := serve_regReq h2
    split at he
    · exact .inr (.inr ⟨_, he, .inl rfl⟩)
    · rename_i hp
      split at he
      · exact .inr (.inr ⟨_, he, .inr rfl⟩)
      · rename_i hr
        exact .inl ⟨h2, hp, Bool.eq_false_iff.2 hr, he⟩
  right
  by_cases h3 : pkt.bootstrapMsgType = deregReq
  · have he : s.serve pkt rand = _ := serve_deregReq h3
    split at he
    · exact .inr ⟨_, he, .inl rfl⟩
    · exact .inl ⟨_, _, he, .inr rfl⟩
  by_cases h4 : pkt.bootstrapMsgType = connFail
  · exact .inl ⟨_, _, serve_connFail h4, .inl rfl⟩
  · exact .inr ⟨_, serve_other h1 h2 h3 h4, .inl rfl⟩

end

/-- What a reply offers is an entry that was found suitable. -/
theorem entry_of_offers {s : Server} {pkt : BootstrapPkt} {rand : Nat} {a : AddrSock}
    (h : Offers (s.serve pkt rand).2 a) : ∃ entry ∈ (s.crossOutParentEntry pkt).addrMap.nodes,
      suitable pkt entry = true ∧ isEqualAddrSock entry.addr a = true := by
  obtain ⟨reply, hr, ht, hp, ha⟩ := h
  rcases serve_cases s pkt rand with ⟨-, he⟩ | ⟨-, _, -, he⟩ | ⟨_, r, he, hn⟩ | ⟨r, he, hn⟩
  · rw [he] at hr
    cases hf : (s.crossOutParentEntry pkt).findParentAddr pkt rand with
    | none =>
      rw [hf] at hr
      cases hr
      exact absurd rfl hp
    | some entry =>
      rw [hf] at hr
      cases hr
      obtain ⟨hm, hs⟩ := mem_of_findParentAddr hf
      exact ⟨entry, hm, hs, ha⟩
  -- no other reply has the type of an offer
  · rw [he] at hr
    cases hr
    exact absurd ht (by decide)
  · rw [he] at hr
    rcases hn with rfl | rfl
    · cases hr
    · cases hr
      exact absurd ht (by decide)
  · rw [he] at hr
    rcases hn with rfl | rfl
    · cases hr
    · cases hr
      exact absurd ht (by decide)

/-- What a reply offers is in the table. -/
theorem contains_of_offers {s : Server} {pkt : BootstrapPkt} {rand : Nat} {a : AddrSock}
    (h : Offers (s.serve pkt rand).2 a) : s.addrMap.contains a = true := by
  obtain ⟨entry, hm, -, ha⟩ := entry_of_offers h
  rw [← contains_setLevel s pkt.parentAddr crossedOut a]
  exact List.any_eq_true.2 ⟨entry, hm, ha⟩

/-- Only a registration of the address brings it into the table. -/
theorem contains_serve {s : Server} {pkt : BootstrapPkt} {rand : Nat} {a : AddrSock}
    (h : s.addrMap.contains a = false) (hr : ¬Registers pkt a) :
    (s.serve pkt rand).1.addrMap.contains a = false := by
  rcases serve_cases s pkt rand with ⟨-, he⟩ | ⟨ht, hp, -, he⟩ | ⟨_, _, he, -⟩ | ⟨_, he, -⟩
  · rw [he]
    exact (contains_setLevel s _ _ a).trans h
  · rw [he]
    show (s.register _ _ hp).addrMap.contains a = false
    rw [contains_register, h, Bool.false_or, Bool.eq_false_iff]
    exact fun ha => hr ⟨ht, ha⟩
  · rw [he]
    show (s.remove _).addrMap.contains a = false
    rw [contains_remove, h, Bool.false_and]
  · rw [he]
    exact h

theorem contains_serveAll {pkts : List (BootstrapPkt × Nat)} {s : Server} {a : AddrSock}
    (h : s.addrMap.contains a = false) (hr : ∀ p ∈ pkts, ¬Registers p.1 a) :
    (serveAll s pkts).addrMap.contains a = false := by
  induction pkts generalizing s with
  | nil => exact h
  | cons p pkts ih =>
    exact ih (contains_serve h (hr p List.mem_cons_self)) fun q hq => hr q (List.mem_cons_of_mem _ hq)

/-- The report withdraws the address: exactly its entry goes, the count follows, and no later
reply offers the address before it registers again. -/
structure Withdraws (s : Server) (a : AddrSock) (report : BootstrapPkt) (rand : Nat) : Prop where
  entries : (s.serve report rand).1.addrMap.nodes =
    s.addrMap.nodes.filter fun e => !isEqualAddrSock e.addr a
  count : (s.serve report rand).1.addrCount =
    s.addrCount - if s.addrMap.contains a then 1 else 0
  offers : ∀ pkts, (∀ p ∈ pkts, ¬Registers p.1 a) → ∀ pkt rand',
    ¬Offers ((serveAll (s.serve report rand).1 pkts).serve pkt rand').2 a

theorem serve_connFailure (s : Server) (a : AddrSock) (junk : BootstrapPkt) (rand : Nat) :
    s.serve (Bootstrap.connFailure a junk) rand = (s.remove junk.parentAddr, none) := rfl

/-- **A report withdraws the failed parent exactly when the field that it does not set is equal to
its address, or neither of the two is registered.** -/
theorem withdraws_iff (s : Server) (a : AddrSock) (junk : BootstrapPkt) (rand : Nat) :
    Withdraws s a (Bootstrap.connFailure a junk) rand ↔
      (isEqualAddrSock junk.parentAddr a = true ∨
        (s.addrMap.contains a = false ∧ s.addrMap.contains junk.parentAddr = false)) := by
  have hnodes : (s.serve (Bootstrap.connFailure a junk) rand).1.addrMap.nodes =
      s.addrMap.nodes.filter fun e => !isEqualAddrSock e.addr junk.parentAddr := by
    rw [serve_connFailure, addrMap_remove, KeyList.nodes_erase]
  -- an entry that one address removes and the other does not
  have key : ∀ {b c : AddrSock}, isEqualAddrSock b c = false →
      (s.addrMap.nodes.filter fun e => !isEqualAddrSock e.addr b) =
        (s.addrMap.nodes.filter fun e => !isEqualAddrSock e.addr c) →
      s.addrMap.contains b = false := by
    intro b c hbc he
    rw [Bool.eq_false_iff]
    intro hb
    obtain ⟨e, hm, heb⟩ := List.any_eq_true.1 hb
    have hec : isEqualAddrSock e.addr c = false := (KeyEq.congr_left heb c).trans hbc
    have hin : e ∈ s.addrMap.nodes.filter fun e => !isEqualAddrSock e.addr b := by
      rw [he]
      exact List.mem_filter.2 ⟨hm, by rw [hec]; rfl⟩
    have hout := (List.mem_filter.1 hin).2
    rw [heb] at hout
    cases hout
  refine ⟨?_, ?_⟩
  · intro h
    have he := hnodes.symm.trans h.entries
    by_cases hj : isEqualAddrSock junk.parentAddr a = true
    · exact .inl hj
    · have hj' := Bool.eq_false_iff.2 hj
      exact .inr ⟨key ((KeyEq.comm isEqualAddrSock _ _).trans hj') he.symm, key hj' he⟩
  · intro h
    have hs : (s.serve (Bootstrap.connFailure a junk) rand).1 = s.remove a := by
      rw [serve_connFailure]
      rcases h with h | ⟨ha, hj⟩
      · exact remove_congr s h
      · rw [remove_of_not_contains ha, remove_of_not_contains hj]
    refine ⟨?_, ?_, ?_⟩
    · rw [hs, addrMap_remove, KeyList.nodes_erase]
    · rw [hs, addrCount_remove]
    · intro pkts hp pkt rand' ho
      have hc : (s.remove a).addrMap.contains a = false := by
        rw [contains_remove, isEqualAddrSock_self a, Bool.not_true, Bool.and_false]
      rw [hs] at ho
      have hcontra := contains_of_offers ho
      rw [contains_serveAll hc hp] at hcontra
      cases hcontra

/-- An agent reports its dead parent, and the unset field of the packet is empty: the entry stays. -/
theorem connFailure_keeps : ¬∀ s a junk rand,
    Withdraws s a (Bootstrap.connFailure a junk) rand := by
  intro h
  let a : AddrSock := ⟨['h'], 10809⟩
  exact absurd (h (init.register a 1 (by decide)) a default 0).count (by decide)

/-! ## Copies of a packet -/

/-- The server processes copies of a packet: the table after them and the types of the replies. -/
def serveCopies (s : Server) (pkt : BootstrapPkt) : List Nat → Server × List (Option UInt8)
  | [] => (s, [])
  | rand :: rands =>
    let (s', reply) := s.serve pkt rand
    let (s'', replies) := s'.serveCopies pkt rands
    (s'', reply.map BootstrapPkt.bootstrapMsgType :: replies)

/-- However many copies arrive, the table is the one after the first and so is every reply. -/
def Harmless (s : Server) (pkt : BootstrapPkt) : Prop :=
  ∀ rand rands, s.serveCopies pkt (rand :: rands) =
    ((s.serve pkt rand).1,
      List.replicate (rands.length + 1) ((s.serve pkt rand).2.map BootstrapPkt.bootstrapMsgType))

/-- The packet makes its sender the first root. -/
def FirstRoot (s : Server) (pkt : BootstrapPkt) : Prop :=
  pkt.bootstrapMsgType = regReq ∧ pkt.addr.port ≠ 0 ∧ pkt.level = 1 ∧ s.findRootEntry = none

/-- A second copy with the same outcome makes any number of them harmless. -/
theorem harmless_of_twice {s : Server} {pkt : BootstrapPkt}
    (h : ∀ rand rand', (s.serve pkt rand).1.serve pkt rand' = s.serve pkt rand) :
    Harmless s pkt := by
  intro rand rands
  have fixed : ∀ (rands : List Nat) (s' : Server) (r : Option BootstrapPkt),
      (∀ rand', s'.serve pkt rand' = (s', r)) → s'.serveCopies pkt rands =
        (s', List.replicate rands.length (r.map BootstrapPkt.bootstrapMsgType)) := by
    intro rands
    induction rands with
    | nil => exact fun _ _ _ => rfl
    | cons rand' rands ih =>
      intro s' r hf
      rw [serveCopies, hf rand']
      simp only [ih s' r hf]
      rfl
  rw [serveCopies]
  simp only [fixed rands _ _ (h rand)]
  rfl

theorem setLevel_setLevel (s : Server) (addr : AddrSock) (level : UInt32) :
    (s.setLevel addr level).setLevel addr level = s.setLevel addr level := by
  apply ext_addrMap
  apply KeyList.ext_nodes
  simp only [setLevel, KeyList.adjust, List.map_map]
  refine List.map_congr_left fun e _ => ?_
  simp only [Function.comp]
  split <;> simp_all

theorem nodes_register_new {s : Server} {addr : AddrSock} (hc : s.addrMap.contains addr = false)
    (level : UInt32) (h : addr.port ≠ 0) :
    (s.register addr level h).addrMap.nodes = s.addrMap.nodes ++ [⟨addr, level⟩] := by
  unfold register
  rw [dif_neg (by rw [hc]; decide)]
  exact KeyList.nodes_insert (v := BootstrapEntry.mk addr level) hc

/-- The entry that a registration leaves. -/
theorem mem_register_self (s : Server) (addr : AddrSock) (level : UInt32) (h : addr.port ≠ 0) :
    ∃ e ∈ (s.register addr level h).addrMap.nodes, isEqualAddrSock e.addr addr = true ∧
      e.level = level := by
  cases hc : s.addrMap.contains addr with
  | false =>
    rw [nodes_register_new hc]
    exact ⟨⟨addr, level⟩, by simp, KeyEq.refl _, rfl⟩
  | true =>
    obtain ⟨e, he, ha⟩ := List.any_eq_true.1 hc
    unfold register
    rw [dif_pos hc]
    exact ⟨{ e with level }, mem_setLevel.2 ⟨e, he, if_pos ha⟩, ha, rfl⟩

/-- Registering twice is registering once. -/
theorem register_register (s : Server) (addr : AddrSock) (level : UInt32) (h : addr.port ≠ 0) :
    (s.register addr level h).register addr level h = s.register addr level h := by
  have hin : (s.register addr level h).addrMap.contains addr = true := by
    rw [contains_register, isEqualAddrSock_self addr, Bool.or_true]
  have hset : (s.register addr level h).register addr level h =
      (s.register addr level h).setLevel addr level := dif_pos hin
  rw [hset]
  cases hc : s.addrMap.contains addr with
  | true =>
    have hs : s.register addr level h = s.setLevel addr level := dif_pos hc
    rw [hs, setLevel_setLevel]
  | false =>
    apply ext_addrMap
    apply KeyList.ext_nodes
    -- only the new entry has the address, and it has the level already
    have hold : ∀ e ∈ s.addrMap.nodes, isEqualAddrSock e.addr addr = false := fun e he =>
      Bool.eq_false_iff.2 fun ha => by
        rw [show s.addrMap.contains addr = true from List.any_eq_true.2 ⟨e, he, ha⟩] at hc
        cases hc
    show (s.register addr level h).addrMap.nodes.map
      (fun e => if isEqualAddrSock e.addr addr then { e with level } else e) = _
    rw [nodes_register_new hc, List.map_append, List.map_congr_left (g := id) fun e he => by
      rw [hold e he]; rfl]
    simp [isEqualAddrSock_self addr]

theorem findRootEntry_register (s : Server) (addr : AddrSock) (h : addr.port ≠ 0) :
    (s.register addr 1 h).findRootEntry.isSome = true := by
  obtain ⟨e, he, -, hl⟩ := mem_register_self s addr 1 h
  exact List.find?_isSome.2 ⟨e, he, by rw [hl]; decide⟩

theorem remove_remove (s : Server) (addr : AddrSock) :
    (s.remove addr).remove addr = s.remove addr := by
  apply remove_of_not_contains
  rw [contains_remove, isEqualAddrSock_self addr, Bool.not_true, Bool.and_false]

/-- **Copies of a registration or deregistration are harmless, except for the one that makes its
sender the first root**: its copy finds a root and is refused. -/
theorem harmless_iff (s : Server) (pkt : BootstrapPkt)
    (ht : pkt.bootstrapMsgType = regReq ∨ pkt.bootstrapMsgType = deregReq) :
    Harmless s pkt ↔ ¬FirstRoot s pkt := by
  refine ⟨?_, ?_⟩
  · intro hh ⟨ht, hp, hl, hr⟩
    have h1 : s.serve pkt 0 = (s.register pkt.addr 1 hp, some { bootstrapMsgType := regRep }) := by
      rw [serve_regReq ht, dif_neg hp, hl, hr]
      rfl
    have h2 : (s.register pkt.addr 1 hp).serve pkt 0 =
        (s.register pkt.addr 1 hp, some { bootstrapMsgType := regInvalid }) := by
      rw [serve_regReq ht, dif_neg hp, hl, findRootEntry_register]
      rfl
    have h := hh 0 [0]
    rw [serveCopies, h1] at h
    simp only [serveCopies, h2] at h
    cases h
  · intro hn
    apply harmless_of_twice
    intro rand rand'
    -- in each case the packet leaves `s'`, and leaves `s'` alone the second time
    have twice : ∀ {s' : Server} {r : Option BootstrapPkt}, (∀ rand, s.serve pkt rand = (s', r)) →
        (∀ rand, s'.serve pkt rand = (s', r)) →
        (s.serve pkt rand).1.serve pkt rand' = s.serve pkt rand := fun h h' => by
      rw [h rand, h' rand']
    rcases ht with ht | ht
    · by_cases hp : pkt.addr.port = 0
      · have h : ∀ rand, s.serve pkt rand = (s, none) := fun _ => by
          rw [serve_regReq ht, dif_pos hp]
        exact twice h h
      · cases hr : pkt.level == 1 && s.findRootEntry.isSome with
        | true =>
          have h : ∀ rand, s.serve pkt rand = (s, some { bootstrapMsgType := regInvalid }) :=
            fun _ => by rw [serve_regReq ht, dif_neg hp, hr, if_pos rfl]
          exact twice h h
        | false =>
          have hl : (pkt.level == 1) = false := by
            rw [Bool.eq_false_iff]
            intro hl
            refine hn ⟨ht, hp, by simpa using hl, ?_⟩
            rw [hl, Bool.true_and] at hr
            simpa using hr
          have h : ∀ (t : Server) rand, t.serve pkt rand =
              (t.register pkt.addr pkt.level.toUInt32 hp, some { bootstrapMsgType := regRep }) :=
            fun t _ => by
              rw [serve_regReq ht, dif_neg hp, hl, Bool.false_and, if_neg Bool.false_ne_true]
          refine twice (h s) fun rand => ?_
          rw [h, register_register]
    · by_cases hp : pkt.addr.port = 0
      · have h : ∀ rand, s.serve pkt rand = (s, none) := fun _ => by
          rw [serve_deregReq ht, if_pos hp]
        exact twice h h
      · have h : ∀ (t : Server) rand, t.serve pkt rand =
            (t.remove pkt.addr, some { bootstrapMsgType := deregRep }) := fun t _ => by
          rw [serve_deregReq ht, if_neg hp]
        refine twice (h s) fun rand => ?_
        rw [h, remove_remove]

/-- An agent below the root registers again. -/
theorem harmless_iff_child :
    Harmless (init.register ⟨['r'], 10809⟩ 1 (by decide))
      { bootstrapMsgType := regReq, addr := ⟨['h'], 10809⟩, level := 2 } ↔
    ¬FirstRoot (init.register ⟨['r'], 10809⟩ 1 (by decide))
      { bootstrapMsgType := regReq, addr := ⟨['h'], 10809⟩, level := 2 } :=
  harmless_iff _ _ (.inl rfl)

/-- The reply to the first root is lost, and the copy of its registration is refused. -/
theorem firstRoot_refused : ¬∀ s pkt,
    pkt.bootstrapMsgType = regReq ∨ pkt.bootstrapMsgType = deregReq → Harmless s pkt := by
  intro h
  have hh := h init { bootstrapMsgType := regReq, addr := ⟨['h'], 10809⟩, level := 1 } (.inl rfl) 0 [0]
  exact absurd (congrArg Prod.snd hh) (by decide)

end FTBNI.Server
