import Ftb.Bootstrap.Proof.Server
import Ftb.Lib.Ring

/-!
# The table of the bootstrap server as the code keeps it

`FTBNI_addr_count` is a variable of its own, next to the circular list `FTBNI_bootstrap_addr_map`,
whose head node holds the comparison function. A result `none` is a division by zero, or a read of
the head as an entry. Every run is the run of `Server` (`serve_shows`), so neither happens
(`table_invariant`).
-/

open FTB FTBN

namespace FTBNI

/-- `FTBNI_bootstrap_addr_map`, the nodes behind its head in order, and `FTBNI_addr_count`. -/
structure Table where
  addrMap : List BootstrapEntry
  addrCount : Int
  deriving Repr

namespace Table

def init : Table := ⟨[], 0⟩

/-- `FTBU_map_find_key`: the position of the node, or of the head. -/
def mapFindKey (map : List BootstrapEntry) (key : AddrSock) : Nat :=
  map.findIdx fun pos => isEqualAddrSock pos.addr key

/-- `FTBU_map_insert`. -/
def mapInsert (map : List BootstrapEntry) (entry : BootstrapEntry) : List BootstrapEntry :=
  if map.any fun pos => isEqualAddrSock pos.addr entry.addr then map else map ++ [entry]

/-- `FTBNI_util_find_root_entry`. -/
def findRootEntry (t : Table) : Option BootstrapEntry := t.addrMap.find? fun entry => entry.level == 1

/-- A write of the level of the entry at a position that is not the head. -/
def setLevel (iter : Nat) (level : UInt32) (t : Table) : Table :=
  { t with addrMap := t.addrMap.modify iter fun entry => { entry with level } }

/-- `FTBNI_util_cross_out_parent_entry`. -/
def crossOutParentEntry (pktReq : BootstrapPkt) (t : Table) : Table :=
  let iter := mapFindKey t.addrMap pktReq.parentAddr
  if iter ≠ t.addrMap.length then t.setLevel iter crossedOut else t

/-- `a % b`. -/
def remainder (a b : Int) : Option Int := if b = 0 then none else some (a.tmod b)

/-- `FTBNI_util_find_parent_addr`. -/
def findParentAddr (pktReq : BootstrapPkt) (rand : Nat) (t : Table) : Option (Option BootstrapEntry) :=
  if t.addrCount = 0 then some none
  else do
    let x ← remainder rand t.addrCount
    let (iter, entry) ← Ring.walk t.addrMap
      (fun entry temp => if Server.suitable pktReq temp then some temp else entry) (x + 1).toNat 0 none
    match entry with
    | some entry => pure (some entry)
    | none => pure ((t.addrMap.drop iter).find? (Server.suitable pktReq))

/-- The entry of an address taken out of the map. -/
def remove (addr : AddrSock) (t : Table) : Table :=
  let iter := mapFindKey t.addrMap addr
  if iter ≠ t.addrMap.length then ⟨t.addrMap.eraseIdx iter, t.addrCount - 1⟩ else t

/-- The part of `REG_REQ` that changes the table. -/
def register (addr : AddrSock) (level : UInt32) (t : Table) : Table :=
  let iter := mapFindKey t.addrMap addr
  if iter = t.addrMap.length then ⟨mapInsert t.addrMap ⟨addr, level⟩, t.addrCount + 1⟩
  else t.setLevel iter level

/-- One turn of the loop of `main`. -/
def serve (pkt : BootstrapPkt) (rand : Nat) (t : Table) : Option (Table × Option BootstrapPkt) :=
  if pkt.bootstrapMsgType == addrReq then do
    let t := t.crossOutParentEntry pkt
    let entry ← t.findParentAddr pkt rand
    pure (t, some (Server.parentPkt entry))
  else if pkt.bootstrapMsgType == regReq then
    if pkt.addr.port = 0 then some (t, none)
    else if pkt.level == 1 && t.findRootEntry.isSome then
      some (t, some { bootstrapMsgType := regInvalid })
    else some (t.register pkt.addr pkt.level.toUInt32, some { bootstrapMsgType := regRep })
  else if pkt.bootstrapMsgType == deregReq then
    if pkt.addr.port = 0 then some (t, none)
    else some (t.remove pkt.addr, some { bootstrapMsgType := deregRep })
  else if pkt.bootstrapMsgType == connFail then some (t.remove pkt.parentAddr, none)
  else some (t, none)

/-- The table after the packets, with what `rand()` returned at each. -/
def serveAll (t : Table) (pkts : List (BootstrapPkt × Nat)) : Option Table :=
  pkts.foldlM (fun t p => do
    let (t, _) ← serve p.1 p.2 t
    pure t) t

/-! ## The server that the table shows -/

/-- The table holds the entries and the count of the server. -/
structure Shows (t : Table) (s : Server) : Prop where
  addrMap : t.addrMap = s.addrMap.nodes
  addrCount : t.addrCount = s.addrCount

section
variable {t t' : Table} {s : Server} {addr : AddrSock} {pkt : BootstrapPkt} {rand : Nat}

theorem Shows.find_eq_length (h : Shows t s) :
    mapFindKey t.addrMap addr = t.addrMap.length ↔ s.addrMap.contains addr = false := by
  rw [mapFindKey, h.addrMap, List.findIdx_eq_length, KeyList.contains, List.any_eq_false]
  simp only [Bool.not_eq_true]

theorem Shows.setLevel (h : Shows t s) (level : UInt32) :
    Shows (t.setLevel (mapFindKey t.addrMap addr) level) (s.setLevel addr level) := by
  refine ⟨?_, h.addrCount⟩
  rw [Table.setLevel, mapFindKey, h.addrMap]
  exact KeyList.modify_findIdx s.addrMap addr (fun e => { e with level }) fun _ => rfl

/-- A level that is written for no entry. -/
theorem setLevel_of_not_contains (hc : s.addrMap.contains addr = false) (level : UInt32) :
    s.setLevel addr level = s := by
  apply Server.ext_addrMap
  apply KeyList.ext_nodes
  have hno : ∀ e ∈ s.addrMap.nodes, isEqualAddrSock e.addr addr = false := by
    simpa [KeyList.contains] using hc
  show (s.addrMap.nodes.map fun e =>
    if isEqualAddrSock e.addr addr then { e with level } else e) = _
  rw [List.map_congr_left (g := id) fun e he => by rw [hno e he]; rfl, List.map_id]

theorem Shows.crossOutParentEntry (h : Shows t s) :
    Shows (t.crossOutParentEntry pkt) (s.crossOutParentEntry pkt) := by
  rw [Table.crossOutParentEntry, Server.crossOutParentEntry]
  split
  · exact h.setLevel crossedOut
  · rename_i hiter
    rw [not_not, h.find_eq_length] at hiter
    rwa [setLevel_of_not_contains hiter]

theorem Shows.remove (h : Shows t s) : Shows (t.remove addr) (s.remove addr) := by
  rw [Table.remove]
  split
  · rename_i hiter
    rw [Ne, h.find_eq_length, Bool.not_eq_false] at hiter
    refine ⟨?_, ?_⟩
    · rw [Server.addrMap_remove, ← KeyList.eraseIdx_findIdx, mapFindKey, h.addrMap]
    · have hpos : 0 < s.addrCount := by
        rw [s.count_eq, List.length_pos_iff]
        rintro hnil
        simp [KeyList.contains, hnil] at hiter
      rw [Server.addrCount_remove, if_pos hiter]
      dsimp only
      rw [h.addrCount]
      omega
  · rename_i hiter
    rw [not_not, h.find_eq_length] at hiter
    rwa [Server.remove_of_not_contains hiter]

theorem Shows.register (h : Shows t s) (level : UInt32) (hp : addr.port ≠ 0) :
    Shows (t.register addr level) (s.register addr level hp) := by
  rw [Table.register]
  split
  · rename_i hiter
    rw [h.find_eq_length] at hiter
    have hany : (s.addrMap.nodes.any fun pos => isEqualAddrSock pos.addr addr) = false := hiter
    refine ⟨?_, ?_⟩
    · rw [Server.nodes_register_new hiter, mapInsert, h.addrMap]
      dsimp only
      rw [hany]
      rfl
    · rw [Server.register, dif_neg (by rw [hiter]; decide)]
      dsimp only
      rw [h.addrCount]
      omega
  · rename_i hiter
    rw [h.find_eq_length, Bool.not_eq_false] at hiter
    rw [Server.register, dif_pos hiter]
    exact h.setLevel level

/-- The number of turns of the counted loop. -/
theorem Shows.turns (h : Shows t s) (hc : t.addrCount ≠ 0) (rand : Nat) :
    remainder rand t.addrCount = some ((rand % s.addrCount : Nat) : Int) ∧
      rand % s.addrCount + 1 ≤ t.addrMap.length := by
  have hpos : 0 < s.addrCount := by
    have := h.addrCount
    omega
  refine ⟨?_, ?_⟩
  · rw [remainder, if_neg hc, h.addrCount, Int.tmod_eq_emod_of_nonneg (by omega)]
    norm_cast
  · rw [h.addrMap, ← s.count_eq]
    exact Nat.mod_lt _ hpos

theorem Shows.findParentAddr (h : Shows t s) :
    t.findParentAddr pkt rand = some (s.findParentAddr pkt rand) := by
  rw [Table.findParentAddr, Server.findParentAddr]
  by_cases hc : t.addrCount = 0
  · have hs : s.addrCount = 0 := by
      have := h.addrCount
      omega
    rw [if_pos hc, hs]
    rfl
  · obtain ⟨hrem, hle⟩ := h.turns hc rand
    have hs : (s.addrCount == 0) = false := by
      have := h.addrCount
      rw [beq_eq_false_iff_ne]
      omega
    have hturns : (((rand % s.addrCount : Nat) : Int) + 1).toNat = rand % s.addrCount + 1 := by
      omega
    rw [if_neg hc, hrem, hs]
    simp only [Option.bind_eq_bind, Option.bind_some]
    rw [hturns, Ring.walk_eq (by omega)]
    simp only [Option.bind_some, List.drop_zero, Nat.zero_add, h.addrMap]
    cases (s.addrMap.nodes.take (rand % s.addrCount + 1)).foldl
      (fun entry temp => if Server.suitable pkt temp then some temp else entry) none <;> rfl

/-- A packet does to the table what it does to the server, and every read is of an entry. -/
theorem serve_shows (h : Shows t s) (pkt : BootstrapPkt) (rand : Nat) :
    ∃ t', t.serve pkt rand = some (t', (s.serve pkt rand).2) ∧ Shows t' (s.serve pkt rand).1 := by
  have hroot : t.findRootEntry = s.findRootEntry := by
    rw [Table.findRootEntry, Server.findRootEntry, h.addrMap]
  unfold Table.serve Server.serve
  split
  · refine ⟨t.crossOutParentEntry pkt, ?_, h.crossOutParentEntry⟩
    simp [h.crossOutParentEntry.findParentAddr]
  split
  · split
    · exact ⟨t, rfl, h⟩
    · rename_i hp
      rw [hroot]
      split
      · exact ⟨t, rfl, h⟩
      · exact ⟨_, rfl, h.register _ hp⟩
  split
  · split
    · exact ⟨t, rfl, h⟩
    · exact ⟨_, rfl, h.remove⟩
  split
  · exact ⟨_, rfl, h.remove⟩
  · exact ⟨t, rfl, h⟩

theorem shows_init : Shows init Server.init := ⟨rfl, rfl⟩

theorem serveAll_shows (h : Shows t s) (pkts : List (BootstrapPkt × Nat)) :
    ∃ t', t.serveAll pkts = some t' ∧ Shows t' (Server.serveAll s pkts) := by
  induction pkts generalizing t s with
  | nil => exact ⟨t, rfl, h⟩
  | cons p pkts ih =>
    obtain ⟨t', ht', h'⟩ := serve_shows h p.1 p.2
    obtain ⟨t'', ht'', h''⟩ := ih h'
    refine ⟨t'', ?_, h''⟩
    rw [serveAll, List.foldlM_cons, ht']
    exact ht''

end

/-! ## One root -/

/-- At most one entry has level 1. -/
def OneRoot (nodes : List BootstrapEntry) : Prop := nodes.countP (fun e => e.level == 1) ≤ 1

section
variable {s : Server} {addr : AddrSock}

theorem oneRoot_of_findRootEntry (h : s.findRootEntry = none) :
    s.addrMap.nodes.countP (fun e => e.level == 1) = 0 := by
  rw [List.countP_eq_zero]
  exact List.find?_eq_none.1 h

/-- One entry has the address, at most. -/
theorem countP_addr_le (s : Server) (addr : AddrSock) :
    s.addrMap.nodes.countP (fun e => isEqualAddrSock e.addr addr) ≤ 1 := by
  rw [List.countP_eq_length_filter]
  cases hc : s.addrMap.contains addr with
  | true =>
    obtain ⟨e, he, ha⟩ := List.any_eq_true.1 hc
    rw [KeyList.filter_eq_singleton he ha]
    exact Nat.le_refl 1
  | false =>
    have hno : ∀ e ∈ s.addrMap.nodes, isEqualAddrSock e.addr addr = false := by
      simpa [KeyList.contains] using hc
    rw [List.filter_eq_nil_iff.2 fun e he => by rw [hno e he]; decide]
    exact Nat.zero_le 1

theorem oneRoot_setLevel {level : UInt32} (h : OneRoot s.addrMap.nodes)
    (hlevel : level = 1 → s.findRootEntry = none) : OneRoot (s.setLevel addr level).addrMap.nodes := by
  have hcount : (s.setLevel addr level).addrMap.nodes.countP (fun e => e.level == 1) =
      s.addrMap.nodes.countP fun e =>
        (if isEqualAddrSock e.addr addr then { e with level } else e).level == 1 :=
    List.countP_map
  rw [OneRoot, hcount]
  by_cases hl : level = 1
  · -- no other entry was a root
    have hzero := List.countP_eq_zero.1 (oneRoot_of_findRootEntry (hlevel hl))
    refine Nat.le_trans (List.countP_mono_left fun e he hroot => ?_) (countP_addr_le s addr)
    by_contra ha
    rw [if_neg ha] at hroot
    exact hzero e he hroot
  · refine Nat.le_trans (List.countP_mono_left fun e he hroot => ?_) h
    split at hroot
    · exact absurd (by simpa using hroot) hl
    · exact hroot

theorem oneRoot_register {level : UInt32} (hp : addr.port ≠ 0) (h : OneRoot s.addrMap.nodes)
    (hlevel : level = 1 → s.findRootEntry = none) :
    OneRoot (s.register addr level hp).addrMap.nodes := by
  cases hc : s.addrMap.contains addr with
  | true =>
    rw [Server.register, dif_pos hc]
    exact oneRoot_setLevel h hlevel
  | false =>
    rw [Server.nodes_register_new hc, OneRoot, List.countP_append]
    by_cases hl : level = 1
    · rw [oneRoot_of_findRootEntry (hlevel hl)]
      simp [hl]
    · rw [OneRoot] at h
      simpa [hl] using h

theorem oneRoot_remove (h : OneRoot s.addrMap.nodes) : OneRoot (s.remove addr).addrMap.nodes := by
  rw [Server.addrMap_remove]
  exact Nat.le_trans (List.eraseP_sublist.countP_le) h

theorem oneRoot_serve (h : OneRoot s.addrMap.nodes) (pkt : BootstrapPkt) (rand : Nat) :
    OneRoot (s.serve pkt rand).1.addrMap.nodes := by
  unfold Server.serve
  split
  · exact oneRoot_setLevel h fun hl => absurd hl (by decide)
  split
  · split
    · exact h
    · split
      · exact h
      · rename_i hp hroot
        refine oneRoot_register hp h fun hl => ?_
        have hl : pkt.level = 1 := by
          rw [← UInt32.toNat_inj, UInt16.toNat_toUInt32] at hl
          exact UInt16.toNat_inj.1 hl
        simpa [hl] using hroot
  split
  · split
    · exact h
    · exact oneRoot_remove h
  split
  · exact oneRoot_remove h
  · exact h

theorem oneRoot_serveAll (h : OneRoot s.addrMap.nodes) (pkts : List (BootstrapPkt × Nat)) :
    OneRoot (Server.serveAll s pkts).addrMap.nodes := by
  induction pkts generalizing s with
  | nil => exact h
  | cons p pkts ih => exact ih (oneRoot_serve h p.1 p.2)

end

/-! ## The invariant -/

/-- What holds of the table in every state. -/
structure Valid (t : Table) : Prop where
  count : t.addrCount = t.addrMap.length
  distinct : t.addrMap.Pairwise fun a b => isEqualAddrSock a.addr b.addr = false
  ports : ∀ e ∈ t.addrMap, e.addr.port ≠ 0
  root : OneRoot t.addrMap

/-- `FTBNI_util_find_parent_addr` divides by a count that is not 0, each turn of its counted loop is
at an entry, and it returns. -/
structure Searches (t : Table) : Prop where
  divides : ∀ rand : Nat, t.addrCount ≠ 0 → ∃ x : Nat, remainder rand t.addrCount = some (x : Int) ∧
    ∀ i ≤ x, (Ring.next t.addrMap)^[i] 0 < t.addrMap.length
  returns : ∀ pkt rand, ∃ entry, t.findParentAddr pkt rand = some entry

/-- **After every sequence of packets the table is valid, and the search in it, before and after a
parent is crossed out, stays on its entries.** -/
theorem table_invariant (pkts : List (BootstrapPkt × Nat)) :
    ∃ t, init.serveAll pkts = some t ∧ t.Valid ∧ t.Searches ∧
      ∀ pkt, (t.crossOutParentEntry pkt).Valid ∧ (t.crossOutParentEntry pkt).Searches := by
  have hall : ∀ {t : Table} {s : Server}, Shows t s → OneRoot s.addrMap.nodes →
      t.Valid ∧ t.Searches := by
    intro t s h hroot
    refine ⟨⟨?_, ?_, ?_, ?_⟩, fun rand hc => ?_, fun pkt rand => ⟨_, h.findParentAddr⟩⟩
    · rw [h.addrCount, h.addrMap, s.count_eq]
    · rw [h.addrMap]
      exact s.addrMap.distinct
    · rw [h.addrMap]
      exact s.ports
    · rwa [h.addrMap]
    · obtain ⟨hrem, hle⟩ := h.turns hc rand
      refine ⟨_, hrem, fun i hi => ?_⟩
      rw [Ring.iterate_next (by omega)]
      omega
  obtain ⟨t, ht, hshows⟩ := serveAll_shows shows_init pkts
  have hroot := oneRoot_serveAll (s := Server.init) (Nat.zero_le 1) pkts
  obtain ⟨hvalid, hsearches⟩ := hall hshows hroot
  exact ⟨t, ht, hvalid, hsearches,
    fun pkt => hall hshows.crossOutParentEntry (oneRoot_setLevel hroot fun hl => absurd hl (by decide))⟩

end Table

end FTBNI
