import Ftb.Bootstrap.Proof.Server
import Ftb.Tcp.Connect

/-!
# The pool of parents of one agent

What an agent in `FTBN_Connect` can be offered, counted. A failed attempt takes at most two entries
away: the report removes the entry that the unset field of its packet names, and the next request
crosses out the parent that failed, but under port 2 (`fail`). So an agent loops for ever exactly
when a dead parent of another port stays in the pool, or the pool can run empty where the agent cannot
become the root either (`Endless`).
-/

open FTB FTBN FTBNI

namespace FTBNI.Server

/-! ## Counting -/

/-- The number of entries that pass a test. -/
def count (s : Server) (p : BootstrapEntry → Bool) : Nat := s.addrMap.nodes.countP p

/-- The entry of an address passes the test. -/
def holds (s : Server) (a : AddrSock) (p : BootstrapEntry → Bool) : Bool :=
  (s.addrMap.find? a).any p

theorem count_pos {s : Server} {p : BootstrapEntry → Bool} :
    0 < s.count p ↔ ∃ e ∈ s.addrMap.nodes, p e = true :=
  List.countP_pos_iff

theorem count_eq_zero {s : Server} {p : BootstrapEntry → Bool} :
    s.count p = 0 ↔ ∀ e ∈ s.addrMap.nodes, p e = false := by
  simp [count, List.countP_eq_zero]

theorem holds_of_mem {s : Server} {e : BootstrapEntry} (he : e ∈ s.addrMap.nodes)
    (p : BootstrapEntry → Bool) : s.holds e.addr p = p e := by
  rw [holds, KeyList.find?_of_mem he]
  rfl

theorem find?_of_port {s : Server} {a : AddrSock} (h : a.port = 0) : s.addrMap.find? a = none :=
  KeyList.find?_eq_none.2 fun e he => Bool.eq_false_iff.2 fun heq =>
    s.ports e he ((port_eq_of_isEqualAddrSock heq).trans h)

theorem remove_of_port {s : Server} {a : AddrSock} (h : a.port = 0) : s.remove a = s :=
  remove_of_not_contains (KeyList.contains_eq_false (find?_of_port h))

theorem setLevel_of_port {s : Server} {a : AddrSock} (h : a.port = 0) (level : UInt32) :
    s.setLevel a level = s := by
  apply ext_addrMap
  apply KeyList.ext_nodes
  have hn := KeyList.find?_eq_none.1 (find?_of_port (s := s) h)
  show s.addrMap.nodes.map _ = _
  rw [List.map_congr_left (g := id) fun e he => by rw [hn e he]; rfl, List.map_id]

theorem count_remove (s : Server) (a : AddrSock) (p : BootstrapEntry → Bool) :
    s.count p = (s.remove a).count p + if s.holds a p = true then 1 else 0 := by
  simp only [count, holds, addrMap_remove]
  exact KeyList.countP_erase s.addrMap a p

/-- For a test that a crossed-out entry fails, crossing out is as good as removing. -/
theorem count_crossOut (s : Server) (a : AddrSock) {p : BootstrapEntry → Bool}
    (hp : ∀ e, e.level = crossedOut → p e = false) :
    (s.setLevel a crossedOut).count p = (s.remove a).count p := by
  simp only [count, addrMap_remove, KeyList.nodes_erase]
  show (s.addrMap.nodes.map _).countP p = _
  rw [List.countP_map, List.countP_filter]
  congr 1
  funext e
  simp only [Function.comp_apply]
  split
  · rename_i ha
    rw [hp _ rfl, ha]
    simp
  · rename_i ha
    simp [ha]

/-- A failed attempt at `a`: the report removes the entry of `junk`, and the next request crosses
out `a` under port 2. -/
def fail (s : Server) (junk a : AddrSock) : Server :=
  (s.remove junk).setLevel { a with port := 2 } crossedOut

section
variable {s : Server} {junk a : AddrSock} {p : BootstrapEntry → Bool}

theorem count_fail (s : Server) (junk a : AddrSock)
    (hp : ∀ e, e.level = crossedOut → p e = false) :
    s.count p = (s.fail junk a).count p + (if s.holds junk p = true then 1 else 0) +
      if (s.remove junk).holds { a with port := 2 } p = true then 1 else 0 := by
  rw [count_remove s junk p, count_remove (s.remove junk) { a with port := 2 } p, fail,
    count_crossOut _ _ hp]
  omega

theorem holds_remove (s : Server) (a b : AddrSock) (p : BootstrapEntry → Bool) :
    (s.remove a).holds b p = (!isEqualAddrSock a b && s.holds b p) := by
  simp only [holds, addrMap_remove, KeyList.find?_erase]
  split <;> simp_all

theorem fail_le (s : Server) (junk a : AddrSock) (hp : ∀ e, e.level = crossedOut → p e = false) :
    (s.fail junk a).count p ≤ s.count p := by
  have := count_fail s junk a hp
  omega

/-- The entry that failed is dead under port 2: it is gone, and one more at most. -/
theorem fail_crossable {e : BootstrapEntry} (junk : AddrSock) (he : e ∈ s.addrMap.nodes) (h2 : e.addr.port = 2)
    (hp : ∀ e, e.level = crossedOut → p e = false) :
    (p e = true → (s.fail junk e.addr).count p < s.count p) ∧
      (p e = false → s.count p ≤ (s.fail junk e.addr).count p + 1) := by
  have haddr : ({ e.addr with port := 2 } : AddrSock) = e.addr := by rw [← h2]
  have hc := count_fail s junk e.addr hp
  rw [haddr, holds_remove, holds_of_mem he] at hc
  refine ⟨fun ht => ?_, fun hf => ?_⟩
  · by_cases hj : isEqualAddrSock junk e.addr = true
    · have hh : s.holds junk p = true := by
        rw [holds, KeyList.find?_congr hj, ← holds, holds_of_mem he, ht]
      simp only [hh, if_true] at hc
      omega
    · simp only [Bool.eq_false_iff.2 hj, ht, Bool.not_false, Bool.and_self, if_true] at hc
      omega
  · simp only [hf, Bool.and_false, Bool.false_eq_true, if_false] at hc
    split at hc <;> omega

/-- A report can remove any other entry. -/
theorem fail_other {e f : BootstrapEntry} (he : e ∈ s.addrMap.nodes) (hf : f ∈ s.addrMap.nodes)
    (hne : e ≠ f) (h2 : e.addr.port = 2) (hp : ∀ e, e.level = crossedOut → p e = false) :
    s.count p = (s.fail f.addr e.addr).count p + (if p f = true then 1 else 0) +
      if p e = true then 1 else 0 := by
  have haddr : ({ e.addr with port := 2 } : AddrSock) = e.addr := by rw [← h2]
  have hfe : isEqualAddrSock f.addr e.addr = false :=
    Bool.eq_false_iff.2 fun h => hne (KeyList.eq_of_mem hf he h).symm
  rw [count_fail s f.addr e.addr hp, haddr, holds_remove, holds_of_mem he, holds_of_mem hf, hfe]
  simp

/-- A report can remove nothing. -/
theorem fail_nothing {e : BootstrapEntry} (he : e ∈ s.addrMap.nodes) (h2 : e.addr.port = 2)
    (hp : ∀ e, e.level = crossedOut → p e = false) :
    s.count p = (s.fail ⟨[], 0⟩ e.addr).count p + if p e = true then 1 else 0 := by
  have haddr : ({ e.addr with port := 2 } : AddrSock) = e.addr := by rw [← h2]
  rw [count_fail s ⟨[], 0⟩ e.addr hp, haddr, remove_of_port rfl, holds_of_mem he]
  simp [holds, find?_of_port]

/-- A dead parent of another port than 2 stays. -/
theorem mem_fail_nothing {e : BootstrapEntry} (he : e ∈ s.addrMap.nodes) (h2 : e.addr.port ≠ 2) :
    e ∈ (s.fail ⟨[], 0⟩ e.addr).addrMap.nodes := by
  rw [fail, remove_of_port rfl]
  refine mem_setLevel.2 ⟨e, he, if_neg fun h => h2 ?_⟩
  rw [port_eq_of_isEqualAddrSock h]

end

end FTBNI.Server

namespace FTBN

open Server

/-! ## The pool -/

section
variable (accepts : AddrSock → Bool) (leaf : Bool) (me : AddrSock)

/-- The server may offer the entry to an agent at this level. -/
def eligible (level : UInt16) (e : BootstrapEntry) : Bool :=
  suitable (Bootstrap.parentRequest me level ⟨[], 0⟩) e

/-- It would accept the connection. -/
def willing (level : UInt16) (e : BootstrapEntry) : Bool := eligible me level e && accepts e.addr

/-- It is dead, and is crossed out once it has been tried. -/
def crossable (level : UInt16) (e : BootstrapEntry) : Bool :=
  eligible me level e && !accepts e.addr && e.addr.port == 2

/-- It is dead, and is offered again. -/
def deadEnd (level : UInt16) (e : BootstrapEntry) : Bool :=
  eligible me level e && !accepts e.addr && e.addr.port != 2

def isRoot (e : BootstrapEntry) : Bool := e.level == 1

/-- The agent's own entry, as a root: never offered to it, and no other root can register. -/
def ownRoot (e : BootstrapEntry) : Bool := isEqualAddrSock me e.addr && isRoot e

/-- The process gets an answer on the way to the root: a leaf does not ask, and the server ignores a
registration without a port. -/
def Asks : Prop := leaf = true ∨ me.port ≠ 0

/-- Whatever fails, the process cannot become the root. -/
def Stuck (s : Server) : Prop := leaf = true ∨ 0 < s.count (ownRoot me)

/-- The pool can run empty: for each willing parent there is a dead one whose report removes it. -/
def Drains (s : Server) (level : UInt16) : Prop :=
  s.count (willing accepts me level) ≤ s.count (crossable accepts me level)

def HasDeadEnd (s : Server) (level : UInt16) : Prop := 0 < s.count (deadEnd accepts me level)

/-- The loop may go on for ever, for a server that has crossed out the last parent: a dead end is
offered, or the pool runs empty, the registration as root is refused, and the whole table, offered
at the initial level, has a dead end or runs empty too. -/
def Endless (s : Server) (level : UInt16) : Prop :=
  HasDeadEnd accepts me s level ∨ (Asks leaf me ∧ Drains accepts me s level ∧
    ((Stuck leaf me s ∧ (HasDeadEnd accepts me s initialLevel ∨ Drains accepts me s initialLevel)) ∨
      (level ≤ 1 ∧ 0 < s.count isRoot ∧ HasDeadEnd accepts me s initialLevel)))

end

section
variable {accepts : AddrSock → Bool} {leaf : Bool} {me : AddrSock} {s : Server} {level : UInt16}
  {e : BootstrapEntry}

theorem eligible_iff : eligible me level e = true ↔
    e.level < level.toUInt32 ∧ isEqualAddrSock me e.addr = false := by
  have hlt : e.level < level.toUInt32 → e.level ≠ crossedOut := fun h heq => by
    have h16 := level.toNat_lt
    rw [heq, UInt32.lt_iff_toNat_lt, UInt16.toNat_toUInt32] at h
    simp only [crossedOut] at h
    exact absurd h (by simp; omega)
  simp only [eligible, suitable, Bootstrap.parentRequest, isEqualAddrSock, Bool.and_eq_true,
    bne_iff_ne, Bool.or_eq_true, Bool.not_eq_true', Bool.and_eq_false_iff, beq_eq_false_iff_ne]
  exact ⟨fun h => ⟨of_decide_eq_true h.1.1, h.2⟩,
    fun h => ⟨⟨decide_eq_true h.1, hlt h.1⟩, h.2⟩⟩

/-- Whoever is offered at some level is offered at the initial one. -/
theorem eligible_initial (h : eligible me level e = true) : eligible me initialLevel e = true := by
  obtain ⟨hl, hme⟩ := eligible_iff.1 h
  refine eligible_iff.2 ⟨?_, hme⟩
  have h16 := level.toNat_lt
  rw [UInt32.lt_iff_toNat_lt, UInt16.toNat_toUInt32] at hl ⊢
  have : initialLevel.toNat = 65535 := rfl
  omega

theorem eligible_crossed (h : e.level = crossedOut) : eligible me level e = false := by
  rw [Bool.eq_false_iff]
  intro he
  have h16 := level.toNat_lt
  have hl := (eligible_iff.1 he).1
  rw [h, UInt32.lt_iff_toNat_lt, UInt16.toNat_toUInt32] at hl
  have : crossedOut.toNat = 4294967295 := rfl
  omega

variable (accepts me level) in
theorem willing_crossed (e : BootstrapEntry) (h : e.level = crossedOut) :
    willing accepts me level e = false := by
  simp [willing, eligible_crossed h]

variable (accepts me level) in
theorem crossable_crossed (e : BootstrapEntry) (h : e.level = crossedOut) :
    crossable accepts me level e = false := by
  simp [crossable, eligible_crossed h]

variable (accepts me level) in
theorem deadEnd_crossed (e : BootstrapEntry) (h : e.level = crossedOut) :
    deadEnd accepts me level e = false := by
  simp [deadEnd, eligible_crossed h]

theorem isRoot_crossed (e : BootstrapEntry) (h : e.level = crossedOut) : isRoot e = false := by
  rw [isRoot, h]; rfl

theorem ownRoot_crossed (e : BootstrapEntry) (h : e.level = crossedOut) :
    ownRoot me e = false := by
  rw [ownRoot, isRoot_crossed e h, Bool.and_false]

variable (accepts) in
/-- Every entry that may be offered is of one of the three kinds. -/
theorem eligible_cases (h : eligible me level e = true) :
    willing accepts me level e = true ∨ crossable accepts me level e = true ∨
      deadEnd accepts me level e = true := by
  by_cases ha : accepts e.addr = true
  · exact .inl (by simp [willing, h, ha])
  · by_cases h2 : e.addr.port = 2
    · exact .inr (.inl (by simp [crossable, h, ha, h2]))
    · exact .inr (.inr (by simp [deadEnd, h, ha, h2]))

theorem ownRoot_of_eligible (h : eligible me level e = true) : ownRoot me e = false := by
  rw [ownRoot, (eligible_iff.1 h).2, Bool.false_and]

/-- A root that is not the agent itself is offered above level 1. -/
theorem eligible_of_isRoot (hr : isRoot e = true) (ho : ownRoot me e = false)
    (hl : 1 < level) : eligible me level e = true := by
  have hr' : e.level = 1 := by simpa [isRoot] using hr
  refine eligible_iff.2 ⟨?_, by simpa [ownRoot, hr] using ho⟩
  rw [hr', UInt32.lt_iff_toNat_lt, UInt16.toNat_toUInt32]
  exact UInt16.lt_iff_toNat_lt.1 hl

theorem not_isRoot_of_eligible (h : eligible me level e = true) (hl : level ≤ 1) :
    isRoot e = false := by
  have he := (eligible_iff.1 h).1
  rw [UInt32.lt_iff_toNat_lt, UInt16.toNat_toUInt32] at he
  have hl' := UInt16.le_iff_toNat_le.1 hl
  rw [isRoot, Bool.eq_false_iff]
  intro hr
  rw [beq_iff_eq.1 hr] at he
  simp at he hl'
  omega

theorem findRootEntry_isSome : s.findRootEntry.isSome = true ↔ 0 < s.count isRoot := by
  rw [count_pos, findRootEntry, List.find?_isSome]
  rfl

theorem crossable_iff : crossable accepts me level e = true ↔
    eligible me level e = true ∧ accepts e.addr = false ∧ e.addr.port = 2 := by
  simp [crossable, and_assoc]

theorem deadEnd_iff : deadEnd accepts me level e = true ↔
    eligible me level e = true ∧ accepts e.addr = false ∧ e.addr.port ≠ 2 := by
  simp [deadEnd, and_assoc]

theorem willing_iff : willing accepts me level e = true ↔
    eligible me level e = true ∧ accepts e.addr = true := by
  simp [willing]

/-- A pool with none of the three kinds is empty. -/
theorem pool_empty (hd : ¬HasDeadEnd accepts me s level)
    (hc : ¬0 < s.count (crossable accepts me level)) (hw : ¬0 < s.count (willing accepts me level)) :
    ∀ e ∈ s.addrMap.nodes, eligible me level e = false := by
  intro e he
  rw [Bool.eq_false_iff]
  intro h
  rcases eligible_cases accepts h with h | h | h
  · exact hw (count_pos.2 ⟨e, he, h⟩)
  · exact hc (count_pos.2 ⟨e, he, h⟩)
  · exact hd (count_pos.2 ⟨e, he, h⟩)

/-! ## A failed attempt, as the agent would have it for ever -/

section
variable {f : BootstrapEntry} {l : UInt16} (he : e ∈ s.addrMap.nodes)
  (hc : crossable accepts me level e = true)

include he hc

/-- What is neither the parent that failed nor removed with it stays. -/
theorem count_fail_other (hf : f ∈ s.addrMap.nodes) (hw : willing accepts me l f = true)
    {p : BootstrapEntry → Bool} (hp : ∀ e, e.level = crossedOut → p e = false) :
    s.count p = (s.fail f.addr e.addr).count p + (if p f = true then 1 else 0) +
      if p e = true then 1 else 0 := by
  have ⟨_, ha, h2⟩ := crossable_iff.1 hc
  refine fail_other he hf ?_ h2 hp
  rintro rfl
  rw [(willing_iff.1 hw).2] at ha
  cases ha

theorem drains_fail_other (hf : f ∈ s.addrMap.nodes) (hw : willing accepts me l f = true)
    (hd : Drains accepts me s l) : Drains accepts me (s.fail f.addr e.addr) l := by
  have h1 := count_fail_other he hc hf hw (willing_crossed accepts me l)
  have h2 := count_fail_other he hc hf hw (crossable_crossed accepts me l)
  have hcf : crossable accepts me l f = false := by
    simp [crossable, (willing_iff.1 hw).2]
  simp only [hw, hcf, if_true, Bool.false_eq_true, if_false] at h1 h2
  unfold Drains at *
  split at h2 <;> omega

omit he hc in
theorem drains_of_zero {junk a : AddrSock} (h : s.count (willing accepts me l) = 0) :
    Drains accepts me (s.fail junk a) l := by
  have := fail_le s junk a
    (willing_crossed accepts me l)
  unfold Drains
  omega

/-- The report removes a willing parent, if there is one, and nothing that is not willing. -/
theorem exists_drains (l : UInt16) : ∃ junk,
    (Drains accepts me s l → Drains accepts me (s.fail junk e.addr) l) ∧
    ∀ p : BootstrapEntry → Bool, (∀ e, e.level = crossedOut → p e = false) → p e = false →
      (∀ f, willing accepts me l f = true → p f = false) →
        s.count p = (s.fail junk e.addr).count p := by
  by_cases hw : 0 < s.count (willing accepts me l)
  · obtain ⟨f, hf, hwf⟩ := count_pos.1 hw
    refine ⟨f.addr, drains_fail_other he hc hf hwf, fun p hp hpe hpf => ?_⟩
    rw [count_fail_other he hc hf hwf hp, hpe, hpf f hwf]
    simp
  · refine ⟨⟨[], 0⟩, fun _ => drains_of_zero (by omega), fun p hp hpe _ => ?_⟩
    rw [fail_nothing he (crossable_iff.1 hc).2.2 hp, hpe]
    simp

omit he in
theorem deadEnd_of_crossable : deadEnd accepts me l e = false := by
  simp [deadEnd, (crossable_iff.1 hc).2.2]

omit he hc in
theorem deadEnd_of_willing {l' : UInt16} (h : willing accepts me l f = true) :
    deadEnd accepts me l' f = false := by
  simp [deadEnd, (willing_iff.1 h).2]

omit he hc in
theorem ownRoot_of_willing (h : willing accepts me l f = true) : ownRoot me f = false :=
  ownRoot_of_eligible (willing_iff.1 h).1

/-- What a process that cannot become the root needs to go on for ever. -/
theorem endless_fail_stuck (ha : Asks leaf me) (hd : Drains accepts me s level)
    (hs : Stuck leaf me s)
    (hi : HasDeadEnd accepts me s initialLevel ∨ Drains accepts me s initialLevel) :
    ∃ junk, Endless accepts leaf me (s.fail junk e.addr) level := by
  have hoe : ownRoot me e = false := ownRoot_of_eligible (crossable_iff.1 hc).1
  -- the willing parent to remove: one of this level while there is one
  obtain ⟨l, hl, hdl⟩ : ∃ l, (∀ f, willing accepts me l f = true →
      willing accepts me initialLevel f = true) ∧
      (l = level ∧ 0 < s.count (willing accepts me level) ∨
        l = initialLevel ∧ s.count (willing accepts me level) = 0) := by
    by_cases hw : 0 < s.count (willing accepts me level)
    · exact ⟨level, fun f hf => willing_iff.2
        ⟨eligible_initial (willing_iff.1 hf).1, (willing_iff.1 hf).2⟩, .inl ⟨rfl, hw⟩⟩
    · exact ⟨initialLevel, fun f hf => hf, .inr ⟨rfl, by omega⟩⟩
  rcases hdl with ⟨rfl, hw⟩ | ⟨rfl, hw⟩
  · obtain ⟨f, hf, hwf⟩ := count_pos.1 hw
    have same : ∀ p : BootstrapEntry → Bool, (∀ e, e.level = crossedOut → p e = false) →
        p e = false → p f = false → s.count p = (s.fail f.addr e.addr).count p := by
      intro p hp hpe hpf
      rw [count_fail_other he hc hf hwf hp, hpe, hpf]
      simp
    refine ⟨f.addr, .inr ⟨ha, drains_fail_other he hc hf hwf hd, .inl ⟨hs.imp_right fun h => ?_,
      hi.imp (fun h => ?_) (drains_fail_other he hc hf (hl f hwf))⟩⟩⟩
    · rwa [← same _ ownRoot_crossed hoe (ownRoot_of_willing hwf)]
    · unfold HasDeadEnd
      rwa [← same _ (deadEnd_crossed _ _ _) (deadEnd_of_crossable hc) (deadEnd_of_willing hwf)]
  · obtain ⟨junk, hdi, same⟩ := exists_drains he hc initialLevel
    refine ⟨junk, .inr ⟨ha, drains_of_zero hw, .inl ⟨hs.imp_right fun h => ?_,
      hi.imp (fun h => ?_) hdi⟩⟩⟩
    · rwa [← same _ ownRoot_crossed hoe fun _ => ownRoot_of_willing]
    · unfold HasDeadEnd
      rwa [← same _ (deadEnd_crossed _ _ _) (deadEnd_of_crossable hc) fun _ => deadEnd_of_willing]

/-- What an agent at the top needs. -/
theorem endless_fail_top (ha : Asks leaf me) (hd : Drains accepts me s level) (hl : level ≤ 1)
    (hr : 0 < s.count isRoot) (hi : HasDeadEnd accepts me s initialLevel) :
    ∃ junk, Endless accepts leaf me (s.fail junk e.addr) level := by
  obtain ⟨junk, hdl, same⟩ := exists_drains he hc level
  refine ⟨junk, .inr ⟨ha, hdl hd, .inr ⟨hl, ?_, ?_⟩⟩⟩
  · rwa [← same _ isRoot_crossed (not_isRoot_of_eligible (crossable_iff.1 hc).1 hl)
      fun f hf => not_isRoot_of_eligible (willing_iff.1 hf).1 hl]
  · unfold HasDeadEnd
    rwa [← same _ (deadEnd_crossed _ _ _) (deadEnd_of_crossable hc) fun _ => deadEnd_of_willing]

end

/-- One turn of an endless loop: an offer that fails, or a refused registration. -/
theorem Endless.turn (h : Endless accepts leaf me s level) :
    (∃ e ∈ s.addrMap.nodes, eligible me level e = true ∧ accepts e.addr = false ∧
      ∃ junk, Endless accepts leaf me (s.fail junk e.addr) level) ∨
    ((∀ e ∈ s.addrMap.nodes, eligible me level e = false) ∧ Asks leaf me ∧
      (leaf = true ∨ s.findRootEntry.isSome = true) ∧ Endless accepts leaf me s initialLevel) := by
  by_cases hd : HasDeadEnd accepts me s level
  · obtain ⟨e, he, hde⟩ := count_pos.1 hd
    obtain ⟨hel, hac, h2⟩ := deadEnd_iff.1 hde
    exact .inl ⟨e, he, hel, hac, ⟨[], 0⟩, .inl (count_pos.2 ⟨e, mem_fail_nothing he h2, hde⟩)⟩
  obtain ⟨ha, hdr, hor⟩ := h.resolve_left hd
  by_cases hc : 0 < s.count (crossable accepts me level)
  · obtain ⟨e, he, hce⟩ := count_pos.1 hc
    have ⟨hel, hac, _⟩ := crossable_iff.1 hce
    refine .inl ⟨e, he, hel, hac, ?_⟩
    rcases hor with ⟨hs, hi⟩ | ⟨hl, hr, hi⟩
    · exact endless_fail_stuck he hce ha hdr hs hi
    · exact endless_fail_top he hce ha hdr hl hr hi
  · have hw : ¬0 < s.count (willing accepts me level) := fun hw => hc (Nat.lt_of_lt_of_le hw hdr)
    refine .inr ⟨pool_empty hd hc hw, ha, ?_⟩
    rcases hor with ⟨hs, hi⟩ | ⟨-, hr, hi⟩
    · refine ⟨hs.imp_right fun h => ?_, hi.imp_right fun h => ⟨ha, h, .inl ⟨hs, .inr h⟩⟩⟩
      obtain ⟨e, he, ho⟩ := count_pos.1 h
      rw [ownRoot, Bool.and_eq_true] at ho
      exact findRootEntry_isSome.2 (count_pos.2 ⟨e, he, ho.2⟩)
    · exact ⟨.inr (findRootEntry_isSome.2 hr), .inl hi⟩

/-! ## A failed attempt, where the loop ends -/

/-- An entry that is not crossed out. -/
def live (e : BootstrapEntry) : Bool := e.level != crossedOut

theorem live_of_eligible (h : eligible me level e = true) : live e = true := by
  rw [live, bne_iff_ne]
  intro hl
  rw [eligible_crossed hl] at h
  cases h

theorem drains_of_fail {junk : AddrSock} (he : e ∈ s.addrMap.nodes)
    (hc : crossable accepts me level e = true)
    (hd : Drains accepts me (s.fail junk e.addr) level) : Drains accepts me s level := by
  obtain ⟨-, hac, h2⟩ := crossable_iff.1 hc
  have hw := (fail_crossable junk he h2
    (willing_crossed accepts me level)).2 (by simp [willing, hac])
  have hx := (fail_crossable junk he h2
    (crossable_crossed accepts me level)).1 hc
  unfold Drains at *
  omega

/-- A failed attempt cannot make the loop endless, and there are fewer entries to try. -/
theorem not_endless_fail (h : ¬Endless accepts leaf me s level) (he : e ∈ s.addrMap.nodes)
    (hel : eligible me level e = true) (hac : accepts e.addr = false) (junk : AddrSock) :
    ¬Endless accepts leaf me (s.fail junk e.addr) level ∧
      (s.fail junk e.addr).count live < s.count live := by
  have hnd : ¬HasDeadEnd accepts me s level := fun hd => h (.inl hd)
  have h2 : e.addr.port = 2 := by
    by_contra h2
    exact hnd (count_pos.2 ⟨e, he, deadEnd_iff.2 ⟨hel, hac, h2⟩⟩)
  have hc : ∀ {l}, eligible me l e = true → crossable accepts me l e = true := fun hl =>
    crossable_iff.2 ⟨hl, hac, h2⟩
  have less : ∀ {p : BootstrapEntry → Bool}, (∀ e, e.level = crossedOut → p e = false) →
      0 < (s.fail junk e.addr).count p → 0 < s.count p := fun hp h0 =>
    Nat.lt_of_lt_of_le h0 (fail_le s junk e.addr hp)
  refine ⟨?_, (fail_crossable junk he h2 fun _ hx => by simp [live, hx]).1 (live_of_eligible hel)⟩
  rintro (hd | ⟨ha, hdr, ⟨hs, hi⟩ | ⟨hl, hr, hi⟩⟩)
  · exact hnd (less (deadEnd_crossed _ _ _) hd)
  · exact h (.inr ⟨ha, drains_of_fail he (hc hel) hdr, .inl ⟨hs.imp_right (less ownRoot_crossed),
      hi.imp (less (deadEnd_crossed _ _ _)) (drains_of_fail he (hc (eligible_initial hel)))⟩⟩)
  · exact h (.inr ⟨ha, drains_of_fail he (hc hel) hdr, .inr ⟨hl, less isRoot_crossed hr,
      less (deadEnd_crossed _ _ _) hi⟩⟩)

/-- A refused registration neither, and the level was not the initial one before it. -/
theorem not_endless_top (h : ¬Endless accepts leaf me s level)
    (hp : ∀ e ∈ s.addrMap.nodes, eligible me level e = false) (ha : Asks leaf me)
    (hr : leaf = true ∨ s.findRootEntry.isSome = true) :
    ¬Endless accepts leaf me s initialLevel ∧ level ≠ initialLevel := by
  have hd : Drains accepts me s level := by
    have hw : s.count (willing accepts me level) = 0 :=
      count_eq_zero.2 fun e he => by simp [willing, hp e he]
    unfold Drains
    omega
  by_cases hs : Stuck leaf me s
  · have hi : ¬(HasDeadEnd accepts me s initialLevel ∨ Drains accepts me s initialLevel) :=
      fun hi => h (.inr ⟨ha, hd, .inl ⟨hs, hi⟩⟩)
    refine ⟨?_, fun hl => hi (.inr (hl ▸ hd))⟩
    rintro (h | ⟨-, h, -⟩)
    · exact hi (.inl h)
    · exact hi (.inr h)
  · -- the root that refuses the registration is another process, not offered: the level is at most 1
    have hr' := hr.resolve_left fun hl => hs (.inl hl)
    obtain ⟨e, he, hre⟩ := count_pos.1 (findRootEntry_isSome.1 hr')
    have hown : ownRoot me e = false :=
      Bool.eq_false_iff.2 fun ho => hs (.inr (count_pos.2 ⟨e, he, ho⟩))
    have hle : level ≤ 1 := by
      by_contra hl
      have := eligible_of_isRoot hre hown (UInt16.not_le.1 hl)
      rw [hp e he] at this
      cases this
    have hi : ¬HasDeadEnd accepts me s initialLevel := fun hi =>
      h (.inr ⟨ha, hd, .inr ⟨hle, findRootEntry_isSome.1 hr', hi⟩⟩)
    refine ⟨?_, fun hl => absurd (hl ▸ hle) (by decide)⟩
    rintro (h | ⟨-, -, ⟨h, -⟩ | ⟨-, -, h⟩⟩)
    · exact hi h
    · exact hs h
    · exact hi h

end

end FTBN
