import Ftb.Manager.Proof.Image
import Ftb.Manager.Dispatch

/-!
# The image follows the tables

`Follows lost scratch m a`: the image `a` holds the tables of the manager `m` and nothing else but
`lost` empty maps and the blocks `scratch` of a call, and its network is in the same state. One
theorem a function: from images that follow, it leaves images that follow.
-/

open FTB FTBU FTBN FTBMI Layout

namespace FTBM.Memory

variable {N : Type} {w : Network N} {A : Allocator Block}

/-- The image holds the tables of `s` at the addresses `L`, and `lost` sets that were lost. -/
structure HoldsAt (L : Owner → Nat) (s : NodeInfo) (lost : Nat) (scratch : Nat → Option Block)
    (a : Image N) : Prop where
  laid : Laid (blocks L s lost scratch) L a.heap
  peers : L (.inr .table) = a.peers
  catchMap : L (.inl .table) = a.catchEventMap
  parent : a.parent = s.parent
  self : a.self = s.self
  errHandling : a.errHandling = s.errHandling
  initialized : a.initialized = s.initialized
  lostSets : a.lostSets = (List.range lost).map fun k => L (.inr (.lost k))

def Follows (lost : Nat) (scratch : Nat → Option Block) (m : Manager N) (a : Image N) : Prop :=
  (∃ L, HoldsAt L m.info lost scratch a) ∧ a.net = m.net

/-- The blocks of the call stay at the addresses `place`. -/
def Keeps (place : Nat → Nat) (lost : Nat) (scratch : Nat → Option Block) (m : Manager N)
    (a : Image N) : Prop :=
  (∃ L, HoldsAt L m.info lost scratch a ∧ ∀ k, L (.inr (.scratch k)) = place k) ∧ a.net = m.net

theorem Keeps.follows {place : Nat → Nat} {lost : Nat} {scratch : Nat → Option Block} {m : Manager N}
    {a : Image N} (h : Keeps place lost scratch m a) : Follows lost scratch m a :=
  ⟨h.1.imp fun _ => And.left, h.2⟩

/-- The sets that nothing points to are those that `FTBMI_util_reconnect` wrote down. -/
theorem Follows.length_lostSets {lost : Nat} {scratch : Nat → Option Block} {m : Manager N}
    {a : Image N} (h : Follows lost scratch m a) : a.lostSets.length = lost := by
  obtain ⟨⟨L, hh⟩, -⟩ := h
  rw [hh.lostSets, List.length_map, List.length_range]

section
variable {L : Owner → Nat} {s : NodeInfo} {lost : Nat} {scratch : Nat → Option Block} {a : Image N}

theorem owns_peer (L : Owner → Nat) (lost : Nat) (scratch : Nat → Option Block)
    (hn : Numbered s.peers) {c : CompInfo} (hc : c ∈ s.peers.nodes) :
    Owns (peerBlocks L s.peers lost scratch) L c := by
  have hp : peerOf s.peers c.addr = some c := (peerOf_eq_some hn).2 ⟨hc, rfl⟩
  exact ⟨by simp [peerBlocks, hp], by simp [peerBlocks, hp], fun m => by simp [peerBlocks, hp]⟩

/-- The number of the next component is free. -/
theorem peerOf_next (hi : Inv s) : peerOf s.peers s.nextAddr = none :=
  peerOf_eq_none fun _ hc => Nat.ne_of_lt (hi.fresh _ hc)

theorem reads_of (hn : Numbered s.peers)
    (hheld : AllRefs (fun r => ∃ c ∈ s.peers.nodes, c.ref = r) s.catchEventMap) :
    Reads s.catchEventMap (peerBlocks L s.peers lost scratch) := by
  intro e he r hr
  obtain ⟨c, hc, rfl⟩ := hheld e he r hr
  exact ⟨_, (owns_peer _ _ _ hn hc).comp⟩

theorem reads_tables (L : Owner → Nat) (lost : Nat) (scratch : Nat → Option Block) (hi : Inv s) :
    Reads s.catchEventMap (peerBlocks L s.peers lost scratch) :=
  reads_of hi.addrs hi.held

theorem HoldsAt.sees_of (h : HoldsAt L s lost scratch a) (hn : Numbered s.peers) :
    Sees (catchBlocks L s.catchEventMap) (peerBlocks L s.peers lost scratch) L s a :=
  ⟨h.laid, h.peers, h.catchMap, h.self, rfl, fun _ hc => ⟨_, (owns_peer _ _ _ hn hc).comp⟩⟩

theorem HoldsAt.sees (h : HoldsAt L s lost scratch a) (hi : Inv s) :
    Sees (catchBlocks L s.catchEventMap) (peerBlocks L s.peers lost scratch) L s a :=
  h.sees_of hi.addrs

/-! ## Lookups -/

/-- A search of an id in `peers`. -/
theorem find_peer {C : CatchOwner → Option Block} {Q : PeerOwner → Option Block} {h : Heap Block}
    (hl : Laid (Sum.elim C Q) L h) {peers : Peers}
    (hp : ∀ c ∈ peers.nodes, ∃ set, Q (.comp c.addr) = some (.comp c.id set))
    (eq : Nat → Option Bool) (id : Id)
    (heq : ∀ key k set, compAt h key = some (k, set) → eq key = some (isEqualFtbId k id)) :
    mapFindKey eq (peers.nodes.map fun c => compNode L c.addr) =
      some ((peers.find? id).map fun c => compNode L c.addr) := by
  refine mapFindKey_map (fun c : CompInfo => compNode L c.addr) peers.nodes fun c hc => ?_
  obtain ⟨set, hset⟩ := hp c hc
  exact heq _ _ _ (compAt_of hl (o := (.inr (.comp c.addr) : Owner)) hset)

theorem HoldsAt.table (h : HoldsAt L s lost scratch a) :
    mapAt a.heap a.peers = some (s.peers.nodes.map fun c => compNode L c.addr) := by
  rw [← h.peers]
  exact mapAt_of h.laid rfl

theorem HoldsAt.catches (h : HoldsAt L s lost scratch a) :
    mapAt a.heap a.catchEventMap = some (s.catchEventMap.nodes.map (entryNode L)) := by
  rw [← h.catchMap]
  exact mapAt_of h.laid rfl

theorem HoldsAt.lookup (h : HoldsAt L s lost scratch a) (hi : Inv s) (id : Id) :
    lookupComponent id a = some ((s.peers.find? id).map fun c => L (.inr (.comp c.addr))) := by
  have hf := find_peer h.laid (h.sees hi).comps (idEq a.heap id) id
    fun key k set hk => by simp [idEq, hk]
  rw [lookupComponent, h.table, Option.bind_eq_bind, Option.bind_some, hf]
  cases s.peers.find? id <;> rfl

/-- The lost sets stay where they are. -/
theorem HoldsAt.lostSets_at {L' : Owner → Nat} (h : HoldsAt L s lost scratch a)
    (hL : ∀ k, L' (.inr (.lost k)) = L (.inr (.lost k))) :
    a.lostSets = (List.range lost).map fun k => L' (.inr (.lost k)) :=
  h.lostSets.trans (List.map_congr_left fun k _ => (hL k).symm)

/-! ## A new component -/

theorem newComponent_run {P : Owner → Option Block} {h : Heap Block} (hl : Laid P L h)
    {oc os : Owner} (hc : P oc = none) (hs : P os = none) (hne : oc ≠ os) (id : Id) :
    ∃ comp set h', newComponent A id h = some (comp, set, h') ∧
      Laid (Function.update (Function.update P oc (some (.comp id set))) os (some (.map [])))
        (Function.update (Function.update L oc comp) os set) h' := by
  have h₁ := hl.malloc A hc (.comp id 0)
  have h₂ := h₁.malloc A (o := os) (by rw [Function.update_of_ne hne.symm, hs]) (.map [])
  have hblock : Function.update (Function.update P oc (some (Block.comp id 0))) os
      (some (.map [])) oc = some (.comp id 0) := by
    rw [Function.update_of_ne hne, Function.update_self]
  obtain ⟨h', hstore, h₃⟩ := h₂.store hblock (.comp id _)
  rw [Function.update_of_ne hne, Function.update_self] at hstore
  rw [Function.update_comm hne, Function.update_idem, Function.update_comm hne.symm] at h₃
  refine ⟨_, _, h', ?_, h₃⟩
  simp only [Allocator.malloc] at hstore
  show (Heap.store _ _ _).bind _ = _
  rw [hstore]
  rfl

/-- A component that is allocated beside the tables, with its set for `os`, and its insertion into
`peers`. -/
theorem HoldsAt.allocate (h : HoldsAt L s lost scratch a) (hi : Inv s) (id : Id) {os : PeerOwner}
    (hs : peerBlocks L s.peers lost scratch os = none) (hne : os ≠ .comp s.nextAddr) :
    ∃ comp set h₁ L', newComponent A id a.heap = some (comp, set, h₁) ∧
      L' (.inr (.comp s.nextAddr)) = comp ∧ L' (.inr os) = set ∧ L' (.inr .table) = a.peers ∧
      L' (.inl .table) = a.catchEventMap ∧
      (∀ o, o ≠ .inr (.comp s.nextAddr) → o ≠ .inr os → L' o = L o) ∧
      Laid (Sum.elim (catchBlocks L' s.catchEventMap) (Function.update (Function.update
        (peerBlocks L' s.peers lost scratch) (.comp s.nextAddr) (some (.comp id set))) os
        (some (.map [])))) L' h₁ ∧
      mapAt h₁ a.peers = some (s.peers.nodes.map fun c => compNode L' c.addr) ∧
      mapFindKey (compEq h₁ comp) (s.peers.nodes.map fun c => compNode L' c.addr) =
        some ((s.peers.find? id).map fun c => compNode L' c.addr) := by
  have hnew : ∀ {c}, c ∈ s.peers.nodes → c.addr ≠ s.nextAddr := fun hc => Nat.ne_of_lt (hi.fresh _ hc)
  have hc : blocks L s lost scratch (.inr (.comp s.nextAddr)) = none := by
    simp [blocks, peerBlocks, peerOf_next hi]
  have ht : os ≠ .table := by
    rintro rfl
    cases hs
  obtain ⟨comp, set, h₁, hrun, hl⟩ := newComponent_run (A := A) h.laid hc
    (show blocks L s lost scratch (.inr os) = none from hs) (by simpa using hne.symm) id
  have hb₁ := blocks_update hi.addrs hi.held hc comp
  have hb₂ := blocks_update hi.addrs hi.held (show blocks (Function.update L (.inr (.comp s.nextAddr))
    comp) s lost scratch (.inr os) = none by rw [hb₁]; exact hs) set
  rw [hb₁] at hb₂
  generalize hL : Function.update (Function.update L (.inr (.comp s.nextAddr)) comp) (.inr os) set = L'
    at hl hb₂
  have hcomp : L' (.inr (.comp s.nextAddr)) = comp := by
    rw [← hL, Function.update_of_ne (by simpa using hne.symm), Function.update_self]
  have htable : L' (.inr .table) = a.peers := by
    rw [← hL, Function.update_of_ne (by simpa using ht.symm), Function.update_of_ne (by simp), h.peers]
  have hcatch : L' (.inl .table) = a.catchEventMap := by
    rw [← hL, Function.update_of_ne (by simp), Function.update_of_ne (by simp), h.catchMap]
  have hself : ∀ o, o ≠ .inr (.comp s.nextAddr) → o ≠ .inr os → L' o = L o := fun o ho₁ ho₂ => by
    rw [← hL, Function.update_of_ne ho₂, Function.update_of_ne ho₁]
  rw [← hb₂, blocks, Sum.update_elim_inr, Sum.update_elim_inr] at hl
  have hread : compAt h₁ comp = some (id, set) := by
    rw [← hcomp]
    exact compAt_of hl (o := (.inr (.comp s.nextAddr) : Owner))
      (by simp [Function.update_of_ne hne.symm])
  have hpeers : ∀ c ∈ s.peers.nodes, ∃ set', Function.update (Function.update
      (peerBlocks L' s.peers lost scratch) (.comp s.nextAddr) (some (Block.comp id set))) os
      (some (.map [])) (.comp c.addr) = some (.comp c.id set') := by
    intro c hm
    have hoc := (owns_peer L' lost scratch hi.addrs hm).comp
    have hos : PeerOwner.comp c.addr ≠ os := by
      rintro rfl
      have := (owns_peer L lost scratch hi.addrs hm).comp
      rw [hs] at this
      cases this
    refine ⟨_, (Function.update_of_ne hos ..).trans ((Function.update_of_ne ?_ ..).trans hoc)⟩
    simpa using hnew hm
  refine ⟨comp, set, h₁, L', hrun, hcomp, by rw [← hL, Function.update_self], htable, hcatch, hself, hl, ?_,
    find_peer hl hpeers _ _ fun key k set' hk => by simp [compEq, hk, hread]⟩
  rw [← htable]
  exact mapAt_of hl (o := (.inr .table : Owner)) (by simp [peerBlocks, Function.update_of_ne ht.symm])

/-- A component that is not in `peers` yet. -/
theorem HoldsAt.newPeer (h : HoldsAt L s lost scratch a) (hi : Inv s) {id : Id}
    (hc : s.peers.contains id = false) :
    ∃ comp set h₁ h₂ L', newComponent A id a.heap = some (comp, set, h₁) ∧
      mapInsert (compEq h₁ comp) a.peers ⟨comp, comp⟩ h₁ = some (.success, h₂) ∧
      HoldsAt L' (registerInfo s id) lost scratch { a with heap := h₂ } ∧
      ∀ k, L' (.inr (.scratch k)) = L (.inr (.scratch k)) := by
  have hnew : ∀ c ∈ s.peers.nodes, c.addr ≠ s.nextAddr := fun c hc => Nat.ne_of_lt (hi.fresh _ hc)
  have hs : peerBlocks L s.peers lost scratch (.set s.nextAddr) = none := by
    simp [peerBlocks, peerOf_next hi]
  obtain ⟨comp, set, h₁, L', hrun, hcomp, hset, htable, hcatch, hself, hl, hmap, hfind⟩ :=
    h.allocate (A := A) hi id hs (by simp)
  have hnone : s.peers.find? id = none := by
    rw [KeyList.contains_eq_isSome] at hc
    simpa using hc
  rw [hnone] at hfind
  obtain ⟨h₂, hstore, hl₂⟩ := store_inr hl (o := .table)
    (b := .map (s.peers.nodes.map fun c => compNode L' c.addr)) (by simp [peerBlocks])
    (.map ((s.peers.nodes.map fun c => compNode L' c.addr) ++ [compNode L' s.nextAddr]))
  have hnode : compNode L' s.nextAddr = ⟨comp, comp⟩ := by rw [compNode, hcomp]
  rw [htable, hnode] at hstore
  have heq : peerBlocks L' (s.peers.insert ⟨s.nextAddr, id, .empty⟩) lost scratch = _ :=
    peerBlocks_insert hc hnew rfl
  simp only [hset] at heq
  rw [← heq] at hl₂
  exact ⟨comp, set, h₁, h₂, L', hrun, mapInsert_success hmap hfind hstore,
    ⟨hl₂, htable, hcatch, h.parent, h.self, h.errHandling, h.initialized,
      h.lostSets_at fun _ => hself _ (by simp) (by simp)⟩,
    fun _ => hself _ (by simp) (by simp)⟩

/-! ## The subscriptions for a new peer -/

theorem catchesLoop_run {h : Heap Block} (dst : Id) :
    ∀ (ents : List CatchEntry) (a : Image N),
      (∀ e ∈ ents, maskAt a.heap (entryNode L e).key = some e.mask) →
      catchesLoop w dst (ents.map (entryNode L)) a = some { a with
        net := w.sendAll (ents.map fun e =>
          { msgType := .regSubscription, src := a.self, dst, event := e.mask }) a.net }
  | [], _, _ => rfl
  | e :: ents, a, hm => by
    have ih := fun net => catchesLoop_run (h := h) dst ents { a with net } fun x hx =>
      hm x (List.mem_cons_of_mem _ hx)
    rw [List.map_cons, catchesLoop, hm e List.mem_cons_self]
    simp [ih, Network.sendAll]

theorem HoldsAt.sendCatches (h : HoldsAt L s lost scratch a) (dst : Id) :
    sendCatches w dst a = some { a with net := w.sendAll (greetMsgs s dst) a.net } := by
  have hloop := catchesLoop_run (w := w) (h := a.heap) (L := L) dst s.catchEventMap.nodes a fun e he =>
    maskAt_of h.laid (o := (.inl (.key e.mask) : Owner)) (key_block (L := L) he)
  rw [Memory.sendCatches, h.catches, greetMsgs, ← h.self]
  exact hloop

theorem HoldsAt.withNet (h : HoldsAt L s lost scratch a) (net : N) :
    HoldsAt L s lost scratch { a with net } :=
  ⟨h.laid, h.peers, h.catchMap, h.parent, h.self, h.errHandling, h.initialized, h.lostSets⟩

end

end FTBM.Memory
