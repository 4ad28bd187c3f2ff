import Ftb.Manager.Proof.Blocks
import Mathlib.Data.Sum.Basic

/-!
# What the functions do in memory

The functions of `Ftb.Manager.Memory` on the blocks of the tables: the reads and the maps, the
propagation, `utilRemoveComFromCatchMap`, and the clean-up of a component. They are stated for any
blocks beside those of `catch_event_map` (`Sees`), since a clean-up is also run on components that are
half taken down.
-/

open FTB FTBU FTBN FTBMI Layout

namespace FTBM.Memory

/-! ## Reads -/

section
variable {O : Type} {P : O → Option Block} {L : O → Nat} {h : Heap Block} {o : O}

theorem compAt_of (hl : Laid P L h) {id : Id} {set : Nat} (ho : P o = some (.comp id set)) :
    compAt h (L o) = some (id, set) := by
  rw [compAt, hl.read ho]

theorem maskAt_of (hl : Laid P L h) {m : Event} (ho : P o = some (.mask m)) :
    maskAt h (L o) = some m := by
  rw [maskAt, hl.read ho]

theorem mapAt_of (hl : Laid P L h) {nodes : List Node} (ho : P o = some (.map nodes)) :
    mapAt h (L o) = some nodes := by
  rw [mapAt, hl.read ho]

theorem idsAt_of (hl : Laid P L h) {list : List (Option Id)} (ho : P o = some (.ids list)) :
    idsAt h (L o) = some list := by
  rw [idsAt, hl.read ho]

end

/-! ## Maps -/

section
variable {α : Type} (f : α → Node)

/-- A search through nodes whose keys can be read. -/
theorem mapFindKey_map {eq : Nat → Option Bool} {p : α → Bool} :
    ∀ l : List α, (∀ x ∈ l, eq (f x).key = some (p x)) →
      mapFindKey eq (l.map f) = some ((l.find? p).map f)
  | [], _ => rfl
  | x :: l, h => by
    have ih := mapFindKey_map l fun y hy => h y (List.mem_cons_of_mem _ hy)
    rw [List.map_cons, mapFindKey, h x List.mem_cons_self]
    cases hp : p x with
    | true => simp [hp]
    | false => simpa [hp] using ih

/-- The node that a search found is taken out. -/
theorem erase_map {p : α → Bool} {l : List α} {x : α} (hf : l.find? p = some x)
    (hinj : ∀ y ∈ l, f y = f x → y = x) : (l.map f).erase (f x) = (l.eraseP p).map f := by
  induction l with
  | nil => cases hf
  | cons y l ih =>
    cases hp : p y with
    | true =>
      rw [List.find?_cons_of_pos hp] at hf
      cases hf
      rw [List.map_cons, List.erase_cons_head, List.eraseP_cons_of_pos hp]
    | false =>
      rw [List.find?_cons_of_neg (by simp [hp])] at hf
      have hne : (f y == f x) = false := by
        rw [beq_eq_false_iff_ne]
        intro he
        have hyx := hinj y List.mem_cons_self he
        rw [hyx, List.find?_some hf] at hp
        cases hp
      rw [List.map_cons, List.erase_cons_tail (by simp [hne]), List.eraseP_cons_of_neg (by simp [hp]),
        List.map_cons, ih hf fun z hz => hinj z (List.mem_cons_of_mem _ hz)]

end

section
variable {eq : Nat → Option Bool} {head : Nat} {node : Node} {nodes : List Node} {h : Heap Block}

theorem mapInsert_exist (hn : mapAt h head = some nodes) {x : Node}
    (hf : mapFindKey eq nodes = some (some x)) : mapInsert eq head node h = some (.exist, h) := by
  simp [mapInsert, hn, hf]

theorem mapInsert_success (hn : mapAt h head = some nodes) (hf : mapFindKey eq nodes = some none)
    {h' : Heap Block} (hs : h.store head (.map (nodes ++ [node])) = some h') :
    mapInsert eq head node h = some (.success, h') := by
  simp [mapInsert, hn, hf, hs]

theorem mapRemoveKey_none (hn : mapAt h head = some nodes) (hf : mapFindKey eq nodes = some none) :
    mapRemoveKey eq head h = some (.notExist, h) := by
  simp [mapRemoveKey, hn, hf]

theorem mapRemoveKey_some (hn : mapAt h head = some nodes)
    (hf : mapFindKey eq nodes = some (some node)) {h' : Heap Block}
    (hs : h.store head (.map (nodes.erase node)) = some h') :
    mapRemoveKey eq head h = some (.success, h') := by
  simp [mapRemoveKey, mapRemoveNode, hn, hf, hs]

end

variable {N : Type} {w : Network N}

/-! ## Propagation -/

/-- The image sees the peers of `s`: it finds the table of `peers`, and the id of every component in
it. `C` and `Q` are the blocks of `catch_event_map` and the others. -/
structure Sees (C : CatchOwner → Option Block) (Q : PeerOwner → Option Block) (L : Owner → Nat)
    (s : NodeInfo) (a : Image N) : Prop where
  laid : Laid (Sum.elim C Q) L a.heap
  peers : L (.inr .table) = a.peers
  catchMap : L (.inl .table) = a.catchEventMap
  self : a.self = s.self
  table : Q .table = some (.map (s.peers.nodes.map fun c => compNode L c.addr))
  comps : ∀ c ∈ s.peers.nodes, ∃ set, Q (.comp c.addr) = some (.comp c.id set)

section
variable {C : CatchOwner → Option Block} {Q : PeerOwner → Option Block} {L : Owner → Nat}
  {s : NodeInfo} {a : Image N}

theorem propagationLoop_run (t : MsgType) (event : Event) (incoming : LocationId) :
    ∀ (cs : List CompInfo) (a : Image N),
      (∀ c ∈ cs, ∃ set, compAt a.heap (compNode L c.addr).key = some (c.id, set)) →
      propagationLoop w t event incoming (cs.map fun c => compNode L c.addr) a =
        some { a with net := w.sendAll (((cs.map CompInfo.id).filter fun id =>
          isAgent id && !isEqualLocationId id.locationId incoming).map
            fun id => { msgType := t, src := a.self, dst := id, event }) a.net }
  | [], _, _ => rfl
  | c :: cs, a, h => by
    obtain ⟨set, hset⟩ := h c List.mem_cons_self
    have ih := fun net => propagationLoop_run t event incoming cs { a with net } fun d hd =>
      h d (List.mem_cons_of_mem _ hd)
    rw [List.map_cons, propagationLoop, hset]
    cases ha : isAgent c.id <;> cases hl : isEqualLocationId c.id.locationId incoming <;>
      simp [ha, hl, ih, Network.sendAll]

/-- A propagation reads the ids of the peers. -/
theorem Sees.propagation (h : Sees C Q L s a) (t : MsgType) (event : Event) (incoming : LocationId) :
    utilRegPropagation w t event incoming a =
      some { a with net := w.sendAll (propMsgs s t event incoming) a.net } := by
  have hnodes : mapAt a.heap a.peers = some (s.peers.nodes.map fun c => compNode L c.addr) := by
    rw [← h.peers]
    exact mapAt_of h.laid h.table
  have hloop := propagationLoop_run (w := w) (L := L) t event incoming s.peers.nodes a fun c hc => by
    obtain ⟨set, hset⟩ := h.comps c hc
    exact ⟨set, compAt_of h.laid (o := (.inr (.comp c.addr) : Owner)) hset⟩
  rw [utilRegPropagation, hnodes, propMsgs, ← h.self]
  exact hloop

/-! ## Stores to one part of the blocks -/

section
variable {h : Heap Block}

theorem store_inl (hl : Laid (Sum.elim C Q) L h) {o : CatchOwner} {b : Block} (ho : C o = some b)
    (b' : Block) : ∃ h', h.store (L (.inl o)) b' = some h' ∧
      Laid (Sum.elim (Function.update C o (some b')) Q) L h' := by
  obtain ⟨h', hs, hl'⟩ := hl.store (o := .inl o) ho b'
  exact ⟨h', hs, by rwa [Sum.update_elim_inl] at hl'⟩

theorem store_inr (hl : Laid (Sum.elim C Q) L h) {o : PeerOwner} {b : Block} (ho : Q o = some b)
    (b' : Block) : ∃ h', h.store (L (.inr o)) b' = some h' ∧
      Laid (Sum.elim C (Function.update Q o (some b'))) L h' := by
  obtain ⟨h', hs, hl'⟩ := hl.store (o := .inr o) ho b'
  exact ⟨h', hs, by rwa [Sum.update_elim_inr] at hl'⟩

theorem free_inl (hl : Laid (Sum.elim C Q) L h) {o : CatchOwner} {b : Block} (ho : C o = some b) :
    ∃ h', h.free (L (.inl o)) = some h' ∧ Laid (Sum.elim (Function.update C o none) Q) L h' := by
  obtain ⟨h', hs, hl'⟩ := hl.free (o := .inl o) ho
  exact ⟨h', hs, by rwa [Sum.update_elim_inl] at hl'⟩

theorem free_inr (hl : Laid (Sum.elim C Q) L h) {o : PeerOwner} {b : Block} (ho : Q o = some b) :
    ∃ h', h.free (L (.inr o)) = some h' ∧ Laid (Sum.elim C (Function.update Q o none)) L h' := by
  obtain ⟨h', hs, hl'⟩ := hl.free (o := .inr o) ho
  exact ⟨h', hs, by rwa [Sum.update_elim_inr] at hl'⟩

end

/-! ## Removal from `catch_event_map` -/

/-- The entry that a removal empties, if it empties one. -/
def emptied (map : CatchEventMap) (id : Id) (mask : Event) : Option CatchEntry :=
  (map.find? mask).filter fun ent => ent.comps.contains id && (ent.comps.erase id).isEmpty

theorem removeMsgs_eq (s : NodeInfo) (id : Id) (mask : Event) :
    removeMsgs s id mask = (emptied s.catchEventMap id mask).elim [] fun ent =>
      propMsgs s .subscriptionCancel ent.mask id.locationId := by
  unfold removeMsgs emptied
  cases s.catchEventMap.find? mask with
  | none => rfl
  | some ent =>
    cases hc : ent.comps.contains id && (ent.comps.erase id).isEmpty <;> simp [Option.filter, hc]

/-- The components of a map can be read. -/
def Reads (map : CatchEventMap) (Q : PeerOwner → Option Block) : Prop :=
  ∀ e ∈ map.nodes, ∀ r ∈ e.comps.nodes, ∃ set, Q (.comp r.addr) = some (.comp r.id set)

section
variable {map : CatchEventMap} {h : Heap Block}

theorem key_block (he : ent ∈ map.nodes) :
    catchBlocks L map (.key ent.mask) = some (.mask ent.mask) := by
  simp [catchBlocks, entryOf_eq_some.2 ⟨he, rfl⟩]

theorem comps_block (he : ent ∈ map.nodes) :
    catchBlocks L map (.comps ent.mask) = some (compsBlock L ent.comps) := by
  simp [catchBlocks, entryOf_eq_some.2 ⟨he, rfl⟩]

theorem find_mask (hl : Laid (Sum.elim (catchBlocks L map) Q) L h) {addr : Nat} {m : Event}
    (hm : maskAt h addr = some m) :
    mapFindKey (maskEq h addr) (map.nodes.map (entryNode L)) =
      some ((map.find? m).map (entryNode L)) := by
  refine mapFindKey_map (entryNode L) map.nodes fun e he => ?_
  have hk := maskAt_of hl (o := (.inl (.key e.mask) : Owner)) (key_block (L := L) he)
  simp [maskEq, entryNode, hk, hm]

theorem find_comp (hl : Laid (Sum.elim C Q) L h) {comps : CompMap}
    (hr : ∀ r ∈ comps.nodes, ∃ set, Q (.comp r.addr) = some (.comp r.id set)) {addr : Nat} {id : Id}
    {set : Nat} (hc : compAt h addr = some (id, set)) :
    mapFindKey (compEq h addr) (comps.nodes.map fun r => compNode L r.addr) =
      some ((comps.find? id).map fun r => compNode L r.addr) := by
  refine mapFindKey_map (fun r : CompRef => compNode L r.addr) comps.nodes fun r hm => ?_
  obtain ⟨set', hset⟩ := hr r hm
  have hk := compAt_of hl (o := (.inr (.comp r.addr) : Owner)) hset
  simp [compEq, compNode, hk, hc]

theorem erase_comp (hl : Laid (Sum.elim C Q) L h) {comps : CompMap}
    (hr : ∀ r ∈ comps.nodes, ∃ set, Q (.comp r.addr) = some (.comp r.id set)) {id : Id} {r : CompRef}
    (hf : comps.find? id = some r) :
    (comps.nodes.map fun r => compNode L r.addr).erase (compNode L r.addr) =
      (comps.erase id).nodes.map fun r => compNode L r.addr := by
  refine erase_map (fun r : CompRef => compNode L r.addr) hf fun x hx he => ?_
  have hrm : r ∈ comps.nodes := (KeyList.mem_of_find? hf).1
  obtain ⟨setx, hsx⟩ := hr x hx
  obtain ⟨setr, hsr⟩ := hr r hrm
  -- the components at one address are one
  have ho : (Sum.inr (.comp x.addr) : Owner) = .inr (.comp r.addr) :=
    hl.apart _ _ (by simp [hsx]) (by simp [hsr]) (congrArg Node.key he)
  have haddr : x.addr = r.addr := by simpa using ho
  rw [haddr, hsr] at hsx
  obtain ⟨hid, -⟩ := Block.comp.inj (Option.some.inj hsx)
  exact KeyList.eq_of_mem hx hrm (by rw [hid]; exact KeyEq.refl _)

theorem erase_entry (hl : Laid (Sum.elim (catchBlocks L map) Q) L h) {ent : CatchEntry}
    (he : ent ∈ map.nodes) :
    (map.nodes.map (entryNode L)).erase (entryNode L ent) =
      (map.erase ent.mask).nodes.map (entryNode L) := by
  refine erase_map (entryNode L) (KeyList.find?_of_mem he) fun x hx hxe => ?_
  have ho : (Sum.inl (.key x.mask) : Owner) = .inl (.key ent.mask) :=
    hl.apart _ _ (by simp [key_block hx]) (by simp [key_block he]) (congrArg Node.key hxe)
  have hm : x.mask = ent.mask := by simpa using ho
  exact KeyList.eq_of_mem hx he (by rw [hm]; exact KeyEq.refl _)

/-- A removal that empties no mask. -/
theorem remove_kept (hl : Laid (Sum.elim (catchBlocks L map) Q) L a.heap)
    (hcatch : L (.inl .table) = a.catchEventMap) (hr : Reads map Q) {comp mask : Nat} {id : Id}
    {set : Nat} (hc : compAt a.heap comp = some (id, set)) {m : Event}
    (hm : maskAt a.heap mask = some m) (he : emptied map id m = none) :
    ∃ h', utilRemoveComFromCatchMap w comp mask a = some { a with heap := h' } ∧
      Laid (Sum.elim (catchBlocks L (catchRemove map id m)) Q) L h' := by
  have hnodes : mapAt a.heap a.catchEventMap = some (map.nodes.map (entryNode L)) := by
    rw [← hcatch]
    exact mapAt_of hl rfl
  unfold utilRemoveComFromCatchMap catchRemove
  unfold emptied at he
  rw [hnodes, Option.bind_eq_bind, Option.bind_some, find_mask hl hm]
  cases hf : map.find? m with
  | none => exact ⟨a.heap, rfl, hl⟩
  | some ent =>
    obtain ⟨hent, hentm⟩ := KeyList.mem_of_find? hf
    have hcomps : mapAt a.heap (L (.inl (.comps ent.mask))) =
        some (ent.comps.nodes.map fun r => compNode L r.addr) :=
      mapAt_of hl (comps_block (L := L) hent)
    have hfind := find_comp hl (hr ent hent) hc
    cases hfc : ent.comps.find? id with
    | none =>
      rw [hfc] at hfind
      have hrem := mapRemoveKey_none hcomps hfind
      simp only [entryNode, Option.map_some, Option.bind_eq_bind, Option.bind_some, hrem]
      exact ⟨a.heap, rfl, by simpa [KeyList.contains_eq_isSome, hfc] using hl⟩
    | some r =>
      rw [hfc] at hfind
      have hcont : ent.comps.contains id = true := by rw [KeyList.contains_eq_isSome, hfc]; rfl
      have hleft : (ent.comps.erase id).isEmpty = false := by
        simpa [hf, Option.filter, hcont] using he
      obtain ⟨h', hs, hl'⟩ := store_inl hl (comps_block hent) (compsBlock L (ent.comps.erase id))
      have hs' := hs
      rw [compsBlock, ← erase_comp hl (hr ent hent) hfc] at hs'
      have hrem := mapRemoveKey_some hcomps hfind hs'
      have hnew : mapAt h' (L (.inl (.comps ent.mask))) =
          some ((ent.comps.erase id).nodes.map fun r => compNode L r.addr) :=
        mapAt_of hl' (o := (.inl (.comps ent.mask) : Owner)) (by simp [compsBlock])
      have hne : (ent.comps.erase id).nodes ≠ [] := fun hn => by
        rw [KeyList.isEmpty_iff.2 hn] at hleft
        cases hleft
      refine ⟨h', ?_, ?_⟩
      · simp [entryNode, hrem, hnew, hne]
      · simp only [hcont, hleft, Bool.not_true, Bool.false_eq_true, if_false]
        rw [catchBlocks_adjust hf]
        exact hl'

/-- A removal that empties a mask: the entry goes, the cancellation is propagated, and the copy of the
mask is freed. -/
theorem remove_last (hl : Laid (Sum.elim (catchBlocks L map) Q) L a.heap)
    (hcatch : L (.inl .table) = a.catchEventMap) (hr : Reads map Q) {comp : PeerOwner} {mask : Nat}
    {id : Id} {set : Nat} (hc : Q comp = some (.comp id set)) {m : Event}
    (hm : maskAt a.heap mask = some m) {ent : CatchEntry} (he : emptied map id m = some ent) :
    ∃ h', catchBlocks L (catchRemove map id m) (.key ent.mask) = none ∧
      Laid (Sum.elim (Function.update (catchBlocks L (catchRemove map id m)) (.key ent.mask)
        (some (.mask ent.mask))) Q) L h' ∧
      utilRemoveComFromCatchMap w (L (.inr comp)) mask a =
        (utilRegPropagation w .subscriptionCancel ent.mask id.locationId { a with heap := h' }).bind
          fun b => (b.heap.free (L (.inl (.key ent.mask)))).bind fun heap => some { b with heap } := by
  have hnodes : mapAt a.heap a.catchEventMap = some (map.nodes.map (entryNode L)) := by
    rw [← hcatch]
    exact mapAt_of hl rfl
  obtain ⟨hf, hempty⟩ := Option.filter_eq_some_iff.1 he
  rw [Bool.and_eq_true] at hempty
  obtain ⟨hcont, hleft⟩ := hempty
  obtain ⟨hent, hentm⟩ := KeyList.mem_of_find? hf
  have hcomp : compAt a.heap (L (.inr comp)) = some (id, set) := compAt_of hl hc
  have hcomps : mapAt a.heap (L (.inl (.comps ent.mask))) =
      some (ent.comps.nodes.map fun r => compNode L r.addr) :=
    mapAt_of hl (comps_block (L := L) hent)
  have hfind := find_comp hl (hr ent hent) hcomp
  rw [KeyList.contains_eq_isSome] at hcont
  obtain ⟨r, hfc⟩ := Option.isSome_iff_exists.1 hcont
  rw [hfc] at hfind
  -- the component leaves the map of the mask
  obtain ⟨h₁, hs₁, hl₁⟩ := store_inl hl (comps_block hent) (compsBlock L (ent.comps.erase id))
  have hs := hs₁
  rw [compsBlock, ← erase_comp hl (hr ent hent) hfc] at hs
  have hrem := mapRemoveKey_some hcomps hfind hs
  have hnew : mapAt h₁ (L (.inl (.comps ent.mask))) = some [] := by
    have hnil : (ent.comps.erase id).nodes = [] := KeyList.isEmpty_iff.1 hleft
    exact mapAt_of hl₁ (o := (.inl (.comps ent.mask) : Owner)) (by simp [compsBlock, hnil])
  -- the map is freed, and the entry taken out
  obtain ⟨h₂, hs₂, hl₂⟩ := free_inl hl₁ (o := .comps ent.mask)
    (b := compsBlock L (ent.comps.erase id)) (by simp)
  obtain ⟨h₃, hs₃, hl₃⟩ := store_inl hl₂ (o := .table)
    (b := .map (map.nodes.map (entryNode L))) (by simp [catchBlocks])
    (.map ((map.erase ent.mask).nodes.map (entryNode L)))
  have htable : mapAt h₂ a.catchEventMap = some (map.nodes.map (entryNode L)) := by
    rw [← hcatch]
    exact mapAt_of hl₂ (o := (.inl .table : Owner)) (by simp [catchBlocks])
  have hremove : mapRemoveNode a.catchEventMap (entryNode L ent) h₂ = some h₃ := by
    rw [mapRemoveNode, htable, Option.bind_eq_bind, Option.bind_some, erase_entry hl hent, ← hcatch]
    exact hs₃
  have hblocks : Sum.elim (Function.update (catchBlocks L (map.erase ent.mask)) (.key ent.mask)
      (some (.mask ent.mask))) Q = Sum.elim (Function.update (Function.update (Function.update
        (catchBlocks L map) (.comps ent.mask) (some (compsBlock L (ent.comps.erase id))))
        (.comps ent.mask) none) .table
        (some (.map ((map.erase ent.mask).nodes.map (entryNode L))))) Q := by
    rw [catchBlocks_erase hent, Function.update_idem, Function.update_idem]
    exact congrArg (Sum.elim · Q) (Function.update_eq_iff.2 ⟨by simp [key_block hent], fun _ _ => rfl⟩)
  have hl₄ := hl₃
  rw [← hblocks] at hl₄
  have hkey : maskAt h₃ (L (.inl (.key ent.mask))) = some ent.mask :=
    maskAt_of hl₄ (o := (.inl (.key ent.mask) : Owner)) (by simp)
  have hcomp₃ : compAt h₃ (L (.inr comp)) = some (id, set) := compAt_of hl₄ hc
  have hmap : catchRemove map id m = map.erase ent.mask := by
    simp [catchRemove, hf, KeyList.contains_eq_isSome, hcont, hleft]
  refine ⟨h₃, by rw [hmap, catchBlocks_erase hent]; simp, by rw [hmap]; exact hl₄, ?_⟩
  have hfin : mapFinalize (L (.inl (.comps ent.mask))) h₁ = some h₂ := by
    simp [mapFinalize, hnew, hs₂]
  unfold utilRemoveComFromCatchMap
  rw [hnodes, Option.bind_eq_bind, Option.bind_some, find_mask hl hm, hf]
  simp only [entryNode] at hremove
  simp [entryNode, hrem, hnew, hfin, hremove, hkey, hcomp₃]

/-- A removal in an image that sees its peers. -/
theorem Sees.remove (h : Sees (catchBlocks L s.catchEventMap) Q L s a) (hr : Reads s.catchEventMap Q)
    {comp : PeerOwner} {mask : Nat} {id : Id} {set : Nat} (hc : Q comp = some (.comp id set))
    {m : Event} (hm : maskAt a.heap mask = some m) :
    ∃ h', utilRemoveComFromCatchMap w (L (.inr comp)) mask a =
        some { a with heap := h', net := w.sendAll (removeMsgs s id m) a.net } ∧
      Laid (Sum.elim (catchBlocks L (catchRemove s.catchEventMap id m)) Q) L h' := by
  rw [removeMsgs_eq]
  cases he : emptied s.catchEventMap id m with
  | none =>
    exact remove_kept h.laid h.catchMap hr
      (compAt_of h.laid (o := (.inr comp : Owner)) hc) hm he
  | some ent =>
    obtain ⟨h₁, hkey, hl₁, hrun⟩ := remove_last (w := w) h.laid h.catchMap hr hc hm he
    have hsees : Sees _ Q L s { a with heap := h₁ } :=
      ⟨hl₁, h.peers, h.catchMap, h.self, h.table, h.comps⟩
    obtain ⟨h', hfree, hl'⟩ := free_inl hl₁ (o := .key ent.mask) (b := .mask ent.mask) (by simp)
    rw [Function.update_idem, (Function.update_eq_iff.2 ⟨hkey.symm, fun _ _ => rfl⟩ :
      Function.update (catchBlocks L (catchRemove s.catchEventMap id m)) (.key ent.mask) none = _)] at hl'
    rw [hrun, hsees.propagation]
    exact ⟨h', by simp [hfree], hl'⟩

/-! ## Clean-up of a component -/

/-- What is left when masks of a component are freed. -/
def dropMasks (n : Nat) (ms : List Event) (Q : PeerOwner → Option Block) : PeerOwner → Option Block :=
  ms.foldl (fun Q m => Function.update Q (.mask n m) none) Q

theorem dropMasks_mask (n : Nat) (k : Nat) (m : Event) :
    ∀ (ms : List Event) (Q : PeerOwner → Option Block),
      dropMasks n ms Q (.mask k m) = if k = n ∧ m ∈ ms then none else Q (.mask k m)
  | [], Q => by simp [dropMasks]
  | x :: ms, Q => by
    have ih := dropMasks_mask n k m ms (Function.update Q (.mask n x) none)
    unfold dropMasks at ih ⊢
    rw [List.foldl_cons, ih]
    by_cases hk : k = n <;> by_cases hx : m = x <;> by_cases hm : m ∈ ms <;> simp [hk, hx, hm]

theorem dropMasks_other (n : Nat) {o : PeerOwner} (ho : ∀ m, o ≠ .mask n m) :
    ∀ (ms : List Event) (Q : PeerOwner → Option Block), dropMasks n ms Q o = Q o
  | [], _ => rfl
  | x :: ms, Q => by
    have ih := dropMasks_other n ho ms (Function.update Q (.mask n x) none)
    unfold dropMasks at ih ⊢
    rw [List.foldl_cons, ih, Function.update_of_ne (ho x)]

/-- The loop over the masks of a component. -/
theorem Sees.cleanLoop {n : Nat} {id : Id} {set : Nat} :
    ∀ (ms : List Event) {Q : PeerOwner → Option Block} {s : NodeInfo} {a : Image N},
      Sees (catchBlocks L s.catchEventMap) Q L s a → Reads s.catchEventMap Q →
      Q (.comp n) = some (.comp id set) → (∀ m ∈ ms, Q (.mask n m) = some (.mask m)) → ms.Nodup →
      ∃ h', cleanLoop w (L (.inr (.comp n))) (ms.map (maskNode L n)) a =
          some { a with heap := h', net := w.sendAll (dropMsgs id ms s) a.net } ∧
        Laid (Sum.elim (catchBlocks L
          (ms.foldl (fun map mask => catchRemove map id mask) s.catchEventMap)) (dropMasks n ms Q)) L h'
  | [], _, _, a, h, _, _, _, _ => ⟨a.heap, rfl, h.laid⟩
  | m :: ms, Q, s, a, h, hr, hc, hmask, hd => by
    obtain ⟨hm, hd⟩ := List.nodup_cons.1 hd
    have hread : maskAt a.heap (L (.inr (.mask n m))) = some m :=
      maskAt_of h.laid (o := (.inr (.mask n m) : Owner)) (hmask m List.mem_cons_self)
    obtain ⟨h₁, hrun, hl₁⟩ := h.remove (w := w) hr hc hread
    obtain ⟨h₂, hfree, hl₂⟩ := free_inr hl₁ (hmask m List.mem_cons_self)
    have hsees : Sees (catchBlocks L (removeInfo s id m).catchEventMap)
        (Function.update Q (.mask n m) none) L (removeInfo s id m)
        { a with heap := h₂, net := w.sendAll (removeMsgs s id m) a.net } :=
      ⟨hl₂, h.peers, h.catchMap, h.self, (Function.update_of_ne (by simp) ..).trans h.table,
        fun c hc => (h.comps c hc).imp fun _ hset => (Function.update_of_ne (by simp) ..).trans hset⟩
    have hr₂ : Reads (removeInfo s id m).catchEventMap (Function.update Q (.mask n m) none) :=
      fun e he r hre => (allRefs_catchRemove (P := fun r => ∃ set, Q (.comp r.addr) =
        some (.comp r.id set)) hr id m e he r hre).imp
          fun _ hset => (Function.update_of_ne (by simp) ..).trans hset
    obtain ⟨h', hloop, hl'⟩ := hsees.cleanLoop ms hr₂ (by simpa using hc) (fun x hx => by
      have hne : x ≠ m := fun he => hm (he ▸ hx)
      simpa [hne] using hmask x (List.mem_cons_of_mem _ hx)) hd
    refine ⟨h', ?_, hl'⟩
    rw [List.map_cons, Memory.cleanLoop]
    have hrun' : utilRemoveComFromCatchMap w (L (.inr (.comp n))) (maskNode L n m).data a = _ := hrun
    have hfree' : h₁.free (maskNode L n m).data = some h₂ := hfree
    simp only [hrun', hfree', hloop, Option.bind_eq_bind, Option.bind_some, dropMsgs, sendAll_append]

/-- The blocks of a component in `peers` are its own. -/
structure Owns (Q : PeerOwner → Option Block) (L : Owner → Nat) (c : CompInfo) : Prop where
  comp : Q (.comp c.addr) = some (.comp c.id (L (.inr (.set c.addr))))
  set : Q (.set c.addr) = some (.map (c.catchEventSet.nodes.map (maskNode L c.addr)))
  mask : ∀ m, Q (.mask c.addr m) = if m ∈ c.catchEventSet.nodes then some (.mask m) else none

theorem Owns.release {comp : CompInfo} (ho : Owns Q L comp) :
    Function.update (dropMasks comp.addr comp.catchEventSet.nodes Q) (.set comp.addr) none =
      release comp.addr Q := by
  funext o
  cases o with
  | mask k m =>
    by_cases hk : k = comp.addr
    · simp only [Memory.release, hk, if_true]
      rw [Function.update_of_ne (by simp), dropMasks_mask, ho.mask]
      by_cases hm : m ∈ comp.catchEventSet.nodes <;> simp [hm]
    · rw [Function.update_of_ne (by simp), dropMasks_mask]
      simp [Memory.release, hk]
  | set k => by_cases hk : k = comp.addr <;> simp [Memory.release, hk, dropMasks_other]
  | table => simp [Memory.release, dropMasks_other]
  | comp k => simp [Memory.release, dropMasks_other]
  | lost k => simp [Memory.release, dropMasks_other]
  | scratch k => simp [Memory.release, dropMasks_other]

theorem nodup_masks (set : SetEventMask) : set.nodes.Nodup :=
  set.distinct.imp fun {m m'} h he => by
    have hr : isEqualEventMask m' m' = true := KeyEq.refl _
    rw [he, hr] at h
    cases h

/-- **A clean-up** takes the component out of `catch_event_map`, and frees its masks and its set. -/
theorem Sees.clean (h : Sees (catchBlocks L s.catchEventMap) Q L s a) (hr : Reads s.catchEventMap Q)
    {comp : CompInfo} (ho : Owns Q L comp) :
    ∃ h', utilCleanComponent w (L (.inr (.comp comp.addr))) a = some { a with
        heap := h', net := w.sendAll (dropMsgs comp.id comp.catchEventSet.nodes s) a.net } ∧
      Laid (Sum.elim (catchBlocks L (catchDrop s.catchEventMap comp)) (Memory.release comp.addr Q)) L
        h' := by
  have hcomp : compAt a.heap (L (.inr (.comp comp.addr))) = _ :=
    compAt_of h.laid (o := (.inr (.comp comp.addr) : Owner)) ho.comp
  have hset : mapAt a.heap (L (.inr (.set comp.addr))) = _ :=
    mapAt_of h.laid (o := (.inr (.set comp.addr) : Owner)) ho.set
  obtain ⟨h₁, hloop, hl₁⟩ := h.cleanLoop (w := w) comp.catchEventSet.nodes hr ho.comp
    (fun m hm => by rw [ho.mask, if_pos hm]) (nodup_masks _)
  have hleft : dropMasks comp.addr comp.catchEventSet.nodes Q (.set comp.addr) =
      some (.map (comp.catchEventSet.nodes.map (maskNode L comp.addr))) := by
    rw [dropMasks_other _ (by simp)]
    exact ho.set
  obtain ⟨h', hfree, hl'⟩ := free_inr hl₁ hleft
  rw [ho.release] at hl'
  have hfin : mapFinalize (L (.inr (.set comp.addr))) h₁ = some h' := by
    rw [mapFinalize, mapAt_of hl₁ (o := (.inr (.set comp.addr) : Owner)) hleft]
    exact hfree
  exact ⟨h', by simp [utilCleanComponent, hcomp, hset, hloop, hfin], hl'⟩

end

end

end FTBM.Memory
