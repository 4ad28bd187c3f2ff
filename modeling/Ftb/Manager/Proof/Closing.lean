import Ftb.Manager.Proof.Following

/-!
# The clean-ups of `FTBM_Finalize`

The loop of `FTBM_Finalize` frees a component and leaves its node in `peers`. From then on
`FTBMI_util_reg_propagation` reads freed memory (`Freed.propagation`): a clean-up has a value only
as long as it empties no mask.
-/

open FTB FTBU FTBN FTBMI Layout

namespace FTBM.Memory

variable {N : Type} {w : Network N}

/-- The first node of `peers` is that of a component that has been freed, at `dead`. -/
structure Freed (L : Owner → Nat) (dead : Nat) (map : CatchEventMap) (Q : PeerOwner → Option Block)
    (a : Image N) : Prop where
  laid : Laid (Sum.elim (catchBlocks L map) Q) L a.heap
  peers : L (.inr .table) = a.peers
  catchMap : L (.inl .table) = a.catchEventMap
  reads : Reads map Q
  table : ∃ nodes, Q .table = some (.map (⟨dead, dead⟩ :: nodes))
  gone : ∀ o, Sum.elim (catchBlocks L map) Q o ≠ none → L o ≠ dead

section
variable {L : Owner → Nat} {dead : Nat} {map : CatchEventMap} {Q : PeerOwner → Option Block}
  {a : Image N}

/-- The loop of the propagation starts with the freed component. -/
theorem propagation_freed {nodes : List Node} (ht : mapAt a.heap a.peers = some (⟨dead, dead⟩ :: nodes))
    (hd : a.heap.cells dead = none) (t : MsgType) (event : Event) (incoming : LocationId) :
    utilRegPropagation w t event incoming a = none := by
  have hdead : compAt a.heap dead = none := by rw [compAt, hd]
  rw [utilRegPropagation, ht, Option.bind_eq_bind, Option.bind_some, propagationLoop, hdead]
  rfl

/-- Nothing is at the address of a component that is freed. -/
theorem gone_of_free {C : CatchOwner → Option Block} {h : Heap Block} {n : Nat}
    (hl : Laid (Sum.elim C Q) L h) (hn : Q (.comp n) ≠ none) (o : Owner)
    (ho : Sum.elim C (Function.update Q (.comp n) none) o ≠ none) : L o ≠ L (.inr (.comp n)) := by
  have hne : o ≠ .inr (.comp n) := by
    rintro rfl
    simp at ho
  have hold : Sum.elim C Q o ≠ none := by
    cases o with
    | inl o => exact ho
    | inr o =>
      have hno : o ≠ .comp n := fun he => hne (congrArg Sum.inr he)
      rwa [Sum.elim_inr, Function.update_of_ne hno] at ho
  exact fun he => hne (hl.apart o (.inr (.comp n)) hold hn he)

theorem masks_catchRemove (map : CatchEventMap) (id : Id) (mask : Event) :
    ∀ e ∈ (catchRemove map id mask).nodes, ∃ x ∈ map.nodes, x.mask = e.mask := by
  unfold catchRemove
  split
  · exact fun e he => ⟨e, he, rfl⟩
  · simp only
    split
    · exact fun e he => ⟨e, he, rfl⟩
    · split
      · exact fun e he => ⟨e, KeyList.mem_of_mem_erase he, rfl⟩
      · intro e he
        obtain ⟨x, hx, rfl⟩ := KeyList.mem_adjust.1 he
        refine ⟨x, hx, ?_⟩
        split <;> rfl

/-- A removal allocates nothing. -/
theorem catchBlocks_catchRemove {id : Id} {mask : Event} {o : CatchOwner}
    (ho : catchBlocks L (catchRemove map id mask) o ≠ none) : catchBlocks L map o ≠ none := by
  have hentry : ∀ m, entryOf (catchRemove map id mask) m ≠ none → entryOf map m ≠ none := by
    intro m hm
    obtain ⟨e, he⟩ := Option.ne_none_iff_exists'.1 hm
    obtain ⟨hmem, rfl⟩ := entryOf_eq_some.1 he
    obtain ⟨x, hx, hxm⟩ := masks_catchRemove map id mask e hmem
    rw [entryOf_eq_some.2 ⟨hx, hxm⟩]
    exact Option.some_ne_none x
  cases o with
  | table => exact Option.some_ne_none _
  | key m => simpa [catchBlocks] using hentry m (by simpa [catchBlocks] using ho)
  | comps m => simpa [catchBlocks] using hentry m (by simpa [catchBlocks] using ho)

/-- A mask that is not emptied keeps its entry. -/
theorem catchRemove_nodes_ne_nil (hne : map.nodes ≠ []) {id : Id} {mask : Event}
    (he : emptied map id mask = none) : (catchRemove map id mask).nodes ≠ [] := by
  unfold emptied at he
  unfold catchRemove
  cases hf : map.find? mask with
  | none => exact hne
  | some ent =>
    simp only
    split
    · exact hne
    · rename_i hc
      split
      · rename_i hl
        rw [hf] at he
        simp [Option.filter, hl] at he
        simp [he] at hc
      · simpa [KeyList.adjust] using hne

/-- A block that is neither a component nor the head of `peers` is freed. -/
theorem Freed.drop (h : Freed L dead map Q a) {o : PeerOwner} (hc : ∀ n, o ≠ .comp n)
    (ht : o ≠ .table) {h' : Heap Block}
    (hl : Laid (Sum.elim (catchBlocks L map) (Function.update Q o none)) L h') :
    Freed L dead map (Function.update Q o none) { a with heap := h' } := by
  refine ⟨hl, h.peers, h.catchMap, fun e he r hr => ?_, ?_, fun x hx => h.gone x ?_⟩
  · obtain ⟨set, hset⟩ := h.reads e he r hr
    exact ⟨set, (Function.update_of_ne (hc r.addr).symm ..).trans hset⟩
  · obtain ⟨nodes, hn⟩ := h.table
    exact ⟨nodes, (Function.update_of_ne ht.symm ..).trans hn⟩
  · cases x with
    | inl x => exact hx
    | inr x =>
      by_cases hxo : x = o
      · simp [hxo] at hx
      · simpa [Function.update_of_ne hxo] using hx

/-- One removal: it has no value, or the map is not empty after it either. -/
theorem Freed.remove (h : Freed L dead map Q a) (hne : map.nodes ≠ []) {comp : PeerOwner} {mask : Nat}
    {id : Id} {set : Nat} (hc : Q comp = some (.comp id set)) {m : Event}
    (hm : maskAt a.heap mask = some m) :
    utilRemoveComFromCatchMap w (L (.inr comp)) mask a = none ∨
      ∃ h', utilRemoveComFromCatchMap w (L (.inr comp)) mask a = some { a with heap := h' } ∧
        Freed L dead (catchRemove map id m) Q { a with heap := h' } ∧
        (catchRemove map id m).nodes ≠ [] := by
  cases he : emptied map id m with
  | none =>
    obtain ⟨h', hrun, hl⟩ := remove_kept (w := w) h.laid h.catchMap h.reads
      (compAt_of h.laid (o := (.inr comp : Owner)) hc) hm he
    refine .inr ⟨h', hrun, ⟨hl, h.peers, h.catchMap, ?_, h.table, ?_⟩, catchRemove_nodes_ne_nil hne he⟩
    · exact allRefs_catchRemove (P := fun r => ∃ set, Q (.comp r.addr) = some (.comp r.id set))
        h.reads id m
    · intro o ho
      refine h.gone o ?_
      cases o with
      | inl o => exact catchBlocks_catchRemove ho
      | inr o => exact ho
  | some ent =>
    obtain ⟨h₁, hkey, hl, hrun⟩ := remove_last (w := w) h.laid h.catchMap h.reads hc hm he
    obtain ⟨hf, -⟩ := Option.filter_eq_some_iff.1 he
    -- what is left of the blocks when the cancellation is propagated
    have hgone : ∀ o, Sum.elim (Function.update (catchBlocks L (catchRemove map id m)) (.key ent.mask)
        (some (.mask ent.mask))) Q o ≠ none → L o ≠ dead := by
      intro o ho
      refine h.gone o ?_
      cases o with
      | inl o =>
        by_cases hk : o = .key ent.mask
        · simp [hk, key_block (L := L) (KeyList.mem_of_find? hf).1]
        · simp only [Sum.elim_inl, Function.update_of_ne hk] at ho
          exact catchBlocks_catchRemove ho
      | inr o => exact ho
    obtain ⟨nodes, ht⟩ := h.table
    have htable : mapAt h₁ a.peers = some (⟨dead, dead⟩ :: nodes) := by
      rw [← h.peers]
      exact mapAt_of hl (o := (.inr .table : Owner)) ht
    refine .inl ?_
    rw [hrun, propagation_freed (a := { a with heap := h₁ }) htable (hl.unowned hgone)]
    rfl

/-- The removals of the masks of one component. -/
theorem Freed.cleanLoop {n : Nat} {id : Id} {set : Nat} :
    ∀ (ms : List Event) {Q : PeerOwner → Option Block} {map : CatchEventMap} {a : Image N},
      Freed L dead map Q a → map.nodes ≠ [] → Q (.comp n) = some (.comp id set) →
      (∀ m ∈ ms, Q (.mask n m) = some (.mask m)) → ms.Nodup →
      cleanLoop w (L (.inr (.comp n))) (ms.map (maskNode L n)) a = none ∨
        ∃ h', cleanLoop w (L (.inr (.comp n))) (ms.map (maskNode L n)) a = some { a with heap := h' } ∧
          Freed L dead (ms.foldl (fun map mask => catchRemove map id mask) map) (dropMasks n ms Q)
            { a with heap := h' } ∧
          (ms.foldl (fun map mask => catchRemove map id mask) map).nodes ≠ []
  | [], _, _, a, h, hne, _, _, _ => .inr ⟨a.heap, rfl, h, hne⟩
  | m :: ms, Q, map, a, h, hne, hc, hmask, hd => by
    obtain ⟨hm, hd⟩ := List.nodup_cons.1 hd
    have hread : maskAt a.heap (L (.inr (.mask n m))) = some m :=
      maskAt_of h.laid (o := (.inr (.mask n m) : Owner)) (hmask m List.mem_cons_self)
    rw [List.map_cons, Memory.cleanLoop]
    rcases h.remove (w := w) hne hc hread with hrun | ⟨h₁, hrun, hf₁, hne₁⟩
    · have hrun' : utilRemoveComFromCatchMap w (L (.inr (.comp n))) (maskNode L n m).data a = _ := hrun
      exact .inl (by rw [hrun']; rfl)
    · obtain ⟨h₂, hfree, hl₂⟩ := free_inr hf₁.laid (hmask m List.mem_cons_self)
      have hf₂ : Freed L dead (catchRemove map id m) (Function.update Q (.mask n m) none)
          { a with heap := h₂ } := hf₁.drop (by simp) (by simp) hl₂
      have hrun' : utilRemoveComFromCatchMap w (L (.inr (.comp n))) (maskNode L n m).data a = _ := hrun
      have hfree' : h₁.free (maskNode L n m).data = some h₂ := hfree
      simp only [hrun', hfree', Option.bind_eq_bind, Option.bind_some]
      exact hf₂.cleanLoop ms hne₁ (by simpa using hc) (fun x hx => by
        have hxm : x ≠ m := fun he => hm (he ▸ hx)
        simpa [hxm] using hmask x (List.mem_cons_of_mem _ hx)) hd

/-- A clean-up: it has no value, or there are still masks. -/
theorem Freed.clean (h : Freed L dead map Q a) (hne : map.nodes ≠ []) {comp : CompInfo}
    (ho : Owns Q L comp) :
    utilCleanComponent w (L (.inr (.comp comp.addr))) a = none ∨
      ∃ h', utilCleanComponent w (L (.inr (.comp comp.addr))) a = some { a with heap := h' } ∧
        Freed L dead (catchDrop map comp)
          (Function.update (dropMasks comp.addr comp.catchEventSet.nodes Q) (.set comp.addr) none)
          { a with heap := h' } ∧
        (catchDrop map comp).nodes ≠ [] := by
  have hcomp : compAt a.heap (L (.inr (.comp comp.addr))) = _ :=
    compAt_of h.laid (o := (.inr (.comp comp.addr) : Owner)) ho.comp
  have hset : mapAt a.heap (L (.inr (.set comp.addr))) = _ :=
    mapAt_of h.laid (o := (.inr (.set comp.addr) : Owner)) ho.set
  rcases h.cleanLoop (w := w) comp.catchEventSet.nodes hne ho.comp
    (fun m hm => by rw [ho.mask, if_pos hm]) (nodup_masks _) with hloop | ⟨h₁, hloop, hf₁, hne₁⟩
  · exact .inl (by simp [utilCleanComponent, hcomp, hset, hloop])
  · have hleft : dropMasks comp.addr comp.catchEventSet.nodes Q (.set comp.addr) =
        some (.map (comp.catchEventSet.nodes.map (maskNode L comp.addr))) := by
      rw [dropMasks_other _ (by simp)]
      exact ho.set
    obtain ⟨h', hfree, hl'⟩ := free_inr hf₁.laid hleft
    have hfin : mapFinalize (L (.inr (.set comp.addr))) h₁ = some h' := by
      rw [mapFinalize, mapAt_of hf₁.laid (o := (.inr (.set comp.addr) : Owner)) hleft]
      exact hfree
    refine .inr ⟨h', by simp [utilCleanComponent, hcomp, hset, hloop, hfin], ?_, hne₁⟩
    exact hf₁.drop (by simp) (by simp) hl'

/-! ## The loop over `peers` -/

/-- The blocks of the tables `peers`, while the head of `peers` still has the nodes `nodes`. -/
def closing (L : Owner → Nat) (nodes : List Node) (peers : Peers) (lost : Nat)
    (scratch : Nat → Option Block) : PeerOwner → Option Block :=
  Function.update (peerBlocks L peers lost scratch) .table (some (.map nodes))

variable {nodes : List Node} {s : NodeInfo} {lost : Nat} {scratch : Nat → Option Block}

theorem closing_owns (L : Owner → Nat) (nodes : List Node) (lost : Nat)
    (scratch : Nat → Option Block) (hi : Inv s) {c : CompInfo} (hc : c ∈ s.peers.nodes) :
    Owns (closing L nodes s.peers lost scratch) L c := by
  have ho := owns_peer L lost scratch hi.addrs hc
  exact ⟨(Function.update_of_ne (by simp) ..).trans ho.comp,
    (Function.update_of_ne (by simp) ..).trans ho.set,
    fun m => (Function.update_of_ne (by simp) ..).trans (ho.mask m)⟩

theorem closing_reads (hi : Inv s) :
    Reads s.catchEventMap (closing L nodes s.peers lost scratch) := fun e he r hr =>
  (reads_tables L lost scratch hi e he r hr).imp fun _ hset =>
    (Function.update_of_ne (by simp) ..).trans hset

/-- A component that is cleaned and freed. -/
theorem closing_erase (hi : Inv s) {c : CompInfo} (hc : c ∈ s.peers.nodes) :
    Function.update (release c.addr (closing L nodes s.peers lost scratch)) (.comp c.addr) none =
      closing L nodes (s.peers.erase c.id) lost scratch := by
  have hp := peerOf_erase hi.addrs hc
  funext o
  cases o with
  | table => simp [closing, release]
  | comp n => by_cases hnc : n = c.addr <;> simp [closing, peerBlocks, release, hp, hnc]
  | set n => by_cases hnc : n = c.addr <;> simp [closing, peerBlocks, release, hp, hnc]
  | mask n m => by_cases hnc : n = c.addr <;> simp [closing, peerBlocks, release, hp, hnc]
  | lost k => simp [closing, peerBlocks, release]
  | scratch k => simp [closing, peerBlocks, release]

/-- What `FTBM_Finalize` sends to a component. -/
def farewell (self : Id) (c : CompInfo) : List Msg :=
  if isAgent c.id then [{ msgType := .clientDereg, src := self, dst := c.id, event := default }] else []

/-- The rest of a turn, after the clean-up. -/
theorem finalizeLoop_step (hi : Inv s) {c : CompInfo} (hc : c ∈ s.peers.nodes) {a₁ : Image N}
    {C : CatchOwner → Option Block}
    (hrun : utilCleanComponent w (L (.inr (.comp c.addr))) a = some a₁)
    (hl : Laid (Sum.elim C (release c.addr (closing L nodes s.peers lost scratch))) L a₁.heap)
    (cs : List CompInfo) :
    ∃ h', Laid (Sum.elim C (closing L nodes (s.peers.erase c.id) lost scratch)) L h' ∧
      finalizeLoop w ((c :: cs).map fun c => compNode L c.addr) a =
        finalizeLoop w (cs.map fun c => compNode L c.addr)
          { a₁ with heap := h', net := w.sendAll (farewell a₁.self c) a₁.net } := by
  have ho := closing_owns L nodes lost scratch hi hc
  have hread : compAt a₁.heap (L (.inr (.comp c.addr))) = _ :=
    compAt_of hl (o := (.inr (.comp c.addr) : Owner)) ho.comp
  obtain ⟨h', hfree, hl'⟩ := free_inr hl (o := .comp c.addr) ho.comp
  rw [closing_erase hi hc] at hl'
  refine ⟨h', hl', ?_⟩
  have hrun' : utilCleanComponent w (compNode L c.addr).data a = some a₁ := hrun
  have hread' : compAt a₁.heap (compNode L c.addr).data = _ := hread
  have hfree' : a₁.heap.free (compNode L c.addr).data = some h' := hfree
  rw [List.map_cons, finalizeLoop]
  simp only [hrun', hread', Option.bind_eq_bind, Option.bind_some]
  unfold farewell
  cases isAgent c.id with
  | true => simp [hfree', Network.sendAll]
  | false => simp [hfree', Network.sendAll]

theorem erase_head {c : CompInfo} {cs : List CompInfo} (hcs : s.peers.nodes = c :: cs) :
    (s.peers.erase c.id).nodes = cs := by
  have hr : isEqualFtbId c.id c.id = true := KeyEq.refl _
  show s.peers.nodes.eraseP _ = cs
  rw [hcs]
  exact List.eraseP_cons_of_pos hr

/-- With masks left, the loop has no value. -/
theorem Freed.finalizeLoop :
    ∀ (cs : List CompInfo) {s : NodeInfo} {a : Image N}, Inv s → s.peers.nodes = cs →
      Freed L dead s.catchEventMap (closing L nodes s.peers lost scratch) a →
      s.catchEventMap.nodes ≠ [] →
      finalizeLoop w (cs.map fun c => compNode L c.addr) a = none
  | [], s, a, hi, hcs, h, hne => by
    -- a mask has a component, and that one is still in `peers`
    obtain ⟨e, he⟩ := List.exists_mem_of_ne_nil _ hne
    obtain ⟨r, hr⟩ := List.exists_mem_of_ne_nil _ (hi.noEmpty e he)
    obtain ⟨c, hc, -⟩ := hi.held e he r hr
    rw [hcs] at hc
    cases hc
  | c :: cs, s, a, hi, hcs, h, hne => by
    have hc : c ∈ s.peers.nodes := hcs ▸ List.mem_cons_self
    have ho := closing_owns L nodes lost scratch hi hc
    rcases h.clean (w := w) hne ho with hrun | ⟨h₁, hrun, hf₁, hne₁⟩
    · have hrun' : utilCleanComponent w (compNode L c.addr).data a = none := hrun
      rw [List.map_cons, Memory.finalizeLoop]
      simp only [hrun', Option.bind_eq_bind, Option.bind_none]
    · rw [ho.release] at hf₁
      obtain ⟨h', hl', hstep⟩ := finalizeLoop_step hi hc hrun hf₁.laid cs
      rw [hstep]
      refine Freed.finalizeLoop cs (hi.dropComp hc) (erase_head hcs)
        ⟨hl', h.peers, h.catchMap, closing_reads (hi.dropComp hc), by simpa [closing] using h.table,
          fun o hn => hf₁.gone o ?_⟩ hne₁
      cases o with
      | inl o => exact hn
      | inr o =>
        rw [Sum.elim_inr, show (dropComp s c).peers = s.peers.erase c.id from rfl,
          ← closing_erase hi hc] at hn
        by_cases hoc : o = .comp c.addr
        · simp [hoc] at hn
        · rwa [Function.update_of_ne hoc] at hn

theorem sets_empty (hi : Inv s) (hne : s.catchEventMap.nodes = []) {c : CompInfo}
    (hc : c ∈ s.peers.nodes) : c.catchEventSet.nodes = [] := by
  rw [List.eq_nil_iff_forall_not_mem]
  intro m hm
  have hr : isEqualEventMask m m = true := KeyEq.refl _
  have hcont : c.catchEventSet.contains m = true := List.any_eq_true.2 ⟨m, hm, hr⟩
  rw [hi.sync c hc m] at hcont
  obtain ⟨e, he, -⟩ := lists_iff.1 hcont
  rw [hne] at he
  cases he

/-- Without masks, the loop frees the components and their sets. -/
theorem finalizeLoop_idle :
    ∀ (cs : List CompInfo) {s : NodeInfo} {a : Image N}, Inv s → s.peers.nodes = cs →
      Laid (Sum.elim (catchBlocks L s.catchEventMap) (closing L nodes s.peers lost scratch)) L a.heap →
      s.catchEventMap.nodes = [] →
      ∃ h', finalizeLoop w (cs.map fun c => compNode L c.addr) a =
          some { a with heap := h', net := w.sendAll (cs.flatMap (farewell a.self)) a.net } ∧
        Laid (Sum.elim (catchBlocks L .empty) (closing L nodes .empty lost scratch)) L h'
  | [], s, a, hi, hcs, hl, hne => by
    have hp : s.peers = .empty := KeyList.ext_nodes hcs
    have hm : s.catchEventMap = .empty := KeyList.ext_nodes hne
    rw [hp, hm] at hl
    exact ⟨a.heap, rfl, hl⟩
  | c :: cs, s, a, hi, hcs, hl, hne => by
    have hc : c ∈ s.peers.nodes := hcs ▸ List.mem_cons_self
    have hset := sets_empty hi hne hc
    have ho := closing_owns L nodes lost scratch hi hc
    obtain ⟨h₁, hfree, hl₁⟩ := free_inr hl ho.set
    have hrel : Function.update (closing L nodes s.peers lost scratch) (.set c.addr) none =
        release c.addr (closing L nodes s.peers lost scratch) := by
      have hr := ho.release
      rw [hset] at hr
      exact hr
    rw [hrel] at hl₁
    have hrun : utilCleanComponent w (L (.inr (.comp c.addr))) a = some { a with heap := h₁ } := by
      have hcomp : compAt a.heap (L (.inr (.comp c.addr))) = _ :=
        compAt_of hl (o := (.inr (.comp c.addr) : Owner)) ho.comp
      have hnodes : mapAt a.heap (L (.inr (.set c.addr))) = _ :=
        mapAt_of hl (o := (.inr (.set c.addr) : Owner)) ho.set
      rw [hset] at hnodes
      simp [utilCleanComponent, hcomp, hnodes, Memory.cleanLoop, mapFinalize, hfree]
    obtain ⟨h₂, hl₂, hstep⟩ := finalizeLoop_step hi hc hrun hl₁ cs
    have hdrop : catchDrop s.catchEventMap c = s.catchEventMap := by
      rw [catchDrop, hset]
      rfl
    obtain ⟨h', hloop, hl'⟩ := finalizeLoop_idle cs (s := dropComp s c)
      (a := { a with heap := h₂, net := w.sendAll (farewell a.self c) a.net }) (hi.dropComp hc)
      (erase_head hcs) (by rw [show (dropComp s c).catchEventMap = s.catchEventMap from hdrop]; exact hl₂)
      (by rw [show (dropComp s c).catchEventMap = s.catchEventMap from hdrop]; exact hne)
    refine ⟨h', ?_, hl'⟩
    rw [hstep, hloop, List.flatMap_cons, sendAll_append]

end

end FTBM.Memory
