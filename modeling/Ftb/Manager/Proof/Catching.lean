import Ftb.Manager.Proof.Masks

/-!
# The list of catchers

`FTBM_Get_catcher_comp_list` allocates a set and a list of its own, the blocks `scratch` of the call.
The list is read by `progress_loop` while `FTBM_Send` changes the tables, and freed at its end.
-/

open FTB FTBU FTBN FTBMI Layout

namespace FTBM.Memory

variable {N : Type} {w : Network N} {A : Allocator Block} {L : Owner → Nat} {s : NodeInfo}
  {lost : Nat} {scratch : Nat → Option Block} {a : Image N}

/-! ## Blocks of a call -/

theorem blocks_scratch (k : Nat) (b : Option Block) :
    Function.update (blocks L s lost scratch) (.inr (.scratch k)) b =
      blocks L s lost (Function.update scratch k b) := by
  rw [blocks, Sum.update_elim_inr]
  refine congrArg (Sum.elim _) (funext fun o => ?_)
  cases o with
  | scratch j =>
    by_cases hj : j = k
    · simp [hj, peerBlocks]
    · rw [Function.update_of_ne (by simpa using hj)]
      simp [peerBlocks, hj]
  | table => simp [peerBlocks]
  | comp n => simp [peerBlocks]
  | set n => simp [peerBlocks]
  | mask n m => simp [peerBlocks]
  | lost j => simp [peerBlocks]

theorem HoldsAt.scratchMalloc (h : HoldsAt L s lost scratch a) (hi : Inv s) {k : Nat}
    (hk : scratch k = none) (b : Block) :
    ∃ L', L' (.inr (.scratch k)) = (A.malloc b a.heap).1 ∧
      (∀ o, o ≠ .inr (.scratch k) → L' o = L o) ∧
      HoldsAt L' s lost (Function.update scratch k (some b))
        { a with heap := (A.malloc b a.heap).2 } := by
  have hnone : blocks L s lost scratch (.inr (.scratch k)) = none := by simp [blocks, peerBlocks, hk]
  have hl := h.laid.malloc A hnone b
  rw [← blocks_update hi.addrs hi.held hnone (A.pick a.heap), blocks_scratch] at hl
  refine ⟨_, Function.update_self .., fun o ho => Function.update_of_ne ho .., hl, ?_, ?_, h.parent,
    h.self, h.errHandling, h.initialized, h.lostSets_at fun _ => Function.update_of_ne (by simp) ..⟩
  · rw [Function.update_of_ne (by simp), h.peers]
  · rw [Function.update_of_ne (by simp), h.catchMap]

theorem scratch_block {k : Nat} {b : Block} (hk : scratch k = some b) :
    blocks L s lost scratch (.inr (.scratch k)) = some b := by
  simp [blocks, peerBlocks, hk]

theorem HoldsAt.scratchStore (h : HoldsAt L s lost scratch a) {k : Nat} {b : Block}
    (hk : scratch k = some b) (b' : Block) :
    ∃ h', a.heap.store (L (.inr (.scratch k))) b' = some h' ∧
      HoldsAt L s lost (Function.update scratch k (some b')) { a with heap := h' } := by
  obtain ⟨h', hs, hl⟩ := h.laid.store (scratch_block hk) b'
  rw [blocks_scratch] at hl
  exact ⟨h', hs, hl, h.peers, h.catchMap, h.parent, h.self, h.errHandling, h.initialized, h.lostSets⟩

theorem HoldsAt.scratchFree (h : HoldsAt L s lost scratch a) {k : Nat} {b : Block}
    (hk : scratch k = some b) :
    ∃ h', a.heap.free (L (.inr (.scratch k))) = some h' ∧
      HoldsAt L s lost (Function.update scratch k none) { a with heap := h' } := by
  obtain ⟨h', hs, hl⟩ := h.laid.free (scratch_block hk)
  rw [blocks_scratch] at hl
  exact ⟨h', hs, hl, h.peers, h.catchMap, h.parent, h.self, h.errHandling, h.initialized, h.lostSets⟩

/-! ## `FTBM_Get_catcher_comp_list` -/

/-- `catcher_set` has the components `refs`. -/
def setBlock (L : Owner → Nat) (refs : List CompRef) : Block :=
  .map (refs.map fun r => compNode L r.addr)

/-- The set in memory holds the components of the set of ids, in the same order. -/
structure Gathers (L : Owner → Nat) (s : NodeInfo) (lost : Nat) (scratch : Nat → Option Block)
    (refs : List CompRef) (set : CatcherSet) (a : Image N) : Prop where
  holds : HoldsAt L s lost (Function.update scratch 0 (some (setBlock L refs))) a
  peers : ∀ r ∈ refs, ∃ c ∈ s.peers.nodes, c.ref = r
  ids : set.nodes = refs.map CompRef.id

theorem comp_read (h : HoldsAt L s lost scratch a) (hi : Inv s) {r : CompRef}
    (hr : ∃ c ∈ s.peers.nodes, c.ref = r) :
    ∃ set, compAt a.heap (L (.inr (.comp r.addr))) = some (r.id, set) := by
  obtain ⟨c, hc, rfl⟩ := hr
  exact ⟨_, compAt_of h.laid (o := (.inr (.comp c.addr) : Owner))
    (owns_peer L lost scratch hi.addrs hc).comp⟩

/-- The step of `collectCatchers`. -/
def gather (acc : CatcherSet × Nat) (r : CompRef) : CatcherSet × Nat :=
  if acc.1.contains r.id then acc else (acc.1.insert r.id, acc.2 + 1)

theorem compsLoop_run (hi : Inv s) :
    ∀ (rs : List CompRef) {refs : List CompRef} {p : CatcherSet × Nat} {a : Image N},
      Gathers L s lost scratch refs p.1 a → (∀ r ∈ rs, ∃ c ∈ s.peers.nodes, c.ref = r) →
      ∃ h' refs', compsLoop (L (.inr (.scratch 0))) (rs.map fun r => compNode L r.addr) p.2 a.heap =
          some (h', (rs.foldl gather p).2) ∧
        Gathers L s lost scratch refs' (rs.foldl gather p).1 { a with heap := h' }
  | [], refs, p, a, hg, _ => ⟨a.heap, refs, rfl, hg⟩
  | r :: rs, refs, p, a, hg, hrs => by
    have hr := hrs r List.mem_cons_self
    obtain ⟨set, hcomp⟩ := comp_read hg.holds hi hr
    have hread : mapAt a.heap (L (.inr (.scratch 0))) = some (refs.map fun r => compNode L r.addr) :=
      mapAt_of hg.holds.laid (o := (.inr (.scratch 0) : Owner)) (scratch_block (by simp [setBlock]))
    have hfind : mapFindKey (compEq a.heap (L (.inr (.comp r.addr))))
        (refs.map fun r => compNode L r.addr) =
          some ((refs.find? fun x => isEqualFtbId x.id r.id).map fun r => compNode L r.addr) := by
      refine mapFindKey_map (fun r : CompRef => compNode L r.addr) refs fun x hx => ?_
      obtain ⟨setx, hcx⟩ := comp_read hg.holds hi (hg.peers x hx)
      simp [compEq, compNode, hcx, hcomp]
    have hcont : p.1.contains r.id = (refs.find? fun x => isEqualFtbId x.id r.id).isSome := by
      rw [KeyList.contains, hg.ids, List.any_map, Bool.eq_iff_iff, List.any_eq_true, List.find?_isSome]
      rfl
    rw [List.map_cons, compsLoop, List.foldl_cons, gather]
    have hread' : mapAt a.heap (L (.inr (.scratch 0))) = _ := hread
    simp only [hread', Option.bind_eq_bind, Option.bind_some]
    cases hq : refs.find? fun x => isEqualFtbId x.id r.id with
    | some x =>
      rw [hq] at hfind hcont
      have hold : p.1.contains r.id = true := hcont
      rw [if_pos hold]
      have hfind' : mapFindKey (compEq a.heap (compNode L r.addr).data) _ = _ := hfind
      simp only [hfind', Option.bind_some]
      exact compsLoop_run hi rs hg fun x hx => hrs x (List.mem_cons_of_mem _ hx)
    | none =>
      rw [hq] at hfind hcont
      have hnew : p.1.contains r.id = false := hcont
      rw [if_neg (by simp [hnew])]
      have hfind' : mapFindKey (compEq a.heap (compNode L r.addr).data) _ = _ := hfind
      obtain ⟨h₁, hstore, hh⟩ := hg.holds.scratchStore (k := 0) (b := setBlock L refs) (by simp)
        (setBlock L (refs ++ [r]))
      rw [setBlock, List.map_append] at hstore
      have hins := mapInsert_success hread hfind hstore
      have hins' : mapInsert (compEq a.heap (compNode L r.addr).data) (L (.inr (.scratch 0)))
        ⟨(compNode L r.addr).data, (compNode L r.addr).data⟩ a.heap = _ := hins
      simp only [hfind', hins', Option.bind_some]
      rw [Function.update_idem] at hh
      refine compsLoop_run hi rs (p := (p.1.insert r.id, p.2 + 1)) (a := { a with heap := h₁ })
        ⟨hh, ?_, ?_⟩ fun x hx => hrs x (List.mem_cons_of_mem _ hx)
      · intro x hx
        rcases List.mem_append.1 hx with hx | hx
        · exact hg.peers x hx
        · rw [List.mem_singleton.1 hx]
          exact hr
      · have hnodes := KeyList.nodes_insert (m := p.1) (v := r.id) hnew
        rw [hnodes, hg.ids, List.map_append]
        rfl

/-- The step over the entries. -/
def gatherEntry (event : Event) (acc : CatcherSet × Nat) (ent : CatchEntry) : CatcherSet × Nat :=
  if matchMask event ent.mask then ent.comps.nodes.foldl gather acc else acc

theorem masksLoop_run (hi : Inv s) (event : Event) :
    ∀ (ents : List CatchEntry) {refs : List CompRef} {p : CatcherSet × Nat} {a : Image N},
      Gathers L s lost scratch refs p.1 a → (∀ e ∈ ents, e ∈ s.catchEventMap.nodes) →
      ∃ h' refs', masksLoop event (L (.inr (.scratch 0))) (ents.map (entryNode L)) p.2 a.heap =
          some (h', (ents.foldl (gatherEntry event) p).2) ∧
        Gathers L s lost scratch refs' (ents.foldl (gatherEntry event) p).1 { a with heap := h' }
  | [], refs, p, a, hg, _ => ⟨a.heap, refs, rfl, hg⟩
  | e :: ents, refs, p, a, hg, hents => by
    have he := hents e List.mem_cons_self
    have hrest : ∀ x ∈ ents, x ∈ s.catchEventMap.nodes := fun x hx => hents x (List.mem_cons_of_mem _ hx)
    have hmask : maskAt a.heap (entryNode L e).key = some e.mask :=
      maskAt_of hg.holds.laid (o := (.inl (.key e.mask) : Owner)) (key_block (L := L) he)
    rw [List.map_cons, masksLoop, List.foldl_cons, gatherEntry, hmask]
    simp only [Option.bind_eq_bind, Option.bind_some]
    by_cases hmatch : matchMask event e.mask = true
    · have hcomps : mapAt a.heap (entryNode L e).data =
          some (e.comps.nodes.map fun r => compNode L r.addr) :=
        mapAt_of hg.holds.laid (o := (.inl (.comps e.mask) : Owner)) (comps_block (L := L) he)
      obtain ⟨h₁, refs₁, hrun, hg₁⟩ := compsLoop_run hi e.comps.nodes hg (hi.held e he)
      rw [if_pos hmatch, if_pos hmatch, hcomps]
      simp only [Option.bind_some, hrun]
      exact masksLoop_run hi event ents (a := { a with heap := h₁ }) hg₁ hrest
    · rw [if_neg hmatch, if_neg hmatch]
      exact masksLoop_run hi event ents hg hrest

theorem readIds_run (hi : Inv s) (h : HoldsAt L s lost scratch a) :
    ∀ refs : List CompRef, (∀ r ∈ refs, ∃ c ∈ s.peers.nodes, c.ref = r) →
      readIds a.heap (refs.map fun r => compNode L r.addr) = some (refs.map CompRef.id)
  | [], _ => rfl
  | r :: refs, hrs => by
    obtain ⟨set, hcomp⟩ := comp_read h hi (hrs r List.mem_cons_self)
    have hcomp' : compAt a.heap (compNode L r.addr).data = _ := hcomp
    have ih := readIds_run hi h refs fun x hx => hrs x (List.mem_cons_of_mem _ hx)
    rw [List.map_cons, readIds, hcomp', ih]
    rfl

/-- **The list of `FTBM_Get_catcher_comp_list`** is the one block that the call leaves. -/
theorem getCatcherCompList_run (h : HoldsAt L s lost (fun _ => none) a) (hi : Inv s)
    (hr : s.ready = true) (event : Event) :
    ∃ l L' h', FTBM.getCatcherCompList event s = .ok l ∧
      getCatcherCompList A event a = some (.ok (L' (.inr (.scratch 1)), l.len), { a with heap := h' }) ∧
      HoldsAt L' s lost (Function.update (fun _ => none) 1 (some (.ids l.list))) { a with heap := h' } := by
  obtain ⟨hinit, -⟩ := NodeInfo.ready_iff.1 hr
  have hinit' : a.initialized = true := h.initialized.trans hinit
  obtain ⟨L₁, hset, hself₁, hh₁⟩ := h.scratchMalloc (A := A) hi (k := 0) rfl (.map [])
  have hg : Gathers L₁ s lost (fun _ => none) [] (KeyList.empty : CatcherSet) _ :=
    ⟨hh₁, by simp, rfl⟩
  obtain ⟨h₂, refs, hrun, hg₂⟩ := masksLoop_run hi event s.catchEventMap.nodes (p := (.empty, 0)) hg
    fun _ he => he
  have hall : s.catchEventMap.nodes.foldl (gatherEntry event) (.empty, 0) = collectCatchers event s := rfl
  rw [hall] at hrun hg₂
  generalize hc : collectCatchers event s = acc at hrun hg₂
  obtain ⟨set, len⟩ := acc
  dsimp only at hrun hg₂
  obtain ⟨L₂, hlist, hself₂, hh₂⟩ := hg₂.holds.scratchMalloc (A := A) hi (k := 1) rfl
    (.ids (List.replicate len none))
  have hsame : setBlock L₁ refs = setBlock L₂ refs := by
    refine congrArg Block.map (List.map_congr_left fun r _ => ?_)
    rw [compNode, compNode, hself₂ _ (by simp)]
  have hread : mapAt (A.malloc (.ids (List.replicate len none)) h₂).2 (L₁ (.inr (.scratch 0))) =
      some (refs.map fun r => compNode L₂ r.addr) := by
    rw [← hself₂ _ (by simp)]
    exact mapAt_of hh₂.laid (o := (.inr (.scratch 0) : Owner))
      (scratch_block (by rw [hsame]; simp [setBlock]))
  have hids := readIds_run hi hh₂ refs hg₂.peers
  obtain ⟨h₄, hstore, hh₄⟩ := hh₂.scratchStore (k := 1) (Function.update_self ..)
    (.ids (applyWrites len (fillWrites set.nodes len)))
  obtain ⟨h₅, hfree, hh₅⟩ := hh₄.scratchFree (k := 0) (b := setBlock L₁ refs) (by simp)
  have hend : Function.update (Function.update (Function.update (Function.update
      (fun _ : Nat => (none : Option Block)) 0 (some (setBlock L₁ refs))) 1
      (some (.ids (List.replicate len none)))) 1
      (some (.ids (applyWrites len (fillWrites set.nodes len)))))
      0 none = Function.update (fun _ => none) 1
        (some (.ids (applyWrites len (fillWrites set.nodes len)))) := by
    funext k
    by_cases h0 : k = 0
    · simp [h0]
    · by_cases h1 : k = 1
      · simp [h1]
      · simp [Function.update_of_ne h0, Function.update_of_ne h1]
  rw [hend] at hh₅
  refine ⟨⟨applyWrites len (fillWrites set.nodes len), len, fillWrites set.nodes len⟩, L₂, h₅, ?_, ?_, hh₅⟩
  · unfold FTBM.getCatcherCompList
    rw [if_neg (by simp [hinit]), hc]
  · have hcatch : mapAt (A.malloc (.map []) a.heap).2 a.catchEventMap =
        some (s.catchEventMap.nodes.map (entryNode L₁)) := hh₁.catches
    rw [hself₂ _ (by simp), hset] at hfree
    rw [hlist] at hstore
    rw [hset] at hread hrun
    rw [← hg₂.ids] at hids
    have hread₄ : mapAt h₄ (A.malloc (.map []) a.heap).1 =
        some (refs.map fun r => compNode L₁ r.addr) := by
      rw [← hset, ← hself₂ _ (by simp)]
      exact mapAt_of hh₄.laid (o := (.inr (.scratch 0) : Owner)) (scratch_block (by simp [setBlock]))
    have hfin : mapFinalize (A.malloc (.map []) a.heap).1 h₄ = some h₅ := by
      rw [mapFinalize, hread₄]
      exact hfree
    unfold getCatcherCompList
    rw [if_neg (by simp [hinit'])]
    dsimp only at hstore hids hrun
    simp only [hcatch, hrun, hread, hids, hstore, hfin, Option.bind_eq_bind, Option.bind_some, hlist]
    rfl

end FTBM.Memory
