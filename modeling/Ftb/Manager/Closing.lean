import Ftb.Manager.Proof.Closing

/-!
# The end of an agent (`FTBM_Finalize`)

`FTBM_Finalize` frees one component after the other and leaves the nodes in `peers`. A component
that is cleaned after the first can empty a mask, and the cancellation is then propagated over all
nodes of `peers`, the first of which points to freed memory. `finalize_cases` says when that
happens, and what is left in memory when it does not.
-/

open FTB FTBU FTBN FTBMI Layout

namespace FTBM.Memory

variable {N : Type} {w : Network N} {L : Owner → Nat} {s : NodeInfo} {lost : Nat}
  {scratch : Nat → Option Block} {a : Image N}

/-- The masks that are left without the first component. -/
theorem left_iff (hi : Inv s) {c : CompInfo} {cs : List CompInfo} (hcs : s.peers.nodes = c :: cs) :
    (catchDrop s.catchEventMap c).nodes ≠ [] ↔ ∃ d ∈ cs, d.catchEventSet.nodes ≠ [] := by
  have hc : c ∈ s.peers.nodes := hcs ▸ List.mem_cons_self
  have hd := hi.dropComp hc
  have hpeers : (dropComp s c).peers.nodes = cs := erase_head hcs
  constructor
  · intro hne
    obtain ⟨e, he⟩ := List.exists_mem_of_ne_nil _ hne
    obtain ⟨r, hr⟩ := List.exists_mem_of_ne_nil _ (hd.noEmpty e he)
    obtain ⟨d, hdm, rfl⟩ := hd.held e he r hr
    have hlist : (dropComp s c).listed d.id e.mask = true := lists_of_mem he hr
    rw [← hd.sync d hdm] at hlist
    obtain ⟨m, hm, -⟩ := List.any_eq_true.1 hlist
    exact ⟨d, hpeers ▸ hdm, List.ne_nil_of_mem hm⟩
  · rintro ⟨d, hdm, hset⟩ hnil
    exact hset (sets_empty hd hnil (hpeers ▸ hdm))

/-- The memory at the loop, and after it when it ends. -/
theorem finalizeLoop_cases (hi : Inv s)
    (h : Sees (catchBlocks L s.catchEventMap) (peerBlocks L s.peers lost scratch) L s a) :
    finalizeLoop w (s.peers.nodes.map fun c => compNode L c.addr) a = none ∧
        (∃ c ∈ s.peers.nodes.tail, c.catchEventSet.nodes ≠ []) ∨
      ∃ h' net, finalizeLoop w (s.peers.nodes.map fun c => compNode L c.addr) a =
          some { a with heap := h', net } ∧
        Laid (Sum.elim (catchBlocks L .empty)
          (closing L (s.peers.nodes.map fun c => compNode L c.addr) .empty lost scratch)) L h' ∧
        ¬∃ c ∈ s.peers.nodes.tail, c.catchEventSet.nodes ≠ [] := by
  have hsame : closing L (s.peers.nodes.map fun c => compNode L c.addr) s.peers lost scratch =
      peerBlocks L s.peers lost scratch := Function.update_eq_self ..
  have hlaid := h.laid
  rw [← hsame] at hlaid
  cases hcs : s.peers.nodes with
  | nil =>
    have hp : s.peers = .empty := KeyList.ext_nodes hcs
    have hm : s.catchEventMap.nodes = [] := by
      by_contra hne
      obtain ⟨e, he⟩ := List.exists_mem_of_ne_nil _ hne
      obtain ⟨r, hr⟩ := List.exists_mem_of_ne_nil _ (hi.noEmpty e he)
      obtain ⟨c, hc, -⟩ := hi.held e he r hr
      rw [hcs] at hc
      cases hc
    have hm' : s.catchEventMap = .empty := KeyList.ext_nodes hm
    rw [hcs, hp, hm'] at hlaid
    exact .inr ⟨a.heap, a.net, rfl, hlaid, by simp⟩
  | cons c cs =>
    have hc : c ∈ s.peers.nodes := hcs ▸ List.mem_cons_self
    obtain ⟨h₁, hrun, hl₁⟩ := h.clean (w := w) (reads_tables _ _ _ hi) (owns_peer _ _ _ hi.addrs hc)
    rw [← hsame] at hl₁
    obtain ⟨h₂, hl₂, hstep⟩ := finalizeLoop_step hi hc hrun hl₁ cs
    rw [hcs] at hl₂
    rw [hstep, List.tail_cons, ← left_iff hi hcs]
    by_cases hne : (catchDrop s.catchEventMap c).nodes = []
    · obtain ⟨h', hloop, hl'⟩ := finalizeLoop_idle (w := w) cs (s := dropComp s c) (L := L)
        (a := { a with heap := h₂, net := _ }) (hi.dropComp hc) (erase_head hcs) hl₂ hne
      exact .inr ⟨h', _, hloop, hl', fun hn => hn hne⟩
    · have howns := closing_owns L (s.peers.nodes.map fun c => compNode L c.addr) lost scratch hi hc
      have hgone := gone_of_free hl₁ (n := c.addr) (by simp [release, howns.comp])
      rw [closing_erase hi hc, hcs] at hgone
      have hd := hi.dropComp hc
      exact .inl ⟨Freed.finalizeLoop cs hd (erase_head hcs)
        ⟨hl₂, h.peers, h.catchMap, closing_reads hd, ⟨_, Function.update_self ..⟩, hgone⟩ hne, hne⟩

/-- The blocks that are left. -/
def leftover (lost : Nat) (scratch : Nat → Option Block) : Owner → Option Block
  | .inr (.lost k) => if k < lost then some (.map []) else none
  | .inr (.scratch k) => scratch k
  | _ => none

/-- The two maps go last. -/
theorem closing_freed {nodes : List Node} :
    Sum.elim (Function.update (catchBlocks L .empty) .table none)
      (Function.update (closing L nodes .empty lost scratch) .table none) = leftover lost scratch := by
  funext o
  match o with
  | .inl .table => simp [leftover]
  | .inl (.key m) => simp [leftover, catchBlocks, entryOf, KeyList.empty]
  | .inl (.comps m) => simp [leftover, catchBlocks, entryOf, KeyList.empty]
  | .inr .table => simp [leftover]
  | .inr (.comp n) => simp [leftover, closing, peerBlocks, peerOf, KeyList.empty]
  | .inr (.set n) => simp [leftover, closing, peerBlocks, peerOf, KeyList.empty]
  | .inr (.mask n m) => simp [leftover, closing, peerBlocks, peerOf, KeyList.empty]
  | .inr (.lost k) => simp [leftover, closing, peerBlocks]
  | .inr (.scratch k) => simp [leftover, closing, peerBlocks]

/-- **`FTBM_Finalize` of an agent reads freed memory exactly when a component after the first has a
mask.** Otherwise it leaves the blocks that nothing pointed to before. -/
theorem finalize_cases (ending : N → N) (hi : Inv s) (h : HoldsAt L s lost scratch a)
    (hr : a.initialized = true) :
    finalize w ending a = none ∧ (∃ c ∈ s.peers.nodes.tail, c.catchEventSet.nodes ≠ []) ∨
      ∃ h' net, finalize w ending a =
          some (.success, { a with initialized := false, heap := h', net }) ∧
        Laid (leftover lost scratch) L h' ∧
        ¬∃ c ∈ s.peers.nodes.tail, c.catchEventSet.nodes ≠ [] := by
  have hs := h.sees hi
  have hcases := finalizeLoop_cases (w := w) (a := { a with initialized := false }) hi
    ⟨hs.laid, hs.peers, hs.catchMap, hs.self, hs.table, hs.comps⟩
  have htable : mapAt a.heap a.peers = _ := h.table
  rcases hcases with ⟨hloop, hmask⟩ | ⟨h₁, net, hloop, hl₁, hmask⟩
  · refine .inl ⟨?_, hmask⟩
    simp [finalize, hr, htable, hloop]
  · have htab : Memory.closing L (s.peers.nodes.map fun c => compNode L c.addr) .empty lost scratch
        .table = some (.map _) := Function.update_self ..
    obtain ⟨h₂, hfree₂, hl₂⟩ := free_inr hl₁ (o := .table) htab
    obtain ⟨h₃, hfree₃, hl₃⟩ := free_inl hl₂ (o := .table) rfl
    rw [closing_freed] at hl₃
    have hfin₂ : mapFinalize a.peers h₁ = some h₂ := by
      rw [← h.peers, mapFinalize, mapAt_of hl₁ (o := (.inr .table : Owner)) htab]
      exact hfree₂
    have hfin₃ : mapFinalize a.catchEventMap h₂ = some h₃ := by
      rw [← h.catchMap, mapFinalize, mapAt_of hl₂ (o := (.inl .table : Owner)) rfl]
      exact hfree₃
    exact .inr ⟨h₃, ending net, by simp [finalize, hr, htable, hloop, hfin₂, hfin₃], hl₃, hmask⟩

theorem ncard_leftover : {o | leftover lost (fun _ => none) o ≠ none}.ncard = lost := by
  have himage : {o | leftover lost (fun _ => none) o ≠ none} =
      (fun k => (.inr (.lost k) : Owner)) '' (Finset.range lost : Set Nat) := by
    ext o
    match o with
    | .inl .table => simp [leftover]
    | .inl (.key m) => simp [leftover]
    | .inl (.comps m) => simp [leftover]
    | .inr .table => simp [leftover]
    | .inr (.comp n) => simp [leftover]
    | .inr (.set n) => simp [leftover]
    | .inr (.mask n m) => simp [leftover]
    | .inr (.lost k) => simp [leftover]
    | .inr (.scratch k) => simp [leftover]
  rw [himage, Set.ncard_image_of_injective _ fun j k hjk => by simpa using hjk,
    Set.ncard_coe_finset, Finset.card_range]

/-- What is left are the lost sets, empty as they were. -/
theorem leftover_cells {a : Image N} (h : HoldsAt L s lost (fun _ => none) a) {h' : Heap Block}
    (hl : Laid (leftover lost fun _ => none) L h') (x : Nat) (b : Block) :
    h'.cells x = some b ↔ x ∈ a.lostSets ∧ b = .map [] := by
  rw [hl.cells, h.lostSets]
  simp only [List.mem_map, List.mem_range]
  constructor
  · rintro ⟨o, ho, rfl⟩
    match o with
    | .inr (.lost k) =>
      simp only [leftover] at ho
      split at ho
      · rename_i hk
        exact ⟨⟨k, hk, rfl⟩, (Option.some.inj ho).symm⟩
      · cases ho
    | .inr .table | .inr (.comp _) | .inr (.set _) | .inr (.mask _ _) | .inr (.scratch _)
    | .inl .table | .inl (.key _) | .inl (.comps _) => cases ho
  · rintro ⟨⟨k, hk, rfl⟩, rfl⟩
    exact ⟨.inr (.lost k), if_pos hk, rfl⟩

end FTBM.Memory
