import Ftb.Manager.Memory
import Ftb.Manager.Proof.Inv

/-!
# The blocks of the tables

Who owns the blocks of an agent (`Owner`), and which block each owner has when the tables are those
of a `NodeInfo` (`catchBlocks`, `peerBlocks`, `blocks`). Every change of the tables is an update of
these functions, stated once for each: `peerBlocks_insert`, `catchBlocks_erase`, and so on. The
blocks of `catch_event_map` are apart from the others, since the loops that clean components change
the two at different times.
-/

open FTB FTBU FTBN FTBMI Layout

namespace FTBM.Memory

/-- The blocks of `catch_event_map`: its head, and the copy and the component map of a mask. -/
inductive CatchOwner
  | table
  | key (mask : Event)
  | comps (mask : Event)
  deriving DecidableEq

/-- The head of `peers`; a component, its set and its masks; blocks that nothing points to any more;
blocks of a call. -/
inductive PeerOwner
  | table
  | comp (n : Nat)
  | set (n : Nat)
  | mask (n : Nat) (m : Event)
  | lost (k : Nat)
  | scratch (k : Nat)
  deriving DecidableEq

abbrev Owner := CatchOwner ⊕ PeerOwner

/-! ## Entries of a table -/

/-- The entry with exactly this mask. -/
def entryOf (map : CatchEventMap) (mask : Event) : Option CatchEntry :=
  map.nodes.find? fun e => decide (e.mask = mask)

/-- The component that was allocated as number `n`. -/
def peerOf (peers : Peers) (n : Nat) : Option CompInfo :=
  peers.nodes.find? fun c => decide (c.addr = n)

/-- No two components have one number. -/
def Numbered (peers : Peers) : Prop := peers.nodes.Pairwise fun c d => c.addr ≠ d.addr

/-- A search by a field that no two values of the list share. -/
theorem find?_field {α β : Type} [DecidableEq β] (f : α → β) {l : List α}
    (hd : l.Pairwise fun x y => f x ≠ f y) {b : β} {x : α} :
    (l.find? fun x => decide (f x = b)) = some x ↔ x ∈ l ∧ f x = b := by
  constructor
  · intro h
    exact ⟨List.mem_of_find?_eq_some h, by simpa using List.find?_some h⟩
  · rintro ⟨hx, rfl⟩
    induction l with
    | nil => cases hx
    | cons y l ih =>
      obtain ⟨hy, hd⟩ := List.pairwise_cons.1 hd
      rcases List.mem_cons.1 hx with rfl | hx
      · simp
      · rw [List.find?_cons_of_neg (by simpa using hy x hx), ih hd hx]

theorem distinct_masks (map : CatchEventMap) :
    map.nodes.Pairwise fun e e' => e.mask ≠ e'.mask :=
  map.distinct.imp fun {e e'} h he => by
    have hr : isEqualEventMask e'.mask e'.mask = true := KeyEq.refl _
    rw [he, hr] at h
    cases h

theorem entryOf_eq_some {map : CatchEventMap} {mask : Event} {e : CatchEntry} :
    entryOf map mask = some e ↔ e ∈ map.nodes ∧ e.mask = mask :=
  find?_field CatchEntry.mask (distinct_masks map)

theorem peerOf_eq_some {peers : Peers} (hn : Numbered peers) {n : Nat} {c : CompInfo} :
    peerOf peers n = some c ↔ c ∈ peers.nodes ∧ c.addr = n :=
  find?_field CompInfo.addr hn

/-- A number that no component has. -/
theorem peerOf_eq_none {peers : Peers} {n : Nat} (h : ∀ c ∈ peers.nodes, c.addr ≠ n) :
    peerOf peers n = none := by
  rw [peerOf, List.find?_eq_none]
  intro c hc
  simpa using h c hc

theorem entryOf_insert {map : CatchEventMap} {ent : CatchEntry} (h : map.find? ent.mask = none)
    (m : Event) :
    entryOf (map.insert ent) m = if m = ent.mask then some ent else entryOf map m := by
  have hc : map.contains ent.mask = false := KeyList.contains_eq_false h
  have hnot : entryOf map ent.mask = none := by
    rw [entryOf, List.find?_eq_none]
    intro e he heq
    have hm : e.mask = ent.mask := of_decide_eq_true heq
    have hn := KeyList.find?_eq_none.1 h e he
    have hr : isEqualEventMask ent.mask ent.mask = true := KeyEq.refl _
    rw [hm, hr] at hn
    cases hn
  unfold entryOf at hnot ⊢
  rw [KeyList.nodes_insert hc, List.find?_append]
  split
  · rename_i hm
    rw [hm, hnot]
    simp
  · rename_i hm
    have hm' : ¬ent.mask = m := fun h => hm h.symm
    simp [hm']

theorem entryOf_erase {map : CatchEventMap} {ent : CatchEntry} (h : ent ∈ map.nodes) (m : Event) :
    entryOf (map.erase ent.mask) m = if m = ent.mask then none else entryOf map m := by
  ext e
  rw [entryOf_eq_some, KeyList.mem_erase]
  split
  · rename_i hm
    have hr : isEqualEventMask ent.mask ent.mask = true := KeyEq.refl _
    constructor
    · rintro ⟨⟨-, hne⟩, he⟩
      rw [he, hm, hr] at hne
      cases hne
    · intro hn
      cases hn
  · rename_i hm
    rw [entryOf_eq_some]
    refine ⟨fun ⟨⟨he, _⟩, hem⟩ => ⟨he, hem⟩, fun ⟨he, hem⟩ => ⟨⟨he, ?_⟩, hem⟩⟩
    by_contra hq
    rw [Bool.not_eq_false] at hq
    exact hm (by rw [← hem, KeyList.eq_of_mem he h hq])

theorem entryOf_adjust {map : CatchEventMap} {mask : Event} {ent : CatchEntry}
    (h : map.find? mask = some ent) (comps : CompMap) (m : Event) :
    entryOf (map.adjust mask (fun x => { x with comps }) fun _ => rfl) m =
      if m = ent.mask then some { ent with comps } else entryOf map m := by
  obtain ⟨hmem, heq⟩ := KeyList.mem_of_find? h
  -- only `ent` is adjusted
  have honly : ∀ e ∈ map.nodes, isEqualEventMask e.mask mask = true → e = ent := fun e he hq =>
    KeyList.eq_of_mem he hmem (KeyEq.trans hq (KeyEq.symm heq))
  ext e
  rw [entryOf_eq_some, KeyList.mem_adjust]
  split
  · rename_i hm
    rw [Option.some.injEq]
    constructor
    · rintro ⟨⟨x, hx, rfl⟩, hxm⟩
      split at hxm
      · rename_i hq
        rw [if_pos hq, honly x hx hq]
      · rename_i hq
        have hxe : x = ent := KeyList.eq_of_mem hx hmem (by rw [hxm, hm]; exact KeyEq.refl _)
        exact absurd (hxe ▸ heq) hq
    · rintro rfl
      exact ⟨⟨ent, hmem, by rw [if_pos heq]⟩, hm.symm⟩
  · rename_i hm
    rw [entryOf_eq_some]
    constructor
    · rintro ⟨⟨x, hx, rfl⟩, hxm⟩
      split at hxm
      · rename_i hq
        exact absurd (by rw [← hxm, honly x hx hq]) hm
      · rename_i hq
        rw [if_neg hq]
        exact ⟨hx, hxm⟩
    · rintro ⟨he, hem⟩
      have hq : ¬isEqualEventMask e.mask mask = true := fun hq => hm (by rw [← hem, honly e he hq])
      exact ⟨⟨e, he, by rw [if_neg hq]⟩, hem⟩

theorem peerOf_insert {peers : Peers} {new : CompInfo} (hc : peers.contains new.id = false)
    (hf : ∀ c ∈ peers.nodes, c.addr ≠ new.addr) (n : Nat) :
    peerOf (peers.insert new) n = if n = new.addr then some new else peerOf peers n := by
  have hnot : (peers.nodes.find? fun c => decide (c.addr = new.addr)) = none := by
    rw [List.find?_eq_none]
    intro c hm
    simpa using hf c hm
  unfold peerOf
  rw [KeyList.nodes_insert hc, List.find?_append]
  split
  · rename_i hm
    rw [hm, hnot]
    simp
  · rename_i hm
    have hm' : ¬new.addr = n := fun h => hm h.symm
    simp [hm']

theorem peerOf_adjustSet (peers : Peers) (id : Id) (g : SetEventMask → SetEventMask) (n : Nat) :
    peerOf (adjustSet peers id g) n = (peerOf peers n).map fun c =>
      if isEqualFtbId c.id id then { c with catchEventSet := g c.catchEventSet } else c := by
  have haddr : ∀ c : CompInfo, (if isEqualFtbId c.id id = true then
      { c with catchEventSet := g c.catchEventSet } else c).addr = c.addr := fun c => by
    split <;> rfl
  unfold peerOf adjustSet KeyList.adjust
  rw [List.find?_map]
  simp only [Function.comp_def, haddr]

theorem peerOf_erase {peers : Peers} (hn : Numbered peers) {comp : CompInfo}
    (hc : comp ∈ peers.nodes) (n : Nat) :
    peerOf (peers.erase comp.id) n = if n = comp.addr then none else peerOf peers n := by
  have hn' : Numbered (peers.erase comp.id) := List.Pairwise.sublist List.eraseP_sublist hn
  ext c
  rw [peerOf_eq_some hn', KeyList.mem_erase]
  split
  · rename_i hm
    constructor
    · rintro ⟨⟨hcm, hne⟩, hca⟩
      -- a component with the number of `comp` is `comp`
      have heq : peerOf peers comp.addr = some c := (peerOf_eq_some hn).2 ⟨hcm, hca.trans hm⟩
      rw [(peerOf_eq_some hn).2 ⟨hc, rfl⟩] at heq
      cases heq
      have hr : isEqualFtbId comp.id comp.id = true := KeyEq.refl _
      rw [hr] at hne
      cases hne
    · intro h
      cases h
  · rename_i hm
    rw [peerOf_eq_some hn]
    refine ⟨fun ⟨⟨hcm, _⟩, hca⟩ => ⟨hcm, hca⟩, fun ⟨hcm, hca⟩ => ⟨⟨hcm, ?_⟩, hca⟩⟩
    by_contra hq
    rw [Bool.not_eq_false] at hq
    exact hm (by rw [← hca, KeyList.eq_of_mem hcm hc hq])

/-! ## Which block an owner has -/

section
variable (L : Owner → Nat)

/-- The node of an entry of `catch_event_map`. -/
def entryNode (e : CatchEntry) : Node := ⟨L (.inl (.key e.mask)), L (.inl (.comps e.mask))⟩

/-- The node of a component, in `peers` and in a component map. -/
def compNode (n : Nat) : Node := ⟨L (.inr (.comp n)), L (.inr (.comp n))⟩

/-- The node of a mask in the set of a component. -/
def maskNode (n : Nat) (m : Event) : Node := ⟨L (.inr (.mask n m)), L (.inr (.mask n m))⟩

def compsBlock (comps : CompMap) : Block := .map (comps.nodes.map fun r => compNode L r.addr)

def catchBlocks (map : CatchEventMap) : CatchOwner → Option Block
  | .table => some (.map (map.nodes.map (entryNode L)))
  | .key m => (entryOf map m).map fun e => .mask e.mask
  | .comps m => (entryOf map m).map fun e => compsBlock L e.comps

def peerBlocks (peers : Peers) (lost : Nat) (scratch : Nat → Option Block) : PeerOwner → Option Block
  | .table => some (.map (peers.nodes.map fun c => compNode L c.addr))
  | .comp n => (peerOf peers n).map fun c => .comp c.id (L (.inr (.set n)))
  | .set n => (peerOf peers n).map fun c => .map (c.catchEventSet.nodes.map (maskNode L n))
  | .mask n m =>
    (peerOf peers n).bind fun c => if m ∈ c.catchEventSet.nodes then some (.mask m) else none
  | .lost k => if k < lost then some (.map []) else none
  | .scratch k => scratch k

/-- The blocks of the tables of `s`, with `lost` heads that nothing points to, and those of a call. -/
def blocks (s : NodeInfo) (lost : Nat) (scratch : Nat → Option Block) : Owner → Option Block :=
  Sum.elim (catchBlocks L s.catchEventMap) (peerBlocks L s.peers lost scratch)

/-- Without the set of a component and its masks. -/
def release (n : Nat) (Q : PeerOwner → Option Block) : PeerOwner → Option Block
  | .set k => if k = n then none else Q (.set k)
  | .mask k m => if k = n then none else Q (.mask k m)
  | o => Q o

end

section
variable {L : Owner → Nat} {peers : Peers} {map : CatchEventMap} {lost : Nat}
  {scratch : Nat → Option Block}

/-! ### Changes of `peers` -/

theorem peerBlocks_insert {new : CompInfo} (hc : peers.contains new.id = false)
    (hf : ∀ c ∈ peers.nodes, c.addr ≠ new.addr) (hs : new.catchEventSet = .empty) :
    peerBlocks L (peers.insert new) lost scratch =
      Function.update (Function.update (Function.update (peerBlocks L peers lost scratch)
        (.comp new.addr) (some (.comp new.id (L (.inr (.set new.addr))))))
        (.set new.addr) (some (.map [])))
        .table (some (.map ((peers.nodes.map fun c => compNode L c.addr) ++ [compNode L new.addr]))) := by
  have hp := peerOf_insert hc hf
  funext o
  cases o with
  | table => simp [peerBlocks, KeyList.nodes_insert hc]
  | comp n => by_cases hn : n = new.addr <;> simp [peerBlocks, hp, hn]
  | set n => by_cases hn : n = new.addr <;> simp [peerBlocks, hp, hn, hs]
  | mask n m =>
    by_cases hn : n = new.addr
    · have hnone := peerOf_eq_none hf
      simp [peerBlocks, hp, hnone, hn, hs]
    · simp [peerBlocks, hp, hn]
  | lost k => rfl
  | scratch k => rfl

/-- The set of one component and its masks change. -/
theorem peerBlocks_adjustSet (hn : Numbered peers) {id : Id} {comp : CompInfo}
    (hf : peers.find? id = some comp) (g : SetEventMask → SetEventMask)
    {Q : PeerOwner → Option Block}
    (hset : Q (.set comp.addr) =
      some (.map ((g comp.catchEventSet).nodes.map (maskNode L comp.addr))))
    (hmask : ∀ m, Q (.mask comp.addr m) =
      if m ∈ (g comp.catchEventSet).nodes then some (.mask m) else none)
    (hother : ∀ o, (∀ m, o ≠ .mask comp.addr m) → o ≠ .set comp.addr →
      Q o = peerBlocks L peers lost scratch o) :
    peerBlocks L (adjustSet peers id g) lost scratch = Q := by
  obtain ⟨hc, hid⟩ := KeyList.mem_of_find? hf
  have hcomp : peerOf peers comp.addr = some comp := (peerOf_eq_some hn).2 ⟨hc, rfl⟩
  -- no other component has the id
  have hne : ∀ {n c}, n ≠ comp.addr → peerOf peers n = some c → isEqualFtbId c.id id = false := by
    intro n c hnc hp
    obtain ⟨hcm, rfl⟩ := (peerOf_eq_some hn).1 hp
    by_contra hq
    rw [Bool.not_eq_false] at hq
    exact hnc (by rw [KeyList.eq_of_mem hcm hc (KeyEq.trans hq (KeyEq.symm hid))])
  have hother' : ∀ n, n ≠ comp.addr → peerOf (adjustSet peers id g) n = peerOf peers n := by
    intro n hnc
    rw [peerOf_adjustSet]
    cases hp : peerOf peers n with
    | none => rfl
    | some c => simp [hne hnc hp]
  have hself : peerOf (adjustSet peers id g) comp.addr =
      some { comp with catchEventSet := g comp.catchEventSet } := by
    rw [peerOf_adjustSet, hcomp, Option.map_some, if_pos hid]
  funext o
  cases o with
  | table =>
    rw [hother _ (fun _ => by simp) (by simp)]
    show some (Block.map _) = some (Block.map _)
    rw [adjustSet, KeyList.adjust]
    simp only [List.map_map]
    refine congrArg _ (congrArg _ (List.map_congr_left fun c _ => ?_))
    simp only [Function.comp_apply]
    split <;> rfl
  | comp n =>
    rw [hother _ (fun _ => by simp) (by simp)]
    by_cases hnc : n = comp.addr
    · simp [peerBlocks, hnc, hself, hcomp]
    · simp [peerBlocks, hother' n hnc]
  | set n =>
    by_cases hnc : n = comp.addr
    · simp [peerBlocks, hnc, hself, hset]
    · rw [hother _ (fun _ => by simp) (by simpa using hnc)]
      simp [peerBlocks, hother' n hnc]
  | mask n m =>
    by_cases hnc : n = comp.addr
    · simp [peerBlocks, hnc, hself, hmask]
    · rw [hother _ (fun _ => by simp [hnc]) (by simp)]
      simp [peerBlocks, hother' n hnc]
  | lost k => rw [hother _ (fun _ => by simp) (by simp)]; rfl
  | scratch k => rw [hother _ (fun _ => by simp) (by simp)]; rfl

theorem peerBlocks_erase (hn : Numbered peers) {comp : CompInfo} (hc : comp ∈ peers.nodes) :
    peerBlocks L (peers.erase comp.id) lost scratch =
      Function.update (Function.update (release comp.addr (peerBlocks L peers lost scratch))
        .table (some (.map ((peers.erase comp.id).nodes.map fun c => compNode L c.addr))))
        (.comp comp.addr) none := by
  have hp := peerOf_erase hn hc
  funext o
  cases o with
  | table => simp [peerBlocks]
  | comp n => by_cases hnc : n = comp.addr <;> simp [peerBlocks, release, hp, hnc]
  | set n => by_cases hnc : n = comp.addr <;> simp [peerBlocks, release, hp, hnc]
  | mask n m => by_cases hnc : n = comp.addr <;> simp [peerBlocks, release, hp, hnc]
  | lost k => rfl
  | scratch k => rfl

/-! ### Changes of `catch_event_map` -/

theorem catchBlocks_insert {ent : CatchEntry} (h : map.find? ent.mask = none) :
    catchBlocks L (map.insert ent) =
      Function.update (Function.update (Function.update (catchBlocks L map)
        (.key ent.mask) (some (.mask ent.mask)))
        (.comps ent.mask) (some (compsBlock L ent.comps)))
        .table (some (.map (map.nodes.map (entryNode L) ++ [entryNode L ent]))) := by
  have hc : map.contains ent.mask = false := KeyList.contains_eq_false h
  have he := entryOf_insert h
  funext o
  cases o with
  | table => simp [catchBlocks, KeyList.nodes_insert hc]
  | key m => by_cases hm : m = ent.mask <;> simp [catchBlocks, he, hm]
  | comps m => by_cases hm : m = ent.mask <;> simp [catchBlocks, he, hm]

theorem catchBlocks_erase {ent : CatchEntry} (h : ent ∈ map.nodes) :
    catchBlocks L (map.erase ent.mask) =
      Function.update (Function.update (Function.update (catchBlocks L map)
        (.comps ent.mask) none)
        .table (some (.map ((map.erase ent.mask).nodes.map (entryNode L)))))
        (.key ent.mask) none := by
  have he := entryOf_erase h
  funext o
  cases o with
  | table => simp [catchBlocks]
  | key m => by_cases hm : m = ent.mask <;> simp [catchBlocks, he, hm]
  | comps m => by_cases hm : m = ent.mask <;> simp [catchBlocks, he, hm]

theorem catchBlocks_adjust {mask : Event} {ent : CatchEntry} (h : map.find? mask = some ent)
    (comps : CompMap) :
    catchBlocks L (map.adjust mask (fun x => { x with comps }) fun _ => rfl) =
      Function.update (catchBlocks L map) (.comps ent.mask) (some (compsBlock L comps)) := by
  have hent : entryOf map ent.mask = some ent :=
    entryOf_eq_some.2 ⟨(KeyList.mem_of_find? h).1, rfl⟩
  have he := entryOf_adjust h comps
  funext o
  cases o with
  | table =>
    rw [Function.update_of_ne (by simp)]
    show some (Block.map _) = some (Block.map _)
    rw [KeyList.adjust]
    simp only [List.map_map]
    refine congrArg _ (congrArg _ (List.map_congr_left fun e _ => ?_))
    simp only [Function.comp_apply]
    split <;> rfl
  | key m => by_cases hm : m = ent.mask <;> simp [catchBlocks, he, hm, hent]
  | comps m => by_cases hm : m = ent.mask <;> simp [catchBlocks, he, hm]

/-! ### New addresses -/

/-- An address for an owner without a block is in no block. -/
theorem blocks_update {s : NodeInfo} (hn : Numbered s.peers)
    (hheld : AllRefs (fun r => ∃ c ∈ s.peers.nodes, c.ref = r) s.catchEventMap) {o : Owner}
    (ho : blocks L s lost scratch o = none) (a : Nat) :
    blocks (Function.update L o a) s lost scratch = blocks L s lost scratch := by
  -- an owner that a block points to has a block itself
  have hL : ∀ {x}, blocks L s lost scratch x ≠ none → Function.update L o a x = L x := by
    intro x hx
    refine Function.update_of_ne (fun he => hx ?_) ..
    rw [he, ho]
  have hcomp : ∀ {c}, c ∈ s.peers.nodes → Function.update L o a (.inr (.comp c.addr)) =
      L (.inr (.comp c.addr)) := fun {c} hc => hL (by
    simp [blocks, peerBlocks, (peerOf_eq_some hn).2 ⟨hc, rfl⟩])
  have hkey : ∀ {e}, e ∈ s.catchEventMap.nodes → entryNode (Function.update L o a) e =
      entryNode L e := fun {e} he => by
    have hent : entryOf s.catchEventMap e.mask = some e := entryOf_eq_some.2 ⟨he, rfl⟩
    unfold entryNode
    rw [hL (by simp [blocks, catchBlocks, hent]), hL (by simp [blocks, catchBlocks, hent])]
  funext x
  match x with
  | .inl .table =>
    exact congrArg (fun l => some (Block.map l)) (List.map_congr_left fun e he => hkey he)
  | .inl (.key m) => rfl
  | .inl (.comps m) =>
    refine Option.map_congr fun e he => congrArg Block.map (List.map_congr_left fun r hr => ?_)
    obtain ⟨c, hc, rfl⟩ := hheld e (entryOf_eq_some.1 he).1 r hr
    unfold compNode
    rw [show c.ref.addr = c.addr from rfl, hcomp hc]
  | .inr .table =>
    refine congrArg (fun l => some (Block.map l)) (List.map_congr_left fun c hc => ?_)
    unfold compNode
    rw [hcomp hc]
  | .inr (.comp n) =>
    refine Option.map_congr fun c hc => ?_
    rw [hL (by simp [blocks, peerBlocks, hc])]
  | .inr (.set n) =>
    refine Option.map_congr fun c hc => congrArg Block.map (List.map_congr_left fun m hm => ?_)
    unfold maskNode
    rw [hL (by simp [blocks, peerBlocks, hc, hm])]
  | .inr (.mask n m) => rfl
  | .inr (.lost k) => rfl
  | .inr (.scratch k) => rfl

end

end FTBM.Memory
