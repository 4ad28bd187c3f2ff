import Ftb.Util.Map

/-!
# The map is a keyed list

`Contents`: the nodes of a map with their keys and data, as a `KeyList`. `IsMap isEqual head m h`: on
the heap `h` they form a ring through `head`, in order. Each call keeps this, answers as the list
does, and leaves the nodes outside the map alone (`Kept.step`); so does every sequence of calls from
`FTBU_map_init` on (`keyed_list`).
-/

open Links

namespace FTBU.Map

variable {K D : Type}

/-! ## The contents of a map -/

/-- A node that was inserted. -/
structure Entry (K D : Type) where
  node : Nat
  key : K
  data : D

/-- The comparison that the code tests, `util_key_match(..)`. -/
abbrev keyEq (isEqual : K → K → Int) (key1 key2 : K) : Bool := isEqual key1 key2 != 0

abbrev Contents (D : Type) (isEqual : K → K → Int) := KeyList (Entry.key (D := D)) (keyEq isEqual)

namespace Contents

variable {isEqual : K → K → Int}

def addrs (m : Contents D isEqual) : List Nat := m.nodes.map Entry.node

/-- Without the entry at `node`. -/
def eraseNode (m : Contents D isEqual) (node : Nat) : Contents D isEqual :=
  ⟨m.nodes.filter fun e => e.node != node, m.distinct.filter _⟩

/-- What a call does to the list and answers. A new node is at no address that is allocated, be it
elsewhere (`taken`) or in the map, and a node that is removed is in the map. -/
def step (taken : Nat → Bool) (head : Nat) (m : Contents D isEqual) :
    Call K D → Option (Answer × Contents D isEqual)
  | .insert key data newNode =>
    if m.contains key then some (.ret .exist, m)
    else if taken newNode || m.addrs.contains newNode then none
    else some (.ret .success, m.insert ⟨newNode, key, data⟩)
  | .findKey key => some (.node (((m.find? key).map Entry.node).getD head), m)
  | .removeKey key =>
    if m.contains key then some (.ret .success, m.erase key) else some (.ret .notExist, m)
  | .removeNode node =>
    if m.addrs.contains node then some (.ret .success, m.eraseNode node) else none

def runCalls (taken : Nat → Bool) (head : Nat) :
    List (Call K D) → Contents D isEqual → Option (List Answer × Contents D isEqual)
  | [], m => some ([], m)
  | call :: calls, m => do
    let (answer, m) ← m.step taken head call
    let (answers, m) ← runCalls taken head calls m
    pure (answer :: answers, m)

end Contents

/-! ## Links of a heap -/

namespace Heap

variable {h h' : Heap K D} {a b c : Nat}

def links (h : Heap K D) : Links where
  next a := ((h a).map MapNode.next).getD 0
  prev a := ((h a).map MapNode.prev).getD 0

def content (h : Heap K D) (a : Nat) : Option (Option K × NodeData K D) :=
  (h a).map fun node => (node.key, node.data)

theorem next_eq {node : MapNode K D} (ha : h a = some node) : h.links.next a = node.next := by
  simp [links, ha]

theorem prev_eq {node : MapNode K D} (ha : h a = some node) : h.links.prev a = node.prev := by
  simp [links, ha]

/-- The links and the contents are the heap. -/
theorem eq_of_links (hn : h'.links.next a = h.links.next a) (hp : h'.links.prev a = h.links.prev a)
    (hc : h'.content a = h.content a) : h' a = h a := by
  unfold content at hc
  cases ha : h a with
  | none =>
    rw [ha] at hc
    simpa using hc
  | some node =>
    rw [ha] at hc
    obtain ⟨node', ha', hcont⟩ := Option.map_eq_some_iff.1 hc
    rw [next_eq ha, next_eq ha'] at hn
    rw [prev_eq ha, prev_eq ha'] at hp
    obtain ⟨next, prev, key, data⟩ := node
    obtain ⟨next', prev', key', data'⟩ := node'
    cases hcont
    cases hn
    cases hp
    exact ha'

theorem isSome_of_content (hc : h'.content a = h.content a) : (h' a).isSome = (h a).isSome := by
  have := congrArg Option.isSome hc
  simpa [content] using this

/-- An assignment to `next` changes the links only. -/
theorem setNext_run (ha : (h a).isSome = true) (b : Nat) :
    ∃ h', h.setNext a b = some h' ∧ h'.links = h.links.setNext a b ∧ h'.content = h.content := by
  obtain ⟨node, hnode⟩ := Option.isSome_iff_exists.1 ha
  refine ⟨_, by rw [setNext, hnode]; rfl, ?_, ?_⟩
  · unfold links Links.setNext
    congr 1 <;> funext c <;> by_cases hc : c = a <;> simp [hc, hnode]
  · funext c
    by_cases hc : c = a <;> simp [content, hc, hnode]

/-- And one to `prev`. -/
theorem setPrev_run (ha : (h a).isSome = true) (b : Nat) :
    ∃ h', h.setPrev a b = some h' ∧ h'.links = h.links.setPrev a b ∧ h'.content = h.content := by
  obtain ⟨node, hnode⟩ := Option.isSome_iff_exists.1 ha
  refine ⟨_, by rw [setPrev, hnode]; rfl, ?_, ?_⟩
  · unfold links Links.setPrev
    congr 1 <;> funext c <;> by_cases hc : c = a <;> simp [hc, hnode]
  · funext c
    by_cases hc : c = a <;> simp [content, hc, hnode]

/-- A node that `malloc` returns is none of the others. -/
theorem malloc_run (ha : h a = none) (node : MapNode K D) :
    ∃ h', h.malloc a node = some h' ∧ h' a = some node ∧ ∀ c, c ≠ a → h' c = h c := by
  refine ⟨_, by rw [malloc, ha], Function.update_self .., fun c hc => Function.update_of_ne hc ..⟩

/-- What `FTBU_map_remove_node` does to the links, and that it releases the node. -/
theorem mapRemoveNode_run (ha : (h a).isSome = true) (hnext : (h (h.links.next a)).isSome = true)
    (hprev : (h (h.links.prev a)).isSome = true) (hne : h.links.next a ≠ a) :
    ∃ h', mapRemoveNode a h = some (.success, h') ∧ h' a = none ∧ ∀ c, c ≠ a →
      h'.links.next c = (h.links.removeNode a).next c ∧
      h'.links.prev c = (h.links.removeNode a).prev c ∧ h'.content c = h.content c := by
  obtain ⟨node, hnode⟩ := Option.isSome_iff_exists.1 ha
  obtain ⟨h₁, hrun₁, hlinks₁, hcont₁⟩ := setPrev_run hnext (h.links.prev a)
  have ha₁ : (h₁ a).isSome = true := (isSome_of_content (congrFun hcont₁ a)).trans ha
  obtain ⟨node₁, hnode₁⟩ := Option.isSome_iff_exists.1 ha₁
  have hprev₁ : h₁.links.prev a = h.links.prev a := by
    rw [hlinks₁, prev_setPrev, Function.update_of_ne (Ne.symm hne)]
  have hsome₁ : (h₁ (h₁.links.prev a)).isSome = true := by
    rw [hprev₁, isSome_of_content (congrFun hcont₁ _)]
    exact hprev
  obtain ⟨h₂, hrun₂, hlinks₂, hcont₂⟩ := setNext_run hsome₁ (h₁.links.next a)
  have ha₂ : (h₂ a).isSome = true := (isSome_of_content (congrFun hcont₂ a)).trans ha₁
  obtain ⟨node₂, hnode₂⟩ := Option.isSome_iff_exists.1 ha₂
  have hlinks : h₂.links = h.links.removeNode a := by
    rw [hlinks₂, hlinks₁]
    rfl
  refine ⟨Function.update h₂ a none, ?_, Function.update_self .., fun c hc => ?_⟩
  · rw [next_eq hnode, prev_eq hnode] at hrun₁
    rw [next_eq hnode₁, prev_eq hnode₁] at hrun₂
    simp [mapRemoveNode, hnode, hrun₁, hnode₁, hrun₂, free, hnode₂]
  · have hsame : (Function.update h₂ a none : Heap K D) c = h₂ c := Function.update_of_ne hc ..
    rw [← hlinks]
    refine ⟨?_, ?_, ?_⟩
    · simp only [links, hsame]
    · simp only [links, hsame]
    · rw [content, hsame, ← content, hcont₂, hcont₁]

end Heap

/-! ## The map on a heap -/

/-- The nodes form a ring through the head, which holds the comparison function, and hold the keys
and the data of the list. -/
structure IsMap (isEqual : K → K → Int) (head : Nat) (m : Contents D isEqual) (h : Heap K D) :
    Prop where
  ring : h.links.IsRing head m.addrs
  func : h.content head = some (none, .isEqual (some isEqual))
  entries : ∀ e ∈ m.nodes, h.content e.node = some (some e.key, .value e.data)

namespace IsMap

variable {isEqual : K → K → Int} {head fuel : Nat} {m : Contents D isEqual} {h h' : Heap K D}

theorem head_isSome (hm : IsMap isEqual head m h) : (h head).isSome = true := by
  have := congrArg Option.isSome hm.func
  simpa [Heap.content] using this

theorem entry_eq (hm : IsMap isEqual head m h) {e : Entry K D} (he : e ∈ m.nodes) :
    ∃ node, h e.node = some node ∧ node.key = some e.key := by
  obtain ⟨node, hnode, hcont⟩ := Option.map_eq_some_iff.1 (hm.entries e he)
  exact ⟨node, hnode, congrArg Prod.fst hcont⟩

theorem isSome_of_mem (hm : IsMap isEqual head m h) {a : Nat} (ha : a ∈ head :: m.addrs) :
    (h a).isSome = true := by
  rcases List.mem_cons.1 ha with rfl | ha
  · exact hm.head_isSome
  · obtain ⟨e, he, rfl⟩ := List.mem_map.1 ha
    obtain ⟨node, hnode, -⟩ := hm.entry_eq he
    rw [hnode]
    rfl

/-! ### Looking for a key -/

theorem utilKeyMatch_run (hm : IsMap isEqual head m h) (key1 key2 : K) :
    utilKeyMatch head key1 key2 h = some (isEqual key1 key2) := by
  obtain ⟨node, hnode, hcont⟩ := Option.map_eq_some_iff.1 hm.func
  have hdata : node.data = .isEqual (some isEqual) := congrArg Prod.snd hcont
  simp [utilKeyMatch, hnode, hdata]

/-- Where the loops start. -/
theorem head_next (hm : IsMap isEqual head m h) :
    ∃ node, h head = some node ∧ node.next = m.addrs.headD head := by
  obtain ⟨node, hnode⟩ := Option.isSome_iff_exists.1 hm.head_isSome
  exact ⟨node, hnode, (Heap.next_eq hnode).symm.trans hm.ring.next_head⟩

/-- Where a turn goes on. -/
theorem next_of_nodes (hm : IsMap isEqual head m h) {l₁ l₂ : List (Entry K D)} {e : Entry K D}
    (hl : m.nodes = l₁ ++ e :: l₂) : h.links.next e.node = (l₂.map Entry.node).headD head := by
  have haddrs : m.addrs = l₁.map Entry.node ++ e.node :: l₂.map Entry.node := by
    rw [Contents.addrs, hl, List.map_append, List.map_cons]
  exact hm.ring.next_of_split haddrs

theorem node_ne_head (hm : IsMap isEqual head m h) {e : Entry K D} (he : e ∈ m.nodes) :
    e.node ≠ head := by
  rintro rfl
  exact hm.ring.not_mem (List.mem_map_of_mem he)

/-- The loop finds the first node behind `pos` with an equal key. -/
theorem matchLoop_run (hm : IsMap isEqual head m h) (key : K) {l₁ l₂ : List (Entry K D)}
    (hl : m.nodes = l₁ ++ l₂) (hfuel : l₂.length < fuel) :
    matchLoop head key h fuel ((l₂.map Entry.node).headD head) =
      some ((l₂.find? fun e => keyEq isEqual e.key key).map Entry.node) := by
  induction l₂ generalizing l₁ fuel with
  | nil =>
    obtain ⟨n, rfl⟩ := Nat.exists_eq_add_one_of_ne_zero (Nat.ne_of_gt hfuel)
    simp [matchLoop]
  | cons e l₂ ih =>
    obtain ⟨n, rfl⟩ := Nat.exists_eq_add_one_of_ne_zero (Nat.ne_of_gt (Nat.zero_lt_of_lt hfuel))
    have he : e ∈ m.nodes := by rw [hl]; simp
    obtain ⟨node, hnode, hkey⟩ := hm.entry_eq he
    have hnext : node.next = (l₂.map Entry.node).headD head :=
      (Heap.next_eq hnode).symm.trans (hm.next_of_nodes hl)
    have hl' : m.nodes = (l₁ ++ [e]) ++ l₂ := by rw [hl]; simp
    have hrest := ih hl' (Nat.lt_of_succ_lt_succ hfuel)
    rw [List.map_cons, List.headD_cons, matchLoop, if_neg (hm.node_ne_head he), List.find?_cons]
    simp only [hnode, hkey, hm.utilKeyMatch_run, Option.bind_eq_bind, Option.bind_some, hnext, hrest]
    by_cases hk : isEqual e.key key = 0
    · have hno : keyEq isEqual e.key key = false := by simp [keyEq, hk]
      simp [hk, hno]
    · have hyes : keyEq isEqual e.key key = true := by simp [keyEq, hk]
      simp [hk, hyes]

theorem matchLoop_nodes (hm : IsMap isEqual head m h) (key : K) (hfuel : m.nodes.length < fuel) :
    matchLoop head key h fuel (m.addrs.headD head) = some ((m.find? key).map Entry.node) :=
  hm.matchLoop_run key (List.nil_append _).symm hfuel

theorem mapFindKey_run (hm : IsMap isEqual head m h) (key : K) (hfuel : m.nodes.length < fuel) :
    mapFindKey fuel head key h = some (((m.find? key).map Entry.node).getD head) := by
  obtain ⟨node, hnode, hnext⟩ := hm.head_next
  rw [mapFindKey, hnode, Option.bind_eq_bind, Option.bind_some, hnext, hm.matchLoop_nodes key hfuel]
  cases m.find? key <;> rfl

/-- An insertion of a key that is there changes nothing. -/
theorem mapInsert_exist (hm : IsMap isEqual head m h) {key : K} (hk : m.contains key = true) (data : D)
    (newNode : Nat) (hfuel : m.nodes.length < fuel) :
    mapInsert fuel head key data newNode h = some (.exist, h) := by
  obtain ⟨node, hnode, hnext⟩ := hm.head_next
  rw [KeyList.contains_eq_isSome] at hk
  obtain ⟨e, he⟩ := Option.isSome_iff_exists.1 hk
  rw [mapInsert, hnode, Option.bind_eq_bind, Option.bind_some, hnext, hm.matchLoop_nodes key hfuel, he]
  rfl

/-! ### Insertion -/

/-- A new key: its node comes last. -/
theorem mapInsert_success (hm : IsMap isEqual head m h) {key : K} (hk : m.contains key = false)
    (data : D) {newNode : Nat} (hnew : h newNode = none) (hfuel : m.nodes.length < fuel) :
    ∃ h', mapInsert fuel head key data newNode h = some (.success, h') ∧
      IsMap isEqual head (m.insert ⟨newNode, key, data⟩) h' ∧
      ∀ a, a ∉ newNode :: head :: m.addrs → h' a = h a := by
  obtain ⟨node, hnode, hnext⟩ := hm.head_next
  have hnone : m.find? key = none := by
    rw [KeyList.contains_eq_isSome] at hk
    simpa using hk
  have hmem : ∀ a ∈ head :: m.addrs, a ≠ newNode := by
    rintro a ha rfl
    have := hm.isSome_of_mem ha
    rw [hnew] at this
    cases this
  have hnewmem : newNode ∉ head :: m.addrs := fun ha => hmem newNode ha rfl
  obtain ⟨h₁, hrun₁, hself₁, hother₁⟩ := Heap.malloc_run hnew
    { next := 0, prev := 0, key := some key, data := .value data }
  have hring₁ : h₁.links.IsRing head m.addrs := by
    refine hm.ring.frame (fun a ha => ?_) fun a ha => ?_
    · simp only [Heap.links, hother₁ a (hmem a ha)]
    · simp only [Heap.links, hother₁ a (hmem a ha)]
  have hsome₁ : ∀ a ∈ head :: m.addrs, (h₁ a).isSome = true := fun a ha => by
    rw [hother₁ a (hmem a ha)]
    exact hm.isSome_of_mem ha
  have hhead : head ∈ head :: m.addrs := List.mem_cons_self
  -- the four assignments
  obtain ⟨h₂, hrun₂, hlinks₂, hcont₂⟩ := Heap.setNext_run (hsome₁ _ hring₁.prev_head) newNode
  have hsome₂ : (h₂ newNode).isSome = true := by
    rw [Heap.isSome_of_content (congrFun hcont₂ _), hself₁]
    rfl
  obtain ⟨h₃, hrun₃, hlinks₃, hcont₃⟩ := Heap.setNext_run hsome₂ head
  have hcont₃₁ : h₃.content = h₁.content := hcont₃.trans hcont₂
  have hsome₃ : (h₃ newNode).isSome = true := by
    rw [Heap.isSome_of_content (congrFun hcont₃₁ _), hself₁]
    rfl
  obtain ⟨h₄, hrun₄, hlinks₄, hcont₄⟩ := Heap.setPrev_run hsome₃ (h₃.links.prev head)
  have hcont₄₁ : h₄.content = h₁.content := hcont₄.trans hcont₃₁
  have hsome₄ : (h₄ head).isSome = true := by
    rw [Heap.isSome_of_content (congrFun hcont₄₁ _)]
    exact hsome₁ head hhead
  obtain ⟨h₅, hrun₅, hlinks₅, hcont₅⟩ := Heap.setPrev_run hsome₄ newNode
  have hcont₅₁ : h₅.content = h₁.content := hcont₅.trans hcont₄₁
  have hlinks : h₅.links = h₁.links.addBack head newNode := by
    rw [hlinks₅, hlinks₄, hlinks₃, hlinks₂]
    rfl
  obtain ⟨node₁, hnode₁⟩ := Option.isSome_iff_exists.1 (hsome₁ head hhead)
  have hsome₃' : (h₃ head).isSome = true := by
    rw [Heap.isSome_of_content (congrFun hcont₃₁ _)]
    exact hsome₁ head hhead
  obtain ⟨node₃, hnode₃⟩ := Option.isSome_iff_exists.1 hsome₃'
  have hnodes : (m.insert ⟨newNode, key, data⟩).nodes = m.nodes ++ [⟨newNode, key, data⟩] :=
    KeyList.nodes_insert hk
  refine ⟨h₅, ?_, ⟨?_, ?_, fun e he => ?_⟩, fun a ha => ?_⟩
  · rw [Heap.prev_eq hnode₁] at hrun₂
    rw [Heap.prev_eq hnode₃] at hrun₄
    rw [mapInsert, hnode, Option.bind_eq_bind, Option.bind_some, hnext,
      hm.matchLoop_nodes key hfuel, hnone]
    simp [hrun₁, hnode₁, hrun₂, hrun₃, hnode₃, hrun₄, hrun₅]
  · rw [hlinks, Contents.addrs, hnodes, List.map_append]
    exact hring₁.addBack hnewmem
  · rw [hcont₅₁, Heap.content, hother₁ head (hmem head hhead)]
    exact hm.func
  · rw [hnodes] at he
    rw [hcont₅₁]
    rcases List.mem_append.1 he with he | he
    · have ha : e.node ∈ head :: m.addrs := List.mem_cons_of_mem _ (List.mem_map_of_mem he)
      rw [Heap.content, hother₁ _ (hmem _ ha)]
      exact hm.entries e he
    · obtain rfl := List.mem_singleton.1 he
      rw [Heap.content, hself₁]
      rfl
  · rw [List.mem_cons, not_or] at ha
    rw [← hother₁ a ha.1]
    have hap : a ≠ h₁.links.prev head := fun he => ha.2 (he ▸ hring₁.prev_head)
    have hah : a ≠ head := fun he => ha.2 (he ▸ hhead)
    refine Heap.eq_of_links ?_ ?_ (congrFun hcont₅₁ a)
    · rw [hlinks]
      simp [Links.addBack, ha.1, hap]
    · rw [hlinks]
      simp [Links.addBack, ha.1, hah]

/-! ### Removal -/

/-- A node of the map. -/
theorem mapRemoveNode_run (hm : IsMap isEqual head m h) {node : Nat} (hnode : node ∈ m.addrs) :
    ∃ h', mapRemoveNode node h = some (.success, h') ∧ IsMap isEqual head (m.eraseNode node) h' ∧
      h' node = none ∧ ∀ a, a ∉ head :: m.addrs → h' a = h a := by
  have hne : h.links.next node ≠ node := hm.ring.next_ne hnode
  obtain ⟨h', hrun, hfree, hrest⟩ := Heap.mapRemoveNode_run
    (hm.isSome_of_mem (List.mem_cons_of_mem _ hnode)) (hm.isSome_of_mem (hm.ring.next_mem hnode))
    (hm.isSome_of_mem (hm.ring.prev_mem hnode)) hne
  have haddrs : (m.eraseNode node).addrs = m.addrs.erase node := by
    rw [(List.nodup_cons.1 hm.ring.nodup).2.erase_eq_filter, Contents.addrs, Contents.addrs,
      Contents.eraseNode, List.filter_map]
    rfl
  have hleft : ∀ a ∈ head :: m.addrs.erase node, a ≠ node := by
    rintro a ha rfl
    rcases List.mem_cons.1 ha with rfl | ha
    · exact hm.ring.not_mem hnode
    · exact (List.nodup_cons.1 hm.ring.nodup).2.not_mem_erase ha
  refine ⟨h', hrun, ⟨?_, ?_, fun e he => ?_⟩, hfree, fun a ha => ?_⟩
  · rw [haddrs]
    exact (hm.ring.removeNode hnode).frame (fun a ha => (hrest a (hleft a ha)).1)
      fun a ha => (hrest a (hleft a ha)).2.1
  · rw [(hrest head (hleft head List.mem_cons_self)).2.2]
    exact hm.func
  · obtain ⟨hmem, hne⟩ := List.mem_filter.1 he
    rw [(hrest e.node (by simpa using hne)).2.2]
    exact hm.entries e hmem
  · have han : a ≠ node := fun he => ha (he ▸ List.mem_cons_of_mem _ hnode)
    obtain ⟨hn, hp, hc⟩ := hrest a han
    have haq : a ≠ h.links.next node := fun he => ha (he ▸ hm.ring.next_mem hnode)
    have hap : a ≠ h.links.prev node := fun he => ha (he ▸ hm.ring.prev_mem hnode)
    refine Heap.eq_of_links (hn.trans ?_) (hp.trans ?_) hc
    · simp [Links.removeNode, Function.update_of_ne (Ne.symm hne), hap]
    · simp [Links.removeNode, haq]

/-- The loop removes the first node behind `pos` with an equal key. -/
theorem removeLoop_run (hm : IsMap isEqual head m h) (key : K) {l₁ l₂ : List (Entry K D)}
    (hl : m.nodes = l₁ ++ l₂) (hfuel : l₂.length < fuel) :
    removeLoop head key h fuel ((l₂.map Entry.node).headD head)
        (h.links.next ((l₂.map Entry.node).headD head)) =
      match l₂.find? fun e => keyEq isEqual e.key key with
      | none => some (.notExist, h)
      | some e => mapRemoveNode e.node h := by
  induction l₂ generalizing l₁ fuel with
  | nil =>
    obtain ⟨n, rfl⟩ := Nat.exists_eq_add_one_of_ne_zero (Nat.ne_of_gt hfuel)
    simp [removeLoop]
  | cons e l₂ ih =>
    obtain ⟨n, rfl⟩ := Nat.exists_eq_add_one_of_ne_zero (Nat.ne_of_gt (Nat.zero_lt_of_lt hfuel))
    have he : e ∈ m.nodes := by rw [hl]; simp
    obtain ⟨node, hnode, hkey⟩ := hm.entry_eq he
    have hnext := hm.next_of_nodes hl
    have hl' : m.nodes = (l₁ ++ [e]) ++ l₂ := by rw [hl]; simp
    have hrest := ih hl' (Nat.lt_of_succ_lt_succ hfuel)
    have hmem : (l₂.map Entry.node).headD head ∈ head :: m.addrs := by
      rw [← hnext]
      exact hm.ring.next_mem (List.mem_map_of_mem he)
    obtain ⟨tempNode, htemp⟩ := Option.isSome_iff_exists.1 (hm.isSome_of_mem hmem)
    rw [Heap.next_eq htemp] at hrest
    rw [List.map_cons, List.headD_cons, removeLoop, if_neg (hm.node_ne_head he), List.find?_cons, hnext]
    simp only [hnode, hkey, hm.utilKeyMatch_run, Option.bind_eq_bind, Option.bind_some, htemp, hrest]
    by_cases hk : isEqual e.key key = 0
    · have hno : keyEq isEqual e.key key = false := by simp [keyEq, hk]
      simp [hk, hno]
    · have hyes : keyEq isEqual e.key key = true := by simp [keyEq, hk]
      simp [hk, hyes]

theorem mapRemoveKey_eq (hm : IsMap isEqual head m h) (key : K) (hfuel : m.nodes.length < fuel) :
    mapRemoveKey fuel head key h =
      match m.find? key with
      | none => some (.notExist, h)
      | some e => mapRemoveNode e.node h := by
  obtain ⟨node, hnode, hnext⟩ := hm.head_next
  have hmem : m.addrs.headD head ∈ head :: m.addrs := by
    cases m.addrs with
    | nil => exact List.mem_cons_self
    | cons a l => simp
  obtain ⟨first, hfirst⟩ := Option.isSome_iff_exists.1 (hm.isSome_of_mem hmem)
  have hloop := hm.removeLoop_run key (List.nil_append _).symm hfuel
  rw [show (m.nodes.map Entry.node).headD head = m.addrs.headD head from rfl,
    Heap.next_eq hfirst] at hloop
  rw [mapRemoveKey, hnode, Option.bind_eq_bind, Option.bind_some, hnext, hfirst]
  exact hloop

/-- The entries are known by their nodes. -/
theorem eq_of_node (hm : IsMap isEqual head m h) {e e' : Entry K D} (he : e ∈ m.nodes)
    (he' : e' ∈ m.nodes) (hn : e.node = e'.node) : e = e' :=
  List.inj_on_of_nodup_map (List.nodup_cons.1 hm.ring.nodup).2 he he' hn

/-- The removal of a key is the removal of its node. -/
theorem eraseNode_eq [KeyEq (keyEq isEqual)] (hm : IsMap isEqual head m h) {key : K}
    {e : Entry K D} (hfind : m.find? key = some e) : m.eraseNode e.node = m.erase key := by
  obtain ⟨he, hk⟩ := KeyList.mem_of_find? hfind
  refine KeyList.ext_nodes ?_
  rw [KeyList.nodes_erase]
  refine List.filter_congr fun x hx => ?_
  by_cases hkx : keyEq isEqual x.key key = true
  · obtain rfl : x = e := KeyList.eq_of_mem hx he (KeyEq.trans hkx (KeyEq.symm hk))
    simp [hkx]
  · have hne : x.node ≠ e.node := fun hn => hkx (hm.eq_of_node hx he hn ▸ hk)
    simp [hkx, hne]

end IsMap

/-! ## Any calls -/

/-- The heap `h` has the map `m`, and is `h₀` elsewhere. -/
structure Kept (isEqual : K → K → Int) (head : Nat) (h₀ : Heap K D) (m : Contents D isEqual)
    (h : Heap K D) : Prop where
  map : IsMap isEqual head m h
  taken : (h₀ head).isSome = true
  fresh : ∀ a ∈ m.addrs, h₀ a = none
  frame : ∀ a, a ∉ head :: m.addrs → h a = h₀ a

section
variable {isEqual : K → K → Int} {head fuel : Nat} {m m' : Contents D isEqual} {h₀ h : Heap K D}

theorem kept_init (hinit : mapInit isEqual head h₀ = some h) :
    Kept isEqual head h (.empty : Contents D isEqual) h := by
  unfold mapInit Heap.malloc at hinit
  split at hinit
  · cases hinit
    have hself : ∀ node : MapNode K D, Function.update h₀ head (some node) head = some node :=
      fun node => Function.update_self ..
    refine ⟨⟨⟨List.nodup_singleton _, ?_⟩, ?_, ?_⟩, ?_, ?_, fun _ _ => rfl⟩
    · refine List.isChain_pair.2 ⟨?_, ?_⟩
      · exact Heap.next_eq (hself _)
      · exact Heap.prev_eq (hself _)
    · rw [Heap.content, hself]
      rfl
    · intro e he
      cases he
    · rw [hself]
      rfl
    · intro a ha
      cases ha
  · cases hinit

/-- Without a node of the map. -/
theorem Kept.removeNode (hk : Kept isEqual head h₀ m h) {node : Nat} (hnode : node ∈ m.addrs) :
    ∃ h', mapRemoveNode node h = some (.success, h') ∧ Kept isEqual head h₀ (m.eraseNode node) h' := by
  obtain ⟨h', hrun, hmap, hfree, hrest⟩ := hk.map.mapRemoveNode_run hnode
  have hsub : ∀ a ∈ (m.eraseNode node).addrs, a ∈ m.addrs := by
    intro a ha
    obtain ⟨e, he, rfl⟩ := List.mem_map.1 ha
    exact List.mem_map_of_mem (List.mem_of_mem_filter he)
  refine ⟨h', hrun, hmap, hk.taken, fun a ha => hk.fresh a (hsub a ha), fun a ha => ?_⟩
  rw [List.mem_cons, not_or] at ha
  by_cases ham : a ∈ m.addrs
  · -- the node itself, which is released
    have han : a = node := by
      by_contra hne
      obtain ⟨e, he, rfl⟩ := List.mem_map.1 ham
      exact ha.2 (List.mem_map_of_mem (List.mem_filter.2 ⟨he, by simpa using hne⟩))
    rw [han, hfree, hk.fresh node hnode]
  · have hout : a ∉ head :: m.addrs := List.not_mem_cons_of_ne_of_not_mem ha.1 ham
    rw [hrest a hout, hk.frame a hout]

/-- With a node for a new key. -/
theorem Kept.insert (hk : Kept isEqual head h₀ m h) {key : K} (hc : m.contains key = false) (data : D)
    {newNode : Nat} (hfree : h₀ newNode = none) (hout : newNode ∉ m.addrs)
    (hfuel : m.nodes.length < fuel) :
    ∃ h', mapInsert fuel head key data newNode h = some (.success, h') ∧
      Kept isEqual head h₀ (m.insert ⟨newNode, key, data⟩) h' := by
  have hhead : newNode ≠ head := by
    rintro rfl
    have htaken := hk.taken
    rw [hfree] at htaken
    cases htaken
  have hnone : h newNode = none :=
    (hk.frame newNode (List.not_mem_cons_of_ne_of_not_mem hhead hout)).trans hfree
  obtain ⟨h', hrun, hmap, hrest⟩ := hk.map.mapInsert_success hc data hnone hfuel
  have haddrs : Contents.addrs (m.insert ⟨newNode, key, data⟩) = m.addrs ++ [newNode] := by
    rw [Contents.addrs, KeyList.nodes_insert (show m.contains (Entry.mk newNode key data).key = false
      from hc), List.map_append]
    rfl
  refine ⟨h', hrun, hmap, hk.taken, fun a ha => ?_, fun a ha => ?_⟩
  · rw [haddrs, List.mem_append, List.mem_singleton] at ha
    rcases ha with ha | rfl
    · exact hk.fresh a ha
    · exact hfree
  · rw [haddrs] at ha
    simp only [List.mem_cons, List.mem_append, List.not_mem_nil, or_false, not_or] at ha
    rw [hrest a (by simp [ha]), hk.frame a (by simp [ha])]

variable [KeyEq (keyEq isEqual)]

/-- **A call does what the list says.** -/
theorem Kept.step (hk : Kept isEqual head h₀ m h) {call : Call K D} {answer : Answer}
    (hstep : m.step (fun a => (h₀ a).isSome) head call = some (answer, m'))
    (hfuel : m.nodes.length < fuel) :
    ∃ h', call.run fuel head h = some (answer, h') ∧ Kept isEqual head h₀ m' h' ∧
      m'.nodes.length ≤ m.nodes.length + 1 := by
  cases call with
  | insert key data newNode =>
    simp only [Contents.step] at hstep
    split at hstep
    · rename_i hc
      cases hstep
      refine ⟨h, ?_, hk, Nat.le_add_right _ _⟩
      rw [Call.run, hk.map.mapInsert_exist hc data newNode hfuel]
      rfl
    · rename_i hc
      split at hstep
      · cases hstep
      · rename_i hnew
        cases hstep
        obtain ⟨hfree, hout⟩ : h₀ newNode = none ∧ newNode ∉ m.addrs := by simpa using hnew
        have hcf : m.contains key = false := Bool.eq_false_iff.2 hc
        obtain ⟨h', hrun, hkept⟩ := hk.insert hcf data hfree hout hfuel
        refine ⟨h', ?_, hkept, ?_⟩
        · rw [Call.run, hrun]
          rfl
        · rw [KeyList.nodes_insert hcf, List.length_append, List.length_singleton]
  | findKey key =>
    cases hstep
    refine ⟨h, ?_, hk, Nat.le_add_right _ _⟩
    rw [Call.run, hk.map.mapFindKey_run key hfuel]
    rfl
  | removeKey key =>
    have heq := hk.map.mapRemoveKey_eq key hfuel
    simp only [Contents.step, KeyList.contains_eq_isSome] at hstep
    cases hfind : m.find? key with
    | none =>
      rw [hfind] at heq hstep
      cases hstep
      refine ⟨h, ?_, hk, Nat.le_add_right _ _⟩
      rw [Call.run, heq]
      rfl
    | some e =>
      rw [hfind] at heq hstep
      cases hstep
      have he := (KeyList.mem_of_find? hfind).1
      have hmem : e.node ∈ m.addrs := List.mem_map_of_mem he
      obtain ⟨h', hrun, hkept⟩ := hk.removeNode hmem
      rw [hk.map.eraseNode_eq hfind] at hkept
      refine ⟨h', ?_, hkept, Nat.le_succ_of_le List.length_eraseP_le⟩
      rw [Call.run, heq]
      exact congrArg (Option.map _) hrun
  | removeNode node =>
    simp only [Contents.step] at hstep
    split at hstep
    · rename_i hnode
      cases hstep
      obtain ⟨h', hrun, hkept⟩ := hk.removeNode (by simpa using hnode)
      refine ⟨h', ?_, hkept, Nat.le_succ_of_le (List.length_filter_le _ _)⟩
      rw [Call.run, hrun]
      rfl
    · cases hstep

theorem Kept.runCalls {calls : List (Call K D)} {answers : List Answer}
    (hk : Kept isEqual head h₀ m h)
    (hrun : m.runCalls (fun a => (h₀ a).isSome) head calls = some (answers, m'))
    (hfuel : m.nodes.length + calls.length < fuel) :
    ∃ h', Map.runCalls fuel head calls h = some (answers, h') ∧ Kept isEqual head h₀ m' h' ∧
      m'.nodes.length ≤ m.nodes.length + calls.length := by
  induction calls generalizing m h answers with
  | nil =>
    cases hrun
    exact ⟨h, rfl, hk, Nat.le_refl _⟩
  | cons call calls ih =>
    rw [List.length_cons] at hfuel ⊢
    obtain ⟨⟨answer, m₁⟩, hstep, hrun⟩ := Option.bind_eq_some_iff.1 hrun
    obtain ⟨⟨answers', m₂⟩, hrest, hrun⟩ := Option.bind_eq_some_iff.1 hrun
    cases hrun
    obtain ⟨h₁, hrun₁, hk₁, hlen₁⟩ := hk.step hstep (show m.nodes.length < fuel by omega)
    obtain ⟨h₂, hrun₂, hk₂, hlen₂⟩ := ih hk₁ hrest (by omega)
    refine ⟨h₂, ?_, hk₂, by omega⟩
    simp [Map.runCalls, hrun₁, hrun₂]

end

/-! ## From the map that `FTBU_map_init` makes -/

/-- `e` is the one entry with an equal key: it is found and removed, and none is inserted. -/
structure Present (isEqual : K → K → Int) (fuel head : Nat) (m : Contents D isEqual) (h : Heap K D)
    (key : K) (e : Entry K D) : Prop where
  mem : e ∈ m.nodes
  equal : keyEq isEqual e.key key = true
  only : ∀ e' ∈ m.nodes, keyEq isEqual e'.key key = true → e' = e
  find : mapFindKey fuel head key h = some e.node
  insert : ∀ data newNode, mapInsert fuel head key data newNode h = some (.exist, h)
  remove : ∃ h', mapRemoveKey fuel head key h = some (.success, h') ∧
    IsMap isEqual head (m.eraseNode e.node) h'

/-- No entry has an equal key: the head is found, none is removed, and a new one comes last. -/
structure Absent (isEqual : K → K → Int) (fuel head : Nat) (m : Contents D isEqual) (h : Heap K D)
    (key : K) : Prop where
  unequal : ∀ e ∈ m.nodes, keyEq isEqual e.key key = false
  find : mapFindKey fuel head key h = some head
  insert : ∀ data newNode, h newNode = none →
    ∃ h', mapInsert fuel head key data newNode h = some (.success, h') ∧
      IsMap isEqual head (m.insert ⟨newNode, key, data⟩) h'
  remove : mapRemoveKey fuel head key h = some (.notExist, h)

theorem IsMap.present_or_absent {isEqual : K → K → Int} [KeyEq (keyEq isEqual)] {head fuel : Nat}
    {m : Contents D isEqual} {h : Heap K D} (hm : IsMap isEqual head m h)
    (hfuel : m.nodes.length < fuel) (key : K) :
    (∃ e, Present isEqual fuel head m h key e) ∨ Absent isEqual fuel head m h key := by
  have hfind := hm.mapFindKey_run key hfuel
  have hremove := hm.mapRemoveKey_eq key hfuel
  cases hf : m.find? key with
  | none =>
    rw [hf] at hfind hremove
    refine .inr ⟨KeyList.find?_eq_none.1 hf, hfind, fun data newNode hnew => ?_, hremove⟩
    obtain ⟨h', hrun, hmap, -⟩ :=
      hm.mapInsert_success (KeyList.contains_eq_false hf) data hnew hfuel
    exact ⟨h', hrun, hmap⟩
  | some e =>
    rw [hf] at hfind hremove
    obtain ⟨he, hk⟩ := KeyList.mem_of_find? hf
    have hc : m.contains key = true := by rw [KeyList.contains_eq_isSome, hf]; rfl
    have hmem : e.node ∈ m.addrs := List.mem_map_of_mem he
    obtain ⟨h', hrun, hmap, -⟩ := hm.mapRemoveNode_run hmem
    exact .inl ⟨e, he, hk, fun e' he' hk' => KeyList.eq_of_mem he' he (KeyEq.trans hk' (KeyEq.symm hk)),
      hfind, fun data newNode => hm.mapInsert_exist hc data newNode hfuel, h', hremove.trans hrun, hmap⟩

/-- **The map is a keyed list.** Any calls answer as the list does; the nodes form a ring through the
head in which `next` and `prev` are inverse, in the order of the list; the rest of the heap is as it
was before; and the calls that come next find, insert and remove by the list. -/
theorem keyed_list {isEqual : K → K → Int} [KeyEq (keyEq isEqual)] {h₀ h : Heap K D} {head : Nat}
    (hinit : mapInit isEqual head h₀ = some h) {calls : List (Call K D)} {answers : List Answer}
    {m : Contents D isEqual}
    (hcalls : Contents.runCalls (fun a => (h a).isSome) head calls .empty = some (answers, m))
    {fuel : Nat} (hfuel : calls.length < fuel) :
    ∃ h', runCalls fuel head calls h = some (answers, h') ∧ IsMap isEqual head m h' ∧
      (∀ a ∈ head :: m.addrs,
        h'.links.prev (h'.links.next a) = a ∧ h'.links.next (h'.links.prev a) = a) ∧
      (∀ a, a ∉ head :: m.addrs → h' a = h₀ a) ∧
      ∀ key, (∃ e, Present isEqual fuel head m h' key e) ∨ Absent isEqual fuel head m h' key := by
  obtain ⟨h', hrun, hk, hlen⟩ := (kept_init hinit).runCalls hcalls (by simpa using hfuel)
  have hturns : m.nodes.length < fuel := by
    simp only [KeyList.nodes_empty, List.length_nil, Nat.zero_add] at hlen
    omega
  refine ⟨h', hrun, hk.map, fun a ha => hk.map.ring.inverse ha, fun a ha => ?_,
    hk.map.present_or_absent hturns⟩
  rw [hk.frame a ha]
  have hah : a ≠ head := fun he => ha (he ▸ List.mem_cons_self)
  unfold mapInit Heap.malloc at hinit
  split at hinit
  · cases hinit
    exact Function.update_of_ne hah ..
  · cases hinit

/-- Numbers that are equal in the last digit. -/
private def sameDigit (a b : Nat) : Int := if a % 10 = b % 10 then 1 else 0

private instance : KeyEq (keyEq sameDigit) :=
  .of_canon (· % 10) fun a b => by by_cases h : a % 10 = b % 10 <;> simp [keyEq, sameDigit, h]

private def digitCalls : List (Call Nat Nat) :=
  [.insert 5 50 1, .insert 6 60 2, .insert 15 51 3, .removeKey 25, .findKey 16, .removeKey 5,
    .insert 7 70 1, .removeNode 2]

/-- Two entries, one of which is removed; its address is used again. -/
theorem keyed_list_digits : ∃ h h' : Heap Nat Nat,
    mapInit sameDigit 0 (fun _ => none) = some h ∧
    runCalls 9 0 digitCalls h = some ([.ret .success, .ret .success, .ret .exist, .ret .success,
      .node 2, .ret .notExist, .ret .success, .ret .success], h') ∧
    ∃ m : Contents Nat sameDigit, m.addrs = [1] ∧ IsMap sameDigit 0 m h' := by
  let m : Contents Nat sameDigit := ⟨[⟨1, 7, 70⟩], List.pairwise_singleton _ _⟩
  obtain ⟨h', hrun, hmap, -⟩ :=
    @keyed_list Nat Nat sameDigit _ (fun _ => none) _ 0 rfl digitCalls _ m rfl 9 (by decide)
  exact ⟨_, h', rfl, hrun, m, rfl, hmap⟩

end FTBU.Map
