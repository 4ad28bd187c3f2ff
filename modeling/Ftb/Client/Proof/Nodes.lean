import Ftb.Client.Nodes
import Mathlib.Data.List.Range
import Mathlib.Data.List.Perm.Subperm

/-!
# The nodes of the event queues

`Owns m p k ps cs hs`: every address that was ever allocated is a head of the queues `p` and `k`, a
cell of a node in one of their rings `ps` and `cs`, a cell of a node that is in neither (`hs`, in the
hands of the code), or released, and it is one of these once. Each of the operations on memory moves a
node from one place to another.

`Kept c ps cs hs`: so for a client, whose counter is the length of its polling queue.
-/

open FTB FTBU

namespace FTBCI

/-- The addresses of the nodes and of their entries. -/
def NodeMem.cells (m : NodeMem) (nodes : List Nat) : List Nat :=
  nodes.flatMap fun node => [node, m.data node]

structure Owns (m : NodeMem) (p k : Nat) (ps cs hs : List Nat) : Prop where
  polling : m.links.IsRing p ps
  calling : m.links.IsRing k cs
  all : ([p, k] ++ m.cells (ps ++ cs ++ hs) ++ m.released).Perm (List.range m.nextAddr)

namespace NodeMem

variable {m m' : NodeMem} {ns ns' : List Nat}

@[simp] theorem cells_nil : m.cells [] = [] := rfl

@[simp] theorem cells_cons (n : Nat) : m.cells (n :: ns) = n :: m.data n :: m.cells ns := rfl

@[simp] theorem cells_append : m.cells (ns ++ ns') = m.cells ns ++ m.cells ns' :=
  List.flatMap_append

theorem cells_perm (h : ns.Perm ns') : (m.cells ns).Perm (m.cells ns') := h.flatMap_right _

theorem cells_congr (h : ∀ n ∈ ns, m'.data n = m.data n) : m'.cells ns = m.cells ns := by
  induction ns with
  | nil => rfl
  | cons n ns ih =>
    rw [cells_cons, cells_cons, h n List.mem_cons_self,
      ih fun a ha => h a (List.mem_cons_of_mem _ ha)]

theorem mem_cells {a : Nat} : a ∈ m.cells ns ↔ ∃ n ∈ ns, a = n ∨ a = m.data n := by
  simp [cells]

@[simp] theorem data_relink (f : Links → Links) : (m.relink f).data = m.data := rfl
@[simp] theorem insts_relink (f : Links → Links) : (m.relink f).insts = m.insts := rfl
@[simp] theorem links_relink (f : Links → Links) : (m.relink f).links = f m.links := rfl
@[simp] theorem released_relink (f : Links → Links) : (m.relink f).released = m.released := rfl
@[simp] theorem nextAddr_relink (f : Links → Links) : (m.relink f).nextAddr = m.nextAddr := rfl
@[simp] theorem cells_relink (f : Links → Links) : (m.relink f).cells = m.cells := rfl
@[simp] theorem inst_relink (f : Links → Links) : (m.relink f).inst = m.inst := rfl

@[simp] theorem data_free (a : Nat) : (m.free a).data = m.data := rfl
@[simp] theorem insts_free (a : Nat) : (m.free a).insts = m.insts := rfl
@[simp] theorem links_free (a : Nat) : (m.free a).links = m.links := rfl
@[simp] theorem released_free (a : Nat) : (m.free a).released = m.released ++ [a] := rfl
@[simp] theorem nextAddr_free (a : Nat) : (m.free a).nextAddr = m.nextAddr := rfl
@[simp] theorem cells_free (a : Nat) : (m.free a).cells = m.cells := rfl
@[simp] theorem inst_free (a : Nat) : (m.free a).inst = m.inst := rfl

@[simp] theorem links_newNode (e : EventInst) : (m.newNode e).2.links = m.links := rfl
@[simp] theorem released_newNode (e : EventInst) : (m.newNode e).2.released = m.released := rfl
@[simp] theorem nextAddr_newNode (e : EventInst) : (m.newNode e).2.nextAddr = m.nextAddr + 2 := rfl
@[simp] theorem fst_newNode (e : EventInst) : (m.newNode e).1 = m.nextAddr := rfl

end NodeMem

namespace Owns

variable {m : NodeMem} {p k n : Nat} {ps cs hs : List Nat}

/-- The two queues are alike. -/
theorem swap (h : Owns m p k ps cs hs) : Owns m k p cs ps hs := by
  refine ⟨h.calling, h.polling, List.Perm.trans ?_ h.all⟩
  have hcells : (m.cells (cs ++ ps ++ hs)).Perm (m.cells (ps ++ cs ++ hs)) :=
    NodeMem.cells_perm (List.perm_append_comm.append_right hs)
  exact ((List.Perm.swap p k []).append hcells).append_right _

theorem nodup (h : Owns m p k ps cs hs) :
    ([p, k] ++ m.cells (ps ++ cs ++ hs) ++ m.released).Nodup :=
  h.all.nodup_iff.2 List.nodup_range

theorem lt_nextAddr (h : Owns m p k ps cs hs) {a : Nat}
    (ha : a ∈ [p, k] ++ m.cells (ps ++ cs ++ hs) ++ m.released) : a < m.nextAddr :=
  List.mem_range.1 (h.all.mem_iff.1 ha)

theorem mem_all (h : n ∈ ps ++ cs ++ hs) :
    n ∈ [p, k] ++ m.cells (ps ++ cs ++ hs) ++ m.released ∧
      m.data n ∈ [p, k] ++ m.cells (ps ++ cs ++ hs) ++ m.released := by
  have hn : n ∈ m.cells (ps ++ cs ++ hs) := NodeMem.mem_cells.2 ⟨n, h, .inl rfl⟩
  have hd : m.data n ∈ m.cells (ps ++ cs ++ hs) := NodeMem.mem_cells.2 ⟨n, h, .inr rfl⟩
  exact ⟨List.mem_append_left _ (List.mem_append_right _ hn),
    List.mem_append_left _ (List.mem_append_right _ hd)⟩

/-- The nodes in the hands of the code can be counted in any order. -/
theorem perm (h : Owns m p k ps cs hs) {hs' : List Nat} (hp : hs'.Perm hs) :
    Owns m p k ps cs hs' := by
  refine ⟨h.polling, h.calling, List.Perm.trans ?_ h.all⟩
  exact ((NodeMem.cells_perm (hp.append_left _)).append_left _).append_right _

/-- The heads, and the nodes, are at different addresses. -/
theorem nodup_nodes (h : Owns m p k ps cs hs) : (p :: k :: (ps ++ cs ++ hs)).Nodup := by
  refine h.nodup.sublist ?_
  have hsub : (ps ++ cs ++ hs).Sublist (m.cells (ps ++ cs ++ hs)) := by
    generalize ps ++ cs ++ hs = ns
    induction ns with
    | nil => exact .slnil
    | cons n ns ih => exact .cons_cons n (.cons _ ih)
  exact ((hsub.cons_cons k).cons_cons p).trans (List.sublist_append_left _ _)

theorem newNode (h : Owns m p k ps cs hs) (e : EventInst) :
    Owns (m.newNode e).2 p k ps cs (m.nextAddr :: hs) := by
  refine ⟨h.polling, h.calling, ?_⟩
  have hcells : (m.newNode e).2.cells (ps ++ cs ++ hs) = m.cells (ps ++ cs ++ hs) := by
    refine NodeMem.cells_congr fun a ha => Function.update_of_ne ?_ _ _
    exact Nat.ne_of_lt (h.lt_nextAddr (mem_all ha).1)
  have hdata : (m.newNode e).2.data m.nextAddr = m.nextAddr + 1 := Function.update_self _ _ _
  refine List.perm_iff_count.2 fun a => ?_
  have hcount := h.all.count_eq a
  rw [← hcells] at hcount
  simp only [NodeMem.nextAddr_newNode, List.range_succ, NodeMem.released_newNode,
    NodeMem.cells_append, NodeMem.cells_cons, hdata, List.count_append, List.count_cons,
    List.count_nil] at hcount ⊢
  omega

/-- A node in the hands of the code goes to the back of the polling queue. -/
theorem addBack (h : Owns m p k ps cs (n :: hs)) :
    Owns (m.relink (Links.addBack p n)) p k (ps ++ [n]) cs hs := by
  have hnd := h.nodup_nodes
  have hn : n ∉ p :: ps ∧ n ∉ k :: cs := by
    simp only [List.nodup_cons, List.mem_cons, List.mem_append, List.nodup_append] at hnd ⊢
    grind
  have hd : ∀ a ∈ k :: cs, a ∉ p :: ps := by
    simp only [List.nodup_cons, List.mem_cons, List.mem_append, List.nodup_append] at hnd ⊢
    grind
  refine ⟨h.polling.addBack hn.1, h.calling.addBack_other h.polling hn.2 hd, ?_⟩
  refine List.perm_iff_count.2 fun a => ?_
  have hcount := h.all.count_eq a
  simp only [NodeMem.nextAddr_relink, NodeMem.cells_relink, NodeMem.data_relink,
    NodeMem.released_relink, NodeMem.cells_append, NodeMem.cells_cons, NodeMem.cells_nil, List.count_append,
    List.count_cons, List.count_nil] at hcount ⊢
  omega

/-- A node of the polling queue is taken out of it. -/
theorem removeNode (h : Owns m p k ps cs hs) (hn : n ∈ ps) :
    Owns (m.relink (Links.removeNode n)) p k (ps.erase n) cs (n :: hs) := by
  have hnd := h.nodup_nodes
  have hd : ∀ a ∈ k :: cs, a ∉ p :: ps := by
    simp only [List.nodup_cons, List.mem_cons, List.mem_append, List.nodup_append] at hnd ⊢
    grind
  refine ⟨h.polling.removeNode hn, h.calling.removeNode_other h.polling hn hd, ?_⟩
  have hperm : (ps.erase n ++ cs ++ n :: hs).Perm (ps ++ cs ++ hs) := by
    have hcons : (ps.erase n ++ cs ++ n :: hs).Perm (n :: (ps.erase n ++ cs ++ hs)) :=
      List.perm_middle
    refine hcons.trans ?_
    rw [← List.cons_append, ← List.cons_append]
    exact ((List.perm_cons_erase hn).symm.append_right _).append_right _
  refine List.Perm.trans ?_ h.all
  exact ((NodeMem.cells_perm hperm).append_left _).append_right _

/-- A node in the hands of the code is released, and its entry before it. -/
theorem free (h : Owns m p k ps cs (n :: hs)) : Owns ((m.free (m.data n)).free n) p k ps cs hs := by
  refine ⟨h.polling, h.calling, ?_⟩
  refine List.perm_iff_count.2 fun a => ?_
  have hcount := h.all.count_eq a
  simp only [NodeMem.nextAddr_free, NodeMem.cells_free, NodeMem.released_free,
    NodeMem.cells_append, NodeMem.cells_cons, List.count_append, List.count_cons,
    List.count_nil] at hcount ⊢
  omega

/-! ## What it is for -/

theorem released_nodup (h : Owns m p k ps cs hs) : m.released.Nodup :=
  h.nodup.sublist (List.sublist_append_right _ _)

/-- A node in a queue is not released, nor its entry. -/
theorem not_released (h : Owns m p k ps cs hs) (hn : n ∈ ps ++ cs) :
    n ∉ m.released ∧ m.data n ∉ m.released := by
  have hmem : n ∈ ps ++ cs ++ hs := List.mem_append_left _ hn
  have hdisj := (List.nodup_append.1 h.nodup).2.2
  have hcell : ∀ a, a = n ∨ a = m.data n → a ∉ m.released := by
    intro a ha hr
    refine hdisj a (List.mem_append_right _ (NodeMem.mem_cells.2 ⟨n, hmem, ha⟩)) a hr rfl
  exact ⟨hcell n (.inl rfl), hcell (m.data n) (.inr rfl)⟩

/-- Nothing is lost while the code holds nothing. -/
theorem mem_or_released (h : Owns m p k ps cs []) {a : Nat} (ha : a < m.nextAddr) (hp : a ≠ p)
    (hk : a ≠ k) : a ∈ m.cells (ps ++ cs) ∨ a ∈ m.released := by
  have hmem := h.all.mem_iff.2 (List.mem_range.2 ha)
  simp only [List.append_nil, List.mem_append, List.mem_cons, List.not_mem_nil, or_false] at hmem
  tauto

end Owns

/-- The client that `FTBC_Connect` makes. -/
theorem owns_connect (handle : ClientHandle) (type : UInt8) (max : Int) :
    Owns (NodeClient.connect handle type max).mem (NodeClient.connect handle type max).eventQueue
      (NodeClient.connect handle type max).callbackEventQueue [] [] [] := by
  have hinit : ((Links.mk (fun _ => 0) fun _ => 0).init 0).IsRing 0 [] := Links.isRing_init _ _
  refine ⟨hinit.frame (fun a ha => ?_) fun a ha => ?_, Links.isRing_init _ _, List.Perm.refl _⟩
  · rw [List.mem_singleton.1 ha]
    rfl
  · rw [List.mem_singleton.1 ha]
    rfl

namespace NodeMem

variable {m : NodeMem} {n : Nat}

/-- A new node does not change what the others carry. -/
theorem inst_newNode (e : EventInst) (hn : n < m.nextAddr) (hd : m.data n < m.nextAddr) :
    (m.newNode e).2.data n = m.data n ∧ (m.newNode e).2.inst n = m.inst n := by
  have hdata : (m.newNode e).2.data n = m.data n := Function.update_of_ne (Nat.ne_of_lt hn) _ _
  refine ⟨hdata, ?_⟩
  show (m.newNode e).2.insts ((m.newNode e).2.data n) = m.insts (m.data n)
  rw [hdata]
  exact Function.update_of_ne (by omega) _ _

theorem inst_newNode_self (m : NodeMem) (e : EventInst) :
    (m.newNode e).2.data m.nextAddr = m.nextAddr + 1 ∧ (m.newNode e).2.inst m.nextAddr = e := by
  have hdata : (m.newNode e).2.data m.nextAddr = m.nextAddr + 1 := Function.update_self _ _ _
  refine ⟨hdata, ?_⟩
  show (m.newNode e).2.insts ((m.newNode e).2.data m.nextAddr) = e
  rw [hdata]
  exact Function.update_self _ _ _

theorem fits_newNode (h : ∀ addr, Fits (m.insts addr)) {e : EventInst} (he : Fits e) :
    ∀ addr, Fits ((m.newNode e).2.insts addr) := by
  intro addr
  show Fits (Function.update m.insts (m.nextAddr + 1) e addr)
  rcases eq_or_ne addr (m.nextAddr + 1) with rfl | hne
  · rw [Function.update_self]
    exact he
  · rw [Function.update_of_ne hne]
    exact h addr

end NodeMem

/-! ## The client -/

structure Kept (c : NodeClient) (ps cs hs : List Nat) : Prop where
  owns : Owns c.mem c.eventQueue c.callbackEventQueue ps cs hs
  size : c.eventQueueSize = ps.length
  room : c.polls = true → 0 < c.maxPollingQueueLen
  empty : c.polls = false → ps = []
  fits : ∀ addr, Fits (c.mem.insts addr)

namespace Kept

variable {c : NodeClient} {ps cs hs : List Nat} {n : Nat}

theorem newNode (h : Kept c ps cs hs) {e : EventInst} (he : Fits e) :
    Kept { c with mem := (c.mem.newNode e).2 } ps cs (c.mem.nextAddr :: hs) := by
  exact ⟨h.owns.newNode e, h.size, h.room, h.empty, NodeMem.fits_newNode h.fits he⟩

/-- A node in the hands of the code is pushed to the queue of a polling client. -/
theorem push (h : Kept c ps cs (n :: hs)) (hpolls : c.polls = true) :
    Kept (c.pushToCompPollingList n)
        ((if c.eventQueueSize = c.maxPollingQueueLen then ps.tail else ps) ++ [n]) cs hs ∧
      (c.pushToCompPollingList n).events = c.events ++
        (if c.eventQueueSize = c.maxPollingQueueLen then ps.head?.toList.map .dropped else []) ++
          [.arrived n] ∧
      (c.pushToCompPollingList n).mem.inst = c.mem.inst := by
  by_cases hfull : c.eventQueueSize = c.maxPollingQueueLen
  · have hpos : 0 < ps.length := by
      have hroom := h.room hpolls
      have hsize := h.size
      omega
    obtain ⟨o, rest, rfl⟩ := List.exists_cons_of_length_pos hpos
    have hnext : c.mem.links.next c.eventQueue = o := h.owns.polling.next_head
    have hpush : c.pushToCompPollingList n =
        { c with
          mem := (((c.mem.relink (Links.removeNode o)).free (c.mem.data o)).free o).relink
            (Links.addBack c.eventQueue n)
          eventQueueSize := c.eventQueueSize - 1 + 1
          events := c.events ++ [.dropped o] ++ [.arrived n] } := by
      simp [NodeClient.pushToCompPollingList, hpolls, hfull, hnext]
    -- the oldest node is released
    have hout := h.owns.removeNode (n := o) List.mem_cons_self
    rw [List.erase_cons_head] at hout
    rw [hpush, if_pos hfull, if_pos hfull]
    refine ⟨⟨hout.free.addBack, ?_, h.room, fun he => ?_, h.fits⟩, rfl, rfl⟩
    · show c.eventQueueSize - 1 + 1 = _
      rw [h.size]
      simp
    · exact absurd hpolls (Bool.eq_false_iff.1 he)
  · have hpush : c.pushToCompPollingList n =
        { c with
          mem := c.mem.relink (Links.addBack c.eventQueue n)
          eventQueueSize := c.eventQueueSize + 1
          events := c.events ++ [.arrived n] } := by
      simp [NodeClient.pushToCompPollingList, hpolls, hfull]
    rw [hpush, if_neg hfull, if_neg hfull]
    refine ⟨⟨h.owns.addBack, ?_, h.room, fun he => ?_, h.fits⟩, by rw [List.append_nil],
      rfl⟩
    · show c.eventQueueSize + 1 = _
      rw [h.size]
      simp
    · exact absurd hpolls (Bool.eq_false_iff.1 he)

/-- A client that does not poll releases it. -/
theorem push_discard (h : Kept c ps cs (n :: hs)) (hpolls : c.polls = false) :
    Kept (c.pushToCompPollingList n) ps cs hs ∧
      c.pushToCompPollingList n = { c with mem := (c.mem.free (c.mem.data n)).free n } := by
  have hpush : c.pushToCompPollingList n = { c with mem := (c.mem.free (c.mem.data n)).free n } := by
    simp [NodeClient.pushToCompPollingList, hpolls]
  rw [hpush]
  exact ⟨⟨h.owns.free, h.size, h.room, h.empty, h.fits⟩, rfl⟩

theorem push_any (h : Kept c ps cs (n :: hs)) :
    ∃ ps', Kept (c.pushToCompPollingList n) ps' cs hs := by
  cases hpolls : c.polls with
  | true => exact ⟨_, (h.push hpolls).1⟩
  | false => exact ⟨ps, (h.push_discard hpolls).1⟩

/-- A node is polled. -/
theorem takeOut (h : Kept c ps cs hs) (hn : n ∈ ps) : Kept (c.takeOut n) (ps.erase n) cs hs := by
  have hlen := List.length_erase_of_mem hn
  have hpos := List.length_pos_of_mem hn
  refine ⟨(h.owns.removeNode hn).free, ?_, h.room, fun he => ?_, h.fits⟩
  · show c.eventQueueSize - 1 = ((ps.erase n).length : Int)
    rw [h.size, hlen]
    omega
  · rw [h.empty he] at hn
    cases hn

/-- A message that a mask matches goes to the callback queue, and the first of its two nodes stays in
the hands of the code. -/
theorem handleMsg_matched (h : Kept c ps cs hs) {e : EventInst} (he : Fits e) (hm : c.matched e = true) :
    Kept (c.handleMsg e) ps (cs ++ [c.mem.nextAddr + 2]) (c.mem.nextAddr :: hs) ∧
      c.handleMsg e =
        { c with
          mem := ((c.mem.newNode e).2.newNode e).2.relink
            (Links.addBack c.callbackEventQueue (c.mem.nextAddr + 2))
          queued := c.queued ++ [c.mem.nextAddr + 2] } := by
  have hm' : ({ c with mem := (c.mem.newNode e).2 } : NodeClient).matched e = true := hm
  have hmsg : c.handleMsg e =
      { c with
        mem := ((c.mem.newNode e).2.newNode e).2.relink
          (Links.addBack c.callbackEventQueue (c.mem.nextAddr + 2))
        queued := c.queued ++ [c.mem.nextAddr + 2] } := by
    simp [NodeClient.handleMsg, hm']
  have hsecond := (h.newNode he).newNode he
  rw [hmsg]
  exact ⟨⟨hsecond.owns.swap.addBack.swap, h.size, h.room, h.empty, hsecond.fits⟩, rfl⟩

/-- Any other message is pushed to the polling queue. -/
theorem handleMsg_other {e : EventInst} (hm : c.matched e = false) :
    c.handleMsg e =
      ({ c with mem := (c.mem.newNode e).2 } : NodeClient).pushToCompPollingList c.mem.nextAddr := by
  have hm' : ¬({ c with mem := (c.mem.newNode e).2 } : NodeClient).matched e = true :=
    Bool.eq_false_iff.1 hm
  simp only [NodeClient.handleMsg, if_neg hm']
  rfl

/-- A call that subscribes or unsubscribes only changes the map. -/
theorem newMap (h : Kept c ps cs hs) (map : Option CallbackMap) :
    Kept { c with callbackMap := map } ps cs hs :=
  ⟨h.owns, h.size, h.room, h.empty, h.fits⟩

/-- The search of `FTBC_Poll_event` goes through the queue, and ends before its bound does. -/
theorem search_queue (h : Kept c ps cs hs) (p : Nat → Bool) (hpos : c.eventQueueSize > 0) :
    c.mem.links.search c.eventQueue p c.mem.nextAddr (c.mem.links.next c.eventQueue) =
      ps.find? p := by
  have hlen : 0 < ps.length := by
    have hsize := h.size
    omega
  obtain ⟨o, rest, rfl⟩ := List.exists_cons_of_length_pos hlen
  rw [h.owns.polling.next_head]
  refine h.owns.polling.search p (List.nil_append _).symm ?_
  -- the nodes are different addresses below `nextAddr`
  have hnd : (o :: rest).Nodup := by
    refine h.owns.nodup_nodes.sublist ?_
    refine .cons _ (.cons _ ?_)
    exact (List.sublist_append_left _ _).trans (List.sublist_append_left _ _)
  have hsub : ∀ a ∈ o :: rest, a ∈ List.range c.mem.nextAddr := fun a ha =>
    List.mem_range.2 (h.owns.lt_nextAddr
      (Owns.mem_all (List.mem_append_left _ (List.mem_append_left _ ha))).1)
  have hle := (List.subperm_of_subset hnd hsub).length_le
  rw [List.length_cons, List.length_range] at hle
  exact hle

theorem receiveEvent_of_fits {entry : EventInst} (h : Fits entry) (bytes : Cell.Mem Field) :
    ∃ r, receiveEvent entry bytes = some r :=
  ⟨_, if_neg (Nat.not_le.2 h)⟩

/-- A look takes the first node that matches, or there is none. -/
theorem look (h : Kept c ps cs hs) (mask : Event) (bytes : Cell.Mem Field) :
    ((ps.find? fun n => matchMask (c.mem.inst n).eventInst mask) = none ∧
        c.look mask bytes = some (none, c)) ∨
      ∃ n r, (ps.find? fun n => matchMask (c.mem.inst n).eventInst mask) = some n ∧
        receiveEvent (c.mem.inst n) bytes = some r ∧
        c.look mask bytes = some (some r, c.takeOut n) := by
  by_cases hpos : c.eventQueueSize > 0
  · have hsearch := h.search_queue (fun n => matchMask (c.mem.inst n).eventInst mask) hpos
    cases hf : ps.find? fun n => matchMask (c.mem.inst n).eventInst mask with
    | none =>
      rw [hf] at hsearch
      refine .inl ⟨rfl, ?_⟩
      simp only [NodeClient.look, if_pos hpos]
      rw [hsearch]
    | some n =>
      rw [hf] at hsearch
      obtain ⟨r, hr⟩ := receiveEvent_of_fits (h.fits (c.mem.data n)) bytes
      have hr' : receiveEvent (c.mem.inst n) bytes = some r := hr
      refine .inr ⟨n, r, rfl, hr, ?_⟩
      simp only [NodeClient.look, if_pos hpos]
      rw [hsearch]
      simp only [hr']
      rfl
  · have hnil : ps = [] := by
      have hsize := h.size
      exact List.length_eq_zero_iff.1 (by omega)
    subst hnil
    exact .inl ⟨rfl, if_neg hpos⟩

end Kept

/-- What the sections leave as it is. -/
structure Same (c c' : NodeClient) : Prop where
  clientHandle : c'.clientHandle = c.clientHandle
  subscriptionType : c'.subscriptionType = c.subscriptionType
  maxPollingQueueLen : c'.maxPollingQueueLen = c.maxPollingQueueLen

namespace Same

variable {c c' c'' : NodeClient}

theorem rfl : Same c c := ⟨Eq.refl _, Eq.refl _, Eq.refl _⟩

theorem trans (h : Same c c') (h' : Same c' c'') : Same c c'' :=
  ⟨h'.clientHandle.trans h.clientHandle, h'.subscriptionType.trans h.subscriptionType,
    h'.maxPollingQueueLen.trans h.maxPollingQueueLen⟩

end Same

/-- What a push leaves as it is. -/
structure SamePush (c c' : NodeClient) : Prop extends Same c c' where
  callbackMap : c'.callbackMap = c.callbackMap
  data : c'.mem.data = c.mem.data
  insts : c'.mem.insts = c.mem.insts
  nextAddr : c'.mem.nextAddr = c.mem.nextAddr
  thread : c'.thread = c.thread
  queued : c'.queued = c.queued
  left : c'.left = c.left

namespace NodeClient

theorem same_push (n : Nat) (c : NodeClient) : SamePush c (c.pushToCompPollingList n) := by
  unfold pushToCompPollingList
  split
  · split <;> exact ⟨⟨rfl, rfl, rfl⟩, rfl, rfl, rfl, rfl, rfl, rfl, rfl⟩
  · exact ⟨⟨rfl, rfl, rfl⟩, rfl, rfl, rfl, rfl, rfl, rfl, rfl⟩

theorem same_handleMsg (e : EventInst) (c : NodeClient) : Same c (c.handleMsg e) := by
  have h := same_push c.mem.nextAddr { c with mem := (c.mem.newNode e).2 }
  by_cases hm : ({ c with mem := (c.mem.newNode e).2 } : NodeClient).matched e = true
  · simp only [handleMsg, if_pos hm]
    exact ⟨rfl, rfl, rfl⟩
  · simp only [handleMsg, if_neg hm]
    exact ⟨h.clientHandle, h.subscriptionType, h.maxPollingQueueLen⟩

end NodeClient

/-- A polling client has room for an event. -/
theorem room_of_style {cinfo : Client} {type : UInt8} {max : Int}
    (hstyle : FTBC.subscriptionStyle cinfo = some (type, max))
    (hpolls : (type &&& subscriptionPolling != 0) = true) : 0 < max := by
  have hlen : 0 < (if cinfo.clientPollingQueueLen > 0 then cinfo.clientPollingQueueLen
      else defaultPollingQLen) := by
    split
    · assumption
    · decide
  simp only [FTBC.subscriptionStyle] at hstyle
  split at hstyle
  · cases hstyle
    exact hlen
  · split at hstyle
    · cases hstyle
      cases hpolls
    · split at hstyle
      · cases hstyle
        cases hpolls
      · split at hstyle
        · cases hstyle
          exact hlen
        · cases hstyle

/-- The client that `FTBC_Connect` makes. -/
theorem kept_connect {cinfo : Client} {type : UInt8} {max : Int}
    (hstyle : FTBC.subscriptionStyle cinfo = some (type, max)) (handle : ClientHandle) :
    Kept (NodeClient.connect handle type max) [] [] [] :=
  ⟨owns_connect handle type max, rfl, fun hpolls => room_of_style hstyle hpolls, fun _ => rfl,
    fun _ => show Fits default by decide⟩

end FTBCI
