import Mathlib.Data.List.Induction
import Ftb.Manager.Queue

/-!
# The message queue keeps its messages, but for one kind of batch

`QueueOk`: what `FTBM_Recv` returned and what is reachable from `message_queue_head` are the
appended batches, and `message_queue_tail` is the last node. A failing batch without messages
breaks it: its `CLEANUP_CONN` node is appended and `message_queue_tail` becomes null
(`tail_of_lost`), so the batch after it is not linked. Nothing else breaks it: `Inv` is kept by
every other step, and `queue_ok_iff` says so of whole runs.
-/

open FTB Chain

namespace FTBM.Queue

/-- Nothing lost and nothing reordered, and the tail is the last node. -/
def QueueOk (s : State) : Prop :=
  ∃ l, IsChain Node.next s.mem s.head l ∧ s.returned ++ l.map (·.2.item) = s.appended ∧
    s.tail = lastAddr l

/-- A failing batch without messages. -/
def Batch.Lost (b : Batch) : Prop := b.failed.isSome = true ∧ b.msgs = []

instance (b : Batch) : Decidable b.Lost :=
  inferInstanceAs (Decidable (b.failed.isSome = true ∧ b.msgs = []))

/-- Its node is the only one. -/
theorem Batch.Lost.items_ne_nil {b : Batch} (h : b.Lost) : b.items ≠ [] := by
  obtain ⟨location, hloc⟩ := Option.isSome_iff_exists.1 h.1
  simp [Batch.items, hloc]

/-- A batch that has nodes but no messages has failed. -/
theorem Batch.lost_iff_msgs {b : Batch} (h : b.items ≠ []) : b.Lost ↔ b.msgs = [] := by
  refine ⟨And.right, fun hm => ⟨?_, hm⟩⟩
  cases hfl : b.failed with
  | some _ => rfl
  | none => exact absurd (by rw [Batch.items, hfl, hm]) h

/-! ## The invariant -/

/-- The nodes in use: those of the queue and those of the filler, all different, below `brk`. -/
structure Pool (s : State) (l lp : List (Nat × Node)) : Prop where
  queue : IsChain Node.next s.mem s.head l
  fresh : ∀ q, s.brk ≤ q → s.mem q = none
  nodup : ((l ++ lp).map Prod.fst).Nodup

/-- The nodes of the filler carry its batch. -/
def LocalOk (mem : Nat → Option Node) (lp : List (Nat × Node)) : Filler → Prop
  | .idle => lp = []
  | .grabbed head tail b => IsChain Node.next mem head lp ∧ lp.map (·.2.item) = b.items ∧
      tail = if b.msgs = [] then none else lastAddr lp

structure Inv (s : State) (l lp : List (Nat × Node)) : Prop where
  pool : Pool s l lp
  tail : s.tail = lastAddr l
  items : s.returned ++ l.map (·.2.item) = s.appended
  filler : LocalOk s.mem lp s.filler

theorem Inv.queueOk {s : State} {l lp : List (Nat × Node)} (h : Inv s l lp) : QueueOk s :=
  ⟨l, h.pool.queue, h.items, h.tail⟩

theorem inv_init : Inv State.init [] [] :=
  ⟨⟨rfl, fun _ _ => rfl, List.nodup_nil⟩, rfl, rfl, rfl⟩

namespace Pool

variable {s : State} {l lp : List (Nat × Node)}

/-- The queue and the filler share no node. -/
theorem disjoint (h : Pool s l lp) {q : Nat} (hq : q ∈ l.map Prod.fst) : q ∉ lp.map Prod.fst := by
  have hn := h.nodup
  rw [List.map_append, List.nodup_append] at hn
  exact fun hq' => hn.2.2 q hq q hq' rfl

theorem nodup_right (h : Pool s l lp) : (lp.map Prod.fst).Nodup := by
  have hn := h.nodup
  rw [List.map_append, List.nodup_append] at hn
  exact hn.2.1

theorem nodup_left (h : Pool s l lp) : (l.map Prod.fst).Nodup := by
  have hn := h.nodup
  rw [List.map_append, List.nodup_append] at hn
  exact hn.1

/-- No chain goes through the next address. -/
theorem brk_not_mem (h : Pool s l lp) {p : Option Nat} {l' : List (Nat × Node)}
    (hc : IsChain Node.next s.mem p l') : s.brk ∉ l'.map Prod.fst := by
  intro hm
  have hs := hc.mem_isSome hm
  rw [h.fresh s.brk (Nat.le_refl _)] at hs
  cases hs

/-- A write to a node in use. -/
theorem fresh_update (h : Pool s l lp) {t : Nat} {v : Node} (hv : s.mem t = some v)
    (v' : Option Node) : ∀ q, s.brk ≤ q → Function.update s.mem t v' q = none := by
  intro q hq
  have hne : q ≠ t := by
    rintro rfl
    exact absurd ((h.fresh q hq).symm.trans hv) (by simp)
  exact (Function.update_of_ne hne _ _).trans (h.fresh q hq)

/-- A new node of the filler. -/
theorem malloc (h : Pool s l lp) {p : Option Nat} (hc : IsChain Node.next s.mem p lp) (n : Node) :
    Pool (s.malloc n) l (lp ++ [(s.brk, n)]) ∧ Pool (s.malloc n) l ((s.brk, n) :: lp) := by
  have hl := h.brk_not_mem h.queue
  have hlp := h.brk_not_mem hc
  have hq : IsChain Node.next (s.malloc n).mem (s.malloc n).head l := h.queue.update hl _
  have hf : ∀ q, (s.malloc n).brk ≤ q → (s.malloc n).mem q = none := by
    intro q hle
    have hlt : s.brk < q := hle
    exact (Function.update_of_ne (by omega) _ _).trans (h.fresh q (by omega))
  have hcons : (((s.brk, n) :: (l ++ lp)).map Prod.fst).Nodup := by
    rw [List.map_cons, List.nodup_cons]
    refine ⟨?_, h.nodup⟩
    rw [List.map_append, List.mem_append, not_or]
    exact ⟨hl, hlp⟩
  refine ⟨⟨hq, hf, ?_⟩, ⟨hq, hf, ?_⟩⟩
  · refine (List.Perm.map _ ?_).nodup_iff.2 hcons
    rw [← List.append_assoc]
    exact List.perm_append_singleton _ _
  · exact (List.Perm.map _ List.perm_middle).nodup_iff.2 hcons

end Pool

/-! ## Grabbing -/

/-- The fields that grabbing does not touch. -/
structure SameQueue (s s' : State) : Prop where
  head : s'.head = s.head
  tail : s'.tail = s.tail
  receiver : s'.receiver = s.receiver
  returned : s'.returned = s.returned
  appended : s'.appended = s.appended

theorem SameQueue.trans {s s' s'' : State} (h : SameQueue s s') (h' : SameQueue s' s'') :
    SameQueue s s'' :=
  ⟨h'.head.trans h.head, h'.tail.trans h.tail, h'.receiver.trans h.receiver,
    h'.returned.trans h.returned, h'.appended.trans h.appended⟩

theorem setNext_eq {s : State} {t : Nat} {n : Node} (h : s.mem t = some n) (q : Option Nat) :
    s.setNext (some t) q =
      some { s with mem := Function.update s.mem t (some { n with next := q }) } := by
  simp only [State.setNext, h]

/-- A chain that ends in the last node. -/
theorem eq_concat_of_lastAddr {l : List (Nat × Node)} {t : Nat} (h : lastAddr l = some t) :
    ∃ l₀ n, l = l₀ ++ [(t, n)] := by
  rcases List.eq_nil_or_concat l with rfl | ⟨l₀, ⟨q, n⟩, rfl⟩
  · cases h
  · rw [List.concat_eq_append, lastAddr_concat] at h
    cases h
    exact ⟨l₀, n, List.concat_eq_append⟩

theorem mem_of_chain_concat {mem : Nat → Option Node} {p : Option Nat} {l : List (Nat × Node)}
    {t : Nat} {n : Node} (h : IsChain Node.next mem p (l ++ [(t, n)])) : mem t = some n := by
  induction l generalizing p with
  | nil => exact h.2.1
  | cons a l ih => exact ih h.2.2

theorem linkNode_spec {s : State} {l lp : List (Nat × Node)} {head tail : Option Nat}
    (h : Pool s l lp) (hc : IsChain Node.next s.mem head lp) (ht : tail = lastAddr lp)
    (item : Item) :
    ∃ s' head' tail' lp', linkNode (s, head, tail) item = some (s', head', tail') ∧
      SameQueue s s' ∧ Pool s' l lp' ∧ IsChain Node.next s'.mem head' lp' ∧
      tail' = lastAddr lp' ∧ lp'.map (·.2.item) = lp.map (·.2.item) ++ [item] := by
  let n : Node := { msg := item.1, incomingSrc := item.2, next := none }
  have hp := (h.malloc hc n).1
  have hbrk := h.brk_not_mem hc
  have hc1 : IsChain Node.next (s.malloc n).mem head lp := hc.update hbrk _
  have hself : IsChain Node.next (s.malloc n).mem (some s.brk) [(s.brk, n)] :=
    ⟨rfl, Function.update_self _ _ _, rfl⟩
  cases head with
  | none =>
    have hlp : lp = [] := by
      cases lp with
      | nil => rfl
      | cons a lp => cases hc.1
    subst hlp
    exact ⟨s.malloc n, some s.brk, some s.brk, [(s.brk, n)], rfl, ⟨rfl, rfl, rfl, rfl, rfl⟩, hp,
      hself, rfl, rfl⟩
  | some p =>
    have hne : lp ≠ [] := fun he => by rw [he] at hc; cases hc
    obtain ⟨t, htl⟩ := Option.ne_none_iff_exists'.1 fun he => hne (lastAddr_eq_none.1 he)
    obtain ⟨lp₀, v, rfl⟩ := eq_concat_of_lastAddr htl
    have hv : (s.malloc n).mem t = some v := mem_of_chain_concat hc1
    have ht' : tail = some t := ht.trans htl
    -- the last node of the batch is not in the queue, not before itself and not the new one
    have hmem : t ∈ (lp₀ ++ [(t, v)]).map Prod.fst := by simp
    have hnd := h.nodup_right
    rw [List.map_append, List.nodup_append] at hnd
    have ht₀ : t ∉ lp₀.map Prod.fst := fun hm => hnd.2.2 t hm t (by simp) rfl
    have htq : t ∉ l.map Prod.fst := fun hm => h.disjoint hm hmem
    have htb : t ∉ [(s.brk, n)].map Prod.fst := by
      simp only [List.map_cons, List.map_nil, List.mem_singleton]
      exact fun he => hbrk (he ▸ hmem)
    let v' : Node := { v with next := some s.brk }
    let s' : State := { s.malloc n with mem := Function.update (s.malloc n).mem t (some v') }
    have hl : linkNode (s, some p, tail) item = some (s', some p, some s.brk) := by
      unfold linkNode
      simp only [ht']
      rw [setNext_eq hv]
    have hc' : IsChain Node.next s'.mem (some p) (lp₀ ++ (t, v') :: [(s.brk, n)]) :=
      hc1.link hself rfl ht₀ htb
    have haddr : (l ++ (lp₀ ++ (t, v') :: [(s.brk, n)])).map Prod.fst =
        (l ++ (lp₀ ++ [(t, v)] ++ [(s.brk, n)])).map Prod.fst := by simp
    refine ⟨s', some p, some s.brk, lp₀ ++ (t, v') :: [(s.brk, n)], hl, ⟨rfl, rfl, rfl, rfl, rfl⟩,
      ⟨hp.queue.update htq _, hp.fresh_update hv _, ?_⟩, hc', ?_, ?_⟩
    · rw [haddr]
      exact hp.nodup
    · rw [lastAddr_append lp₀ (by simp)]
      rfl
    · simp [v', n, Node.item]

/-- The messages of a batch in nodes of the filler. -/
theorem foldlM_linkNode_spec (msgs : List Item) {s : State} {l lp : List (Nat × Node)}
    {head tail : Option Nat} (h : Pool s l lp) (hc : IsChain Node.next s.mem head lp)
    (ht : tail = lastAddr lp) :
    ∃ s' head' tail' lp', msgs.foldlM linkNode (s, head, tail) = some (s', head', tail') ∧
      SameQueue s s' ∧ Pool s' l lp' ∧ IsChain Node.next s'.mem head' lp' ∧
      tail' = lastAddr lp' ∧ lp'.map (·.2.item) = lp.map (·.2.item) ++ msgs := by
  induction msgs generalizing s lp head tail with
  | nil => exact ⟨s, head, tail, lp, rfl, ⟨rfl, rfl, rfl, rfl, rfl⟩, h, hc, ht, by simp⟩
  | cons item msgs ih =>
    obtain ⟨s₁, head₁, tail₁, lp₁, hl, hs, hp, hc₁, ht₁, hi⟩ := linkNode_spec h hc ht item
    obtain ⟨s', head', tail', lp', hl', hs', hp', hc', ht', hi'⟩ := ih hp hc₁ ht₁
    refine ⟨s', head', tail', lp', ?_, hs.trans hs', hp', hc', ht', ?_⟩
    · rw [List.foldlM_cons, hl]
      exact hl'
    · rw [hi', hi, List.append_assoc]
      rfl

/-- The nodes of the queue and of the filler, without a word about `message_queue_tail`. -/
structure Chained (s : State) (l lp : List (Nat × Node)) : Prop where
  pool : Pool s l lp
  filler : LocalOk s.mem lp s.filler

theorem Inv.chained {s : State} {l lp : List (Nat × Node)} (h : Inv s l lp) : Chained s l lp :=
  ⟨h.pool, h.filler⟩

theorem Chained.grab {s : State} {l lp : List (Nat × Node)} (h : Chained s l lp)
    (hf : s.filler = .idle) (b : Batch) :
    ∃ s' lp', grab b s = some s' ∧ SameQueue s s' ∧ Chained s' l lp' ∧
      ∃ head tail, s'.filler = .grabbed head tail b := by
  have hlp : lp = [] := by
    have hlo := h.filler
    rwa [hf] at hlo
  subst hlp
  have hnil : IsChain Node.next s.mem none [] := rfl
  obtain ⟨s₁, head, tail, lp, hl, hs, hp, hc, ht, hi⟩ :=
    foldlM_linkNode_spec b.msgs h.pool hnil rfl
  replace hl : b.msgs.foldlM linkNode (s, none, none) = some (s₁, head, tail) := hl
  replace hi : lp.map (·.2.item) = b.msgs := hi
  have htl : tail = if b.msgs = [] then none else lastAddr lp := by
    split
    · rename_i hb
      rw [hb] at hi
      rw [ht, List.map_eq_nil_iff.1 hi]
      rfl
    · exact ht
  cases hb : b.failed with
  | none =>
    let s' : State := { s₁ with filler := .grabbed head tail b }
    have hg : Queue.grab b s = some s' := by simp only [Queue.grab, hl, hb, s']
    have hit : lp.map (·.2.item) = b.items := by simpa [Batch.items, hb] using hi
    exact ⟨s', lp, hg, ⟨hs.head, hs.tail, hs.receiver, hs.returned, hs.appended⟩,
      ⟨⟨hp.queue, hp.fresh, hp.nodup⟩, hc, hit, htl⟩, head, tail, rfl⟩
  | some location =>
    let n : Node := { msg := cleanupMsg, incomingSrc := location, next := head }
    let s' : State := { s₁.malloc n with filler := .grabbed (some s₁.brk) tail b }
    have hg : Queue.grab b s = some s' := by simp only [Queue.grab, hl, hb, s', n]
    have hp' := (hp.malloc hc n).2
    refine ⟨s', (s₁.brk, n) :: lp, hg, ⟨hs.head, hs.tail, hs.receiver, hs.returned, hs.appended⟩,
      ⟨⟨hp'.queue, hp'.fresh, hp'.nodup⟩, ?_⟩, some s₁.brk, tail, rfl⟩
    refine ⟨⟨rfl, Function.update_self _ _ _, hc.update (hp.brk_not_mem hc) _⟩, ?_, ?_⟩
    · rw [List.map_cons, hi, Batch.items, hb]
      rfl
    · rw [htl]
      split
      · rfl
      · rename_i hb
        rw [lastAddr_cons]
        intro hn
        rw [hn] at hi
        exact hb hi.symm

theorem Inv.grab {s : State} {l lp : List (Nat × Node)} (h : Inv s l lp) (hf : s.filler = .idle)
    (b : Batch) :
    ∃ s' lp', grab b s = some s' ∧ Inv s' l lp' ∧ ∃ head tail, s'.filler = .grabbed head tail b := by
  obtain ⟨s', lp', hg, hs, hc, hf'⟩ := h.chained.grab hf b
  refine ⟨s', lp', hg, ⟨hc.pool, hs.tail.trans h.tail, ?_, hc.filler⟩, hf'⟩
  rw [hs.returned, hs.appended]
  exact h.items

/-! ## Appending -/

/-- A batch is linked behind the last node. Its own last node becomes the tail, which is null for a
failing batch without messages. -/
theorem Chained.append {s : State} {l lp : List (Nat × Node)} (h : Chained s l lp)
    (htail : s.tail = lastAddr l) {head tail : Option Nat} {b : Batch}
    (hf : s.filler = .grabbed head tail b) :
    ∃ s' l', append head tail b s = some s' ∧ Chained s' l' [] ∧ s'.filler = .idle ∧
      l'.map (·.2.item) = l.map (·.2.item) ++ b.items ∧
      s'.tail = (if b.Lost then none else lastAddr l') ∧ s'.returned = s.returned ∧
      s'.appended = s.appended ++ b.items := by
  obtain ⟨hc, hi, ht⟩ : LocalOk s.mem lp (.grabbed head tail b) := hf ▸ h.filler
  cases head with
  | none =>
    have hlp : lp = [] := by
      cases lp with
      | nil => rfl
      | cons a lp => cases hc.1
    subst hlp
    have hnil : b.items = [] := hi.symm
    have hb : ¬b.Lost := fun hlost => hlost.items_ne_nil hnil
    refine ⟨_, l, rfl, ⟨⟨h.pool.queue, h.pool.fresh, h.pool.nodup⟩, rfl⟩, rfl, ?_, ?_, rfl, rfl⟩
    · rw [hnil, List.append_nil]
    · rw [if_neg hb]
      exact htail
  | some p =>
    have hne : lp ≠ [] := fun he => by rw [he] at hc; cases hc
    have hitems : b.items ≠ [] := fun hnil => hne (List.map_eq_nil_iff.1 (hi.trans hnil))
    have htl : tail = if b.Lost then none else lastAddr lp :=
      ht.trans (if_congr (Batch.lost_iff_msgs hitems).symm rfl rfl)
    cases hst : s.tail with
    | none =>
      have hl : l = [] := lastAddr_eq_none.1 (htail.symm.trans hst)
      subst hl
      have hh : s.head = none := h.pool.queue
      let s' : State :=
        { s with filler := .idle, appended := s.appended ++ b.items, head := some p, tail }
      have ha : Queue.append (some p) tail b s = some s' := by
        simp only [Queue.append, hst, hh, s']
      refine ⟨s', lp, ha, ⟨⟨hc, h.pool.fresh, ?_⟩, rfl⟩, rfl, hi, htl, rfl, rfl⟩
      rw [List.append_nil]
      exact h.pool.nodup_right
    | some t =>
      obtain ⟨l₀, v, rfl⟩ := eq_concat_of_lastAddr (htail.symm.trans hst)
      have hv : s.mem t = some v := mem_of_chain_concat h.pool.queue
      have hmem : t ∈ (l₀ ++ [(t, v)]).map Prod.fst := by simp
      have htp : t ∉ lp.map Prod.fst := h.pool.disjoint hmem
      have hnd := h.pool.nodup_left
      rw [List.map_append, List.nodup_append] at hnd
      have ht₀ : t ∉ l₀.map Prod.fst := fun hm => hnd.2.2 t hm t (by simp) rfl
      obtain ⟨q, hq⟩ : ∃ q, s.head = some q := by
        cases hh : s.head with
        | some q => exact ⟨q, rfl⟩
        | none =>
          have hqc := h.pool.queue
          rw [hh] at hqc
          cases l₀ <;> cases hqc.1
      let v' : Node := { v with next := some p }
      have hlink : IsChain Node.next (Function.update s.mem t (some v')) s.head
          (l₀ ++ (t, v') :: lp) := h.pool.queue.link hc rfl ht₀ htp
      let s₁ : State := { s with filler := .idle, appended := s.appended ++ b.items }
      have hset : s₁.setNext (some t) (some p) =
          some { s₁ with mem := Function.update s₁.mem t (some v') } := setNext_eq (s := s₁) hv (some p)
      let s' : State :=
        { s₁ with mem := Function.update s₁.mem t (some v'), head := some q, tail }
      have ha : Queue.append (some p) tail b s = some s' := by
        unfold Queue.append
        simp only
        split
        · rename_i hn
          cases hst.symm.trans hn
        · rename_i t' hn
          cases hst.symm.trans hn
          rw [show State.setNext _ (some t) (some p) = _ from hset, hq]
      refine ⟨s', l₀ ++ (t, v') :: lp, ha, ⟨⟨?_, ?_, ?_⟩, rfl⟩, rfl, ?_, ?_, rfl, rfl⟩
      · rw [hq] at hlink
        exact hlink
      · exact h.pool.fresh_update hv _
      · have hn := h.pool.nodup
        simpa using hn
      · rw [← hi]
        simp [v', Node.item]
      · rw [lastAddr_append l₀ (List.cons_ne_nil _ _), lastAddr_cons _ hne]
        exact htl

/-- A batch that does not break the queue is linked behind it. -/
theorem Inv.append {s : State} {l lp : List (Nat × Node)} (h : Inv s l lp) {head tail : Option Nat}
    {b : Batch} (hf : s.filler = .grabbed head tail b) (hb : ¬b.Lost) :
    ∃ s' l', append head tail b s = some s' ∧ Inv s' l' [] ∧ s'.filler = .idle := by
  obtain ⟨s', l', ha, hc, hf', hi, ht, hr, happ⟩ := h.chained.append h.tail hf
  rw [if_neg hb] at ht
  refine ⟨s', l', ha, ⟨hc.pool, ht, ?_, hc.filler⟩, hf'⟩
  rw [hr, happ, hi, ← List.append_assoc, h.items]

/-- Behind a tail that is not the last node, a batch is lost. -/
theorem Chained.lose {s s' : State} {l lp : List (Nat × Node)} (h : Chained s l lp) (hl : l ≠ [])
    (htail : ∀ t, s.tail = some t → t ∉ l.map Prod.fst) {head tail : Option Nat} {b : Batch}
    (hf : s.filler = .grabbed head tail b) (ha : Queue.append head tail b s = some s') :
    Chained s' l [] ∧ s'.filler = .idle ∧ ∀ t, s'.tail = some t → t ∉ l.map Prod.fst := by
  obtain ⟨hc, -, ht⟩ : LocalOk s.mem lp (.grabbed head tail b) := hf ▸ h.filler
  have hnd : ((l ++ []).map Prod.fst).Nodup := by
    rw [List.append_nil]
    exact h.pool.nodup_left
  have htail' : ∀ t, tail = some t → t ∉ l.map Prod.fst := by
    intro t htt hm
    refine h.pool.disjoint hm ?_
    rw [ht] at htt
    split at htt
    · cases htt
    · obtain ⟨l₀, n, rfl⟩ := eq_concat_of_lastAddr htt
      simp
  obtain ⟨q, hq⟩ : ∃ q, s.head = some q := by
    obtain ⟨a, l', rfl⟩ := List.exists_cons_of_ne_nil hl
    exact ⟨a.1, h.pool.queue.1⟩
  cases head with
  | none =>
    cases ha
    exact ⟨⟨⟨h.pool.queue, h.pool.fresh, hnd⟩, rfl⟩, rfl, htail⟩
  | some p =>
    unfold Queue.append at ha
    simp only [hq] at ha
    split at ha
    · cases ha
      refine ⟨⟨⟨?_, h.pool.fresh, hnd⟩, rfl⟩, rfl, htail'⟩
      exact hq ▸ h.pool.queue
    · rename_i t hst
      split at ha
      · cases ha
      · rename_i s₂ hset
        cases ha
        simp only [State.setNext] at hset
        split at hset
        · cases hset
        · rename_i v hv
          cases hset
          refine ⟨⟨⟨?_, h.pool.fresh_update hv _, hnd⟩, rfl⟩, rfl, htail'⟩
          exact (hq ▸ h.pool.queue).update (htail t hst) _

/-- **A failing batch without messages leaves a queue without a tail.** -/
theorem tail_of_lost {s s' : State} {p : Nat} {b : Batch}
    (h : append (some p) none b s = some s') : ¬QueueOk s' := by
  have key : s'.tail = none ∧ s'.head ≠ none := by
    unfold Queue.append at h
    simp only at h
    split at h
    · cases h
      refine ⟨rfl, ?_⟩
      cases s.head <;> simp
    · split at h
      · cases h
      · cases h
        refine ⟨rfl, ?_⟩
        cases s.head <;> simp
  intro ⟨l, hc, _, ht⟩
  have hl : l = [] := lastAddr_eq_none.1 (ht.symm.trans key.1)
  subst hl
  exact key.2 hc

/-! ## Taking -/

theorem Chained.take_nil {s : State} {lp : List (Nat × Node)} (h : Chained s [] lp) :
    take s = some { s with receiver := .outside } := by
  have hh : s.head = none := h.pool.queue
  simp only [Queue.take, hh]

theorem Chained.take_cons {s : State} {a : Nat × Node} {l lp : List (Nat × Node)}
    (h : Chained s (a :: l) lp) :
    ∃ s', take s = some s' ∧ Chained s' l lp ∧ s'.filler = s.filler ∧
      s'.tail = (if l = [] then none else s.tail) ∧ s'.returned = s.returned ++ [a.2.item] ∧
      s'.appended = s.appended := by
  obtain ⟨hh, hv, hc⟩ := h.pool.queue
  have hal : a.1 ∉ l.map Prod.fst := by
    have hn := h.pool.nodup_left
    rw [List.map_cons, List.nodup_cons] at hn
    exact hn.1
  have hap : a.1 ∉ lp.map Prod.fst := h.pool.disjoint (by simp)
  have hnext : a.2.next = none ↔ l = [] := by
    cases l with
    | nil => exact iff_of_true hc rfl
    | cons c l =>
      have hn : a.2.next = some c.1 := hc.1
      simp [hn]
  let s' : State := { s with
    mem := Function.update s.mem a.1 none, head := a.2.next
    tail := if a.2.next = none then none else s.tail
    receiver := .outside, returned := s.returned ++ [a.2.item] }
  have ht : Queue.take s = some s' := by
    cases hn : a.2.next <;> simp [Queue.take, hh, hv, hn, s']
  refine ⟨s', ht, ⟨⟨hc.update hal _, h.pool.fresh_update hv _, ?_⟩, ?_⟩, rfl,
    if_congr hnext rfl rfl, rfl, rfl⟩
  · have hn := h.pool.nodup
    rw [List.cons_append, List.map_cons, List.nodup_cons] at hn
    exact hn.2
  · have hlo := h.filler
    cases hfl : s.filler with
    | idle => rwa [hfl] at hlo
    | grabbed head tail b =>
      rw [hfl] at hlo
      exact ⟨hlo.1.update hap _, hlo.2⟩

/-- `FTBM_Recv` takes the first message, if there is one. -/
theorem Inv.take {s : State} {l lp : List (Nat × Node)} (h : Inv s l lp) :
    ∃ s' l', take s = some s' ∧ Inv s' l' lp ∧ s'.filler = s.filler := by
  cases l with
  | nil =>
    exact ⟨_, [], h.chained.take_nil,
      ⟨⟨h.pool.queue, h.pool.fresh, h.pool.nodup⟩, h.tail, h.items, h.filler⟩, rfl⟩
  | cons a l =>
    obtain ⟨s', ht, hc, hf, htail, hr, ha⟩ := h.chained.take_cons
    refine ⟨s', l, ht, ⟨hc.pool, ?_, ?_, hc.filler⟩, hf⟩
    · rw [htail, h.tail]
      split
      · rename_i hl
        rw [hl]
        rfl
      · rename_i hl
        exact lastAddr_cons a hl
    · rw [hr, ha, List.append_assoc]
      exact h.items

/-! ## Runs -/

theorem run_concat (evs : List Ev) (e : Ev) : run (evs ++ [e]) = (run evs).bind (step · e) := by
  unfold run
  rw [List.foldlM_append]
  cases List.foldlM step State.init evs with
  | none => rfl
  | some s =>
    show (step s e >>= fun s => pure s) = step s e
    cases step s e <;> rfl

/-- `evs` appends the batch that it grabbed here. -/
def Appends (evs : List Ev) (b : Batch) : Prop :=
  ∃ pre post, evs = pre ++ .grab b :: post ∧ .append ∈ post

theorem Appends.mono {evs : List Ev} {b : Batch} (h : Appends evs b) (evs' : List Ev) :
    Appends (evs ++ evs') b := by
  obtain ⟨pre, post, rfl, hm⟩ := h
  exact ⟨pre, post ++ evs', by simp, List.mem_append_left _ hm⟩

/-- A run that appends no lost batch keeps the invariant, and what the filler holds was grabbed
in it. -/
theorem inv_run {evs : List Ev} {s : State} (h : run evs = some s)
    (hb : ∀ b, Appends evs b → ¬b.Lost) :
    (∃ l lp, Inv s l lp) ∧ ∀ head tail b, s.filler = .grabbed head tail b → .grab b ∈ evs := by
  induction evs using List.reverseRecOn generalizing s with
  | nil =>
    cases h
    exact ⟨⟨[], [], inv_init⟩, fun _ _ _ hf => by cases hf⟩
  | append_singleton evs e ih =>
    rw [run_concat] at h
    obtain ⟨t, ht, hst⟩ := Option.bind_eq_some_iff.1 h
    obtain ⟨⟨l, lp, hi⟩, hg⟩ := ih ht fun b hA => hb b (hA.mono [e])
    have keep : ∀ {s' : State}, s'.filler = t.filler →
        ∀ head tail b, s'.filler = .grabbed head tail b → .grab b ∈ evs ++ [e] :=
      fun he head tail b hf => List.mem_append_left _ (hg head tail b (he ▸ hf))
    unfold step at hst
    split at hst
    · rename_i b hfl
      obtain ⟨s', lp', hs, hi', head, tail, hf'⟩ := hi.grab hfl b
      rw [hs] at hst
      cases hst
      refine ⟨⟨l, lp', hi'⟩, fun head' tail' b' hf => ?_⟩
      rw [hf'] at hf
      cases hf
      exact List.mem_append_right _ List.mem_cons_self
    · rename_i head tail b hfl
      obtain ⟨pre, post, rfl⟩ := List.append_of_mem (hg head tail b hfl)
      have hA : Appends (pre ++ .grab b :: post ++ [.append]) b :=
        ⟨pre, post ++ [.append], by simp, by simp⟩
      obtain ⟨s', l', hs, hi', hf'⟩ := hi.append hfl (hb b hA)
      rw [hs] at hst
      cases hst
      exact ⟨⟨l', [], hi'⟩, fun head' tail' b' hf => by rw [hf'] at hf; cases hf⟩
    · split at hst
      · cases hst
        exact ⟨⟨l, lp, ⟨hi.pool.queue, hi.pool.fresh, hi.pool.nodup⟩, hi.tail, hi.items, hi.filler⟩,
          keep rfl⟩
      · obtain ⟨s', l', hs, hi', hf'⟩ := hi.take
        rw [hs] at hst
        cases hst
        exact ⟨⟨l', lp, hi'⟩, keep hf'⟩
    · obtain ⟨s', l', hs, hi', hf'⟩ := hi.take
      rw [hs] at hst
      cases hst
      exact ⟨⟨l', lp, hi'⟩, keep hf'⟩
    · cases hst

/-! ## The batches that break the queue -/

theorem take_filler {s s' : State} (h : take s = some s') : s'.filler = s.filler := by
  unfold take at h
  split at h
  · cases h; rfl
  · split at h
    · cases h
    · cases h; rfl

/-- What the filler holds stays until it is appended. -/
theorem filler_kept {post : List Ev} (hp : .append ∉ post) {s t : State} {head tail : Option Nat}
    {b : Batch} (hs : s.filler = .grabbed head tail b) (h : post.foldlM step s = some t) :
    t.filler = .grabbed head tail b := by
  induction post generalizing s with
  | nil => cases h; exact hs
  | cons e post ih =>
    rw [List.foldlM_cons] at h
    obtain ⟨u, hu, h⟩ := Option.bind_eq_some_iff.1 h
    rw [List.mem_cons, not_or] at hp
    refine ih hp.2 ?_ h
    unfold step at hu
    split at hu
    · rename_i hf
      cases hf.symm.trans hs
    · exact absurd rfl hp.1
    · split at hu
      · cases hu; exact hs
      · exact (take_filler hu).trans hs
    · exact (take_filler hu).trans hs
    · cases hu

theorem step_grab {s s' : State} {b : Batch} (h : step s (.grab b) = some s') :
    s.filler = .idle ∧ grab b s = some s' := by
  unfold step at h
  cases hf : s.filler with
  | idle =>
    rw [hf] at h
    exact ⟨rfl, h⟩
  | grabbed head tail b' =>
    rw [hf] at h
    cases h

theorem run_append (evs post : List Ev) : run (evs ++ post) = (run evs).bind (post.foldlM step) := by
  unfold run
  exact List.foldlM_append

/-- A lost batch, grabbed and then appended, breaks the queue. -/
theorem not_queueOk_of_appends {evs : List Ev} {s : State} (h : run evs = some s) {b : Batch}
    (hA : Appends evs b) (hb : b.Lost) :
    ∃ pre post t, evs = pre ++ post ∧ run pre = some t ∧ ¬QueueOk t := by
  obtain ⟨pre, post, rfl, hm⟩ := hA
  obtain ⟨mid, rest, rfl, hmid⟩ := List.eq_append_cons_of_mem hm
  -- the three stretches of the run: to the grabbing, to the appending, and the appending
  have hsplit : pre ++ .grab b :: (mid ++ .append :: rest) =
      (pre ++ [.grab b] ++ mid ++ [.append]) ++ rest := by simp
  rw [hsplit, run_append, run_concat, run_append, run_concat] at h
  obtain ⟨t, ht, -⟩ := Option.bind_eq_some_iff.1 h
  obtain ⟨u, hu, hua⟩ := Option.bind_eq_some_iff.1 ht
  obtain ⟨v, hv, hvu⟩ := Option.bind_eq_some_iff.1 hu
  obtain ⟨w, hw, hwv⟩ := Option.bind_eq_some_iff.1 hv
  obtain ⟨⟨location, hloc⟩, hmsgs⟩ : (∃ l, b.failed = some l) ∧ b.msgs = [] :=
    ⟨Option.isSome_iff_exists.1 hb.1, hb.2⟩
  have hvf : v.filler = .grabbed (some w.brk) none b := by
    obtain ⟨-, hg⟩ := step_grab hwv
    simp only [grab, hmsgs, hloc] at hg
    cases hg
    rfl
  have huf := filler_kept hmid hvf hvu
  refine ⟨pre ++ [.grab b] ++ mid ++ [.append], rest, t, hsplit, ?_, ?_⟩
  · rw [run_concat, run_append, run_concat]
    exact ht
  · have hap : append (some w.brk) none b u = some t := by
      simp only [step, huf] at hua
      exact hua
    exact tail_of_lost hap

/-- **The queue is right in every state of a run exactly when no batch that the run appends is a
failure without messages.** -/
theorem queue_ok_iff {evs : List Ev} {s : State} (h : run evs = some s) :
    (∀ pre post t, evs = pre ++ post → run pre = some t → QueueOk t) ↔
      ∀ b, Appends evs b → ¬(b.failed.isSome = true ∧ b.msgs = []) := by
  refine ⟨?_, ?_⟩
  · intro hq b hA hb
    obtain ⟨pre, post, t, he, ht, hn⟩ := not_queueOk_of_appends h hA hb
    exact hn (hq pre post t he ht)
  · intro hb pre post t he ht
    subst he
    obtain ⟨⟨l, lp, hi⟩, -⟩ := inv_run ht fun b hA => hb b (hA.mono post)
    exact hi.queueOk

/-- A run in which a connection breaks while a message arrives. -/
theorem queue_ok_iff_failure :
    (∀ pre post t, [Ev.grab ⟨some default, [default]⟩, .append, .recv] = pre ++ post →
      run pre = some t → QueueOk t) ↔
    ∀ b, Appends [.grab ⟨some default, [default]⟩, .append, .recv] b →
      ¬(b.failed.isSome = true ∧ b.msgs = []) :=
  queue_ok_iff rfl

/-- A connection breaks while nothing else arrives, and the message of the next batch is lost. -/
theorem queue_loses_batch : ¬∀ evs s, run evs = some s → QueueOk s := by
  have lost : ∃ s, run [.grab ⟨some default, []⟩, .append, .grab ⟨none, [default]⟩, .append, .recv] =
      some s ∧ s.head = none ∧ s.returned = [(cleanupMsg, default)] ∧
      s.appended = [(cleanupMsg, default), default] := ⟨_, rfl, rfl, rfl, rfl⟩
  obtain ⟨s, hs, hh, hr, ha⟩ := lost
  intro h
  obtain ⟨l, hc, hi, -⟩ := h _ s hs
  rw [hh] at hc
  have hl : l = [] := by
    cases l with
    | nil => rfl
    | cons a l => cases hc.1
  rw [hl, hr, ha] at hi
  exact absurd hi (by decide)

end FTBM.Queue
