import Ftb.Manager.Proof.Queue

/-!
# The message queue as a list

What two threads make of the linked list of `FTBM_msg_node_t`, without its pointers: the messages that
are reachable from `message_queue_head`, and whether `message_queue_tail` is the last of them. Where it
is not, the next batch is lost. `view_run` says that the linked list of `Queue.run` behaves so.
-/

open FTB Chain

namespace FTBM.Queue

/-- The messages from `message_queue_head` on, and whether the tail is the last of them. -/
structure Line where
  items : List Item
  linked : Bool
  deriving DecidableEq, Repr

namespace Line

def empty : Line := ⟨[], true⟩

/-- The section of `FTBM_Fill_message_queue` under the mutex. -/
def append (b : Batch) (q : Line) : Line :=
  if q.linked then { items := q.items ++ b.items, linked := !decide b.Lost } else q

/-- What `FTBM_Recv` takes. -/
def take (q : Line) : Option (Item × Line) :=
  match q.items with
  | [] => none
  | item :: items => some (item, { items, linked := q.linked || items.isEmpty })

end Line

/-- The queue, the batch that the filler holds, and what `FTBM_Recv` returned. -/
structure View where
  line : Line
  grabbed : Option Batch
  returned : List Item
  deriving DecidableEq, Repr

namespace View

def init : View := ⟨.empty, none, []⟩

def step (v : View) : Ev → View
  | .grab b => { v with grabbed := some b }
  | .append =>
    match v.grabbed with
    | none => v
    | some b => { v with line := v.line.append b, grabbed := none }
  | .recv | .wake =>
    match v.line.take with
    | none => v
    | some (item, line) => { v with line, returned := v.returned ++ [item] }

def run (evs : List Ev) : View := evs.foldl step init

end View

/-- The batch of the filler. -/
def Filler.batch : Filler → Option Batch
  | .idle => none
  | .grabbed _ _ b => some b

/-- The linked list, with the nodes `l` in it, is what the view says. -/
structure Shows (s : State) (v : View) (l lp : List (Nat × Node)) : Prop where
  chained : Chained s l lp
  items : l.map (·.2.item) = v.line.items
  grabbed : s.filler.batch = v.grabbed
  returned : s.returned = v.returned
  linked : v.line.linked = true → s.tail = lastAddr l
  lost : v.line.linked = false → l ≠ [] ∧ ∀ t, s.tail = some t → t ∉ l.map Prod.fst

namespace Shows

variable {s s' : State} {v : View} {l lp : List (Nat × Node)}

theorem init : Shows State.init View.init [] [] :=
  ⟨inv_init.chained, rfl, rfl, rfl, fun _ => rfl, nofun⟩

theorem grab (h : Shows s v l lp) {b : Batch} (hf : s.filler = .idle) (hs : Queue.grab b s = some s') :
    ∃ lp', Shows s' (v.step (.grab b)) l lp' := by
  obtain ⟨t, lp', ht, hsame, hc, head, tail, hft⟩ := h.chained.grab hf b
  obtain rfl : t = s' := Option.some.inj (ht.symm.trans hs)
  refine ⟨lp', hc, h.items, ?_, hsame.returned.trans h.returned, ?_, ?_⟩
  · rw [hft]
    rfl
  · exact fun hl => hsame.tail.trans (h.linked hl)
  · intro hl
    rw [hsame.tail]
    exact h.lost hl

theorem append (h : Shows s v l lp) {head tail : Option Nat} {b : Batch}
    (hf : s.filler = .grabbed head tail b) (hs : Queue.append head tail b s = some s') :
    ∃ l', Shows s' (v.step .append) l' [] := by
  have hg : v.grabbed = some b := by rw [← h.grabbed, hf]; rfl
  simp only [View.step, hg, Line.append]
  cases hl : v.line.linked with
  | true =>
    obtain ⟨t, l', ht, hc, hft, hi, htail, hr, -⟩ := h.chained.append (h.linked hl) hf
    obtain rfl : t = s' := Option.some.inj (ht.symm.trans hs)
    refine ⟨l', hc, ?_, ?_, hr.trans h.returned, ?_, ?_⟩
    · rw [hi, h.items]
      rfl
    · rw [hft]
      rfl
    · intro hb
      rw [htail, if_neg]
      simpa using hb
    · intro hb
      have hb : b.Lost := by simpa using hb
      rw [htail, if_pos hb]
      refine ⟨?_, nofun⟩
      -- a failing batch has its `CLEANUP_CONN` message
      rintro rfl
      obtain ⟨location, hloc⟩ := Option.isSome_iff_exists.1 hb.1
      simp [Batch.items, hloc] at hi
  | false =>
    obtain ⟨hne, htail⟩ := h.lost hl
    have hr : s'.returned = s.returned := by
      unfold Queue.append at hs
      simp only at hs
      split at hs
      · cases hs; rfl
      · split at hs
        · cases hs; rfl
        · split at hs
          · cases hs
          · rename_i s₂ hset
            cases hs
            simp only [State.setNext] at hset
            split at hset
            · cases hset
            · cases hset; rfl
    obtain ⟨hc, hft, htail'⟩ := h.chained.lose hne htail hf hs
    refine ⟨l, hc, h.items, ?_, hr.trans h.returned, ?_, fun _ => ⟨hne, htail'⟩⟩
    · rw [hft]
      rfl
    · intro hb
      rw [show v.line.linked = true from hb] at hl
      cases hl

theorem take (h : Shows s v l lp) (hs : Queue.take s = some s') :
    ∃ l', Shows s' (v.step .recv) l' lp := by
  cases l with
  | nil =>
    obtain rfl := Option.some.inj (h.chained.take_nil.symm.trans hs)
    have hv : v.step .recv = v := by
      have hi : v.line.items = [] := h.items.symm
      simp only [View.step, Line.take, hi]
    rw [hv]
    have hp := h.chained.pool
    exact ⟨[], ⟨⟨hp.queue, hp.fresh, hp.nodup⟩, h.chained.filler⟩, h.items, h.grabbed, h.returned,
      h.linked, h.lost⟩
  | cons a l =>
    obtain ⟨t, ht, hc, hft, htail, hr, -⟩ := h.chained.take_cons
    obtain rfl : t = s' := Option.some.inj (ht.symm.trans hs)
    have hi : v.line.items = a.2.item :: l.map (·.2.item) := h.items.symm
    simp only [View.step, Line.take, hi]
    refine ⟨l, hc, rfl, ?_, ?_, ?_, ?_⟩
    · rw [hft]
      exact h.grabbed
    · rw [hr, h.returned]
    · intro hl
      rw [htail]
      split
      · rename_i hn
        rw [hn]
        rfl
      · rename_i hn
        simp only [List.isEmpty_map, Bool.or_eq_true, List.isEmpty_iff, hn, or_false] at hl
        rw [h.linked hl]
        exact lastAddr_cons a hn
    · intro hl
      simp only [List.isEmpty_map, Bool.or_eq_false_iff, List.isEmpty_eq_false_iff] at hl
      refine ⟨hl.2, fun t ht => ?_⟩
      rw [htail, if_neg hl.2] at ht
      exact fun hm => (h.lost hl.1).2 t ht (List.mem_cons_of_mem _ hm)

theorem step (h : Shows s v l lp) {e : Ev} (hs : Queue.step s e = some s') :
    ∃ l' lp', Shows s' (v.step e) l' lp' := by
  unfold Queue.step at hs
  split at hs
  · rename_i hf
    obtain ⟨lp', h'⟩ := h.grab hf hs
    exact ⟨l, lp', h'⟩
  · rename_i hf
    obtain ⟨l', h'⟩ := h.append hf hs
    exact ⟨l', [], h'⟩
  · split at hs
    · rename_i hh
      cases hs
      have hv : v.step .recv = v := by
        have hl : l = [] := by
          have hq := h.chained.pool.queue
          rw [hh] at hq
          cases l with
          | nil => rfl
          | cons a l => cases hq.1
        have hi : v.line.items = [] := by rw [← h.items, hl]; rfl
        simp only [View.step, Line.take, hi]
      rw [hv]
      have hp := h.chained.pool
      exact ⟨l, lp, ⟨⟨hp.queue, hp.fresh, hp.nodup⟩, h.chained.filler⟩, h.items, h.grabbed, h.returned,
        h.linked, h.lost⟩
    · obtain ⟨l', h'⟩ := h.take hs
      exact ⟨l', lp, h'⟩
  · obtain ⟨l', h'⟩ := h.take hs
    exact ⟨l', lp, h'⟩
  · cases hs

end Shows

/-- **In every run the linked list holds, and `FTBM_Recv` returned, what the list says.** -/
theorem view_run {evs : List Ev} {s : State} (h : run evs = some s) :
    ∃ l, IsChain Node.next s.mem s.head l ∧ l.map (·.2.item) = (View.run evs).line.items ∧
      s.filler.batch = (View.run evs).grabbed ∧ s.returned = (View.run evs).returned := by
  have hshows : ∃ l lp, Shows s (View.run evs) l lp := by
    induction evs using List.reverseRecOn generalizing s with
    | nil =>
      cases h
      exact ⟨[], [], .init⟩
    | append_singleton evs e ih =>
      rw [run_concat] at h
      obtain ⟨t, ht, hs⟩ := Option.bind_eq_some_iff.1 h
      obtain ⟨l, lp, hl⟩ := ih ht
      rw [View.run, List.foldl_append]
      exact hl.step hs
  obtain ⟨l, lp, hl⟩ := hshows
  exact ⟨l, hl.chained.pool.queue, hl.items, hl.grabbed, hl.returned⟩

end FTBM.Queue
