import Ftb.Tcp.Sock
import Ftb.Manager.Proof.Effect

/-!
# Locations stay covered

A location is covered while it has a connection or a `CLEANUP_CONN` message is on its way. `Kept` says
of a stretch of steps that each location it uncovers has a loss in the record, and every step of the
network layer is such a stretch (`kept_fill`, `kept_sendMsg`, `kept_disconnectPeer`, `kept_connect`).
-/

open FTB FTBU FTBN FTBM.Queue

namespace FTBN.Sock

variable {n n' n'' : Net} {P Q : Loss → Prop}

/-- The loss uncovers the location. -/
def Loss.Hits : Loss → LocationId → Prop
  | .send msg, l => isEqualLocationId msg.dst.locationId l = true
  | .disconnect location, l => isEqualLocationId location l = true
  | .connect parent, l => isEqualLocationId parent l = true
  | .append b, l => ∃ item ∈ b.items, cleans l item = true

theorem cleans_congr {l l' : LocationId} (h : isEqualLocationId l l' = true) (item : Item) :
    cleans l item = cleans l' item := by
  unfold cleans
  rw [KeyEq.congr_right h]

theorem findConnection_congr {l l' : LocationId} (h : isEqualLocationId l l' = true)
    (conns : List LocationId) : findConnection l conns = findConnection l' conns := by
  unfold findConnection
  simp only [KeyEq.congr_right h]

theorem covered_congr {l l' : LocationId} (h : isEqualLocationId l l' = true) (n : Net) :
    n.covered l = n.covered l' := by
  have hc : cleans l = cleans l' := funext (cleans_congr h)
  unfold Net.covered
  rw [findConnection_congr h, hc]

theorem covered_iff {l : LocationId} : n.covered l = true ↔
    findConnection l n.conns = true ∨
      (∃ item ∈ n.line.items, cleans l item = true) ∨ ∃ item ∈ n.filler.items, cleans l item = true := by
  simp only [Net.covered, Bool.or_eq_true, List.any_append, List.any_eq_true]

/-- The losses of a stretch have the property, and what it uncovers has a loss. -/
def Kept (P : Loss → Prop) (n n' : Net) : Prop :=
  ∃ new, n'.losses = n.losses ++ new ∧ (∀ x ∈ new, P x) ∧
    ∀ l, n.covered l = true → n'.covered l = true ∨ ∃ x ∈ new, x.Hits l

namespace Kept

theorem refl (n : Net) : Kept P n n :=
  ⟨[], (List.append_nil _).symm, by simp, fun _ h => .inl h⟩

theorem of_covered (hl : n'.losses = n.losses)
    (h : ∀ l, n.covered l = true → n'.covered l = true) : Kept P n n' :=
  ⟨[], by rw [hl, List.append_nil], by simp, fun l hc => .inl (h l hc)⟩

theorem trans (h : Kept P n n') (h' : Kept P n' n'') : Kept P n n'' := by
  obtain ⟨new, hl, hp, hc⟩ := h
  obtain ⟨new', hl', hp', hc'⟩ := h'
  refine ⟨new ++ new', by rw [hl', hl, List.append_assoc], ?_, fun l hcov => ?_⟩
  · intro x hx
    rcases List.mem_append.1 hx with hx | hx
    · exact hp x hx
    · exact hp' x hx
  · rcases hc l hcov with hcov | ⟨x, hx, hit⟩
    · rcases hc' l hcov with hcov | ⟨x, hx, hit⟩
      · exact .inl hcov
      · exact .inr ⟨x, List.mem_append_right _ hx, hit⟩
    · exact .inr ⟨x, List.mem_append_left _ hx, hit⟩

theorem mono (h : Kept P n n') (hq : ∀ x, P x → Q x) : Kept Q n n' := by
  obtain ⟨new, hl, hp, hc⟩ := h
  exact ⟨new, hl, fun x hx => hq x (hp x hx), hc⟩

/-- A stretch without a new loss keeps every location covered. -/
theorem covered (h : Kept P n n') (hnone : ∀ x ∈ n'.losses.drop n.losses.length, ¬P x) {l : LocationId}
    (hcov : n.covered l = true) : n'.covered l = true := by
  obtain ⟨new, hl, hp, hc⟩ := h
  rw [hl, List.drop_left] at hnone
  rcases hc l hcov with hcov | ⟨x, hx, -⟩
  · exact hcov
  · exact absurd (hp x hx) (hnone x hx)

end Kept

/-- `record` writes down the one loss that it is asked about. -/
theorem kept_record {l : LocationId} {loss : Loss} (hlosses : n'.losses = n.losses)
    (hit : ∀ l', isEqualLocationId l l' = true → loss.Hits l')
    (h : ∀ l', isEqualLocationId l l' = false → n.covered l' = true → n'.covered l' = true) :
    Kept (· = loss) n (n'.record l loss) := by
  have hother : ∀ l', n.covered l' = true → isEqualLocationId l l' = true ∨ n'.covered l' = true := by
    intro l' hcov
    cases he : isEqualLocationId l l' with
    | true => exact .inl rfl
    | false => exact .inr (h l' he hcov)
  unfold Net.record
  split
  · rename_i hc
    refine .of_covered hlosses fun l' hcov => ?_
    rcases hother l' hcov with he | hcov
    · rw [← covered_congr he]
      exact hc
    · exact hcov
  · refine ⟨[loss], by simp only [hlosses], by simp, fun l' hcov => ?_⟩
    rcases hother l' hcov with he | hcov
    · exact .inr ⟨loss, List.mem_singleton_self _, hit l' he⟩
    · exact .inl hcov

/-! ## The thread that fills the message queue -/

/-- A batch that was not linked. -/
def Loss.IsAppend : Loss → Prop
  | .append _ => True
  | _ => False

theorem readAll_covers {l : LocationId} : ∀ {conns : List LocationId} (reads : List Read),
    findConnection l conns = true →
      findConnection l (readAll conns reads).2.2 = true ∨
        ∃ dst, (readAll conns reads).2.1 = some dst ∧ isEqualLocationId dst l = true := by
  intro conns
  induction conns with
  | nil =>
    intro reads h
    cases h
  | cons dst conns ih =>
    intro reads h
    cases reads with
    | nil => exact .inl h
    | cons read reads =>
      simp only [findConnection, List.any_cons, Bool.or_eq_true] at h
      cases read with
      | broken =>
        rcases h with h | h
        · exact .inr ⟨dst, rfl, h⟩
        · exact .inl h
      | _ =>
        simp only [readAll, findConnection, List.any_cons, Bool.or_eq_true]
        rcases h with h | h
        · exact .inl (.inl h)
        · exact (ih reads h).imp_left .inr

theorem mem_batch_items {b : Batch} {item : Item} (h : item ∈ b.msgs) : item ∈ b.items := by
  unfold Batch.items
  split
  · exact List.mem_cons_of_mem _ h
  · exact h

theorem kept_grabMessages {msgs : List Item} {reads : List Read} (hf : n.filler.items = msgs) :
    Kept P n (grabMessages msgs reads n) := by
  refine .of_covered rfl fun l hcov => ?_
  rw [covered_iff] at hcov ⊢
  simp only [grabMessages, Filler.items]
  rcases hcov with h | h | ⟨item, hm, hc⟩
  · rcases readAll_covers reads h with h | ⟨dst, hd, he⟩
    · exact .inl h
    · refine .inr (.inr ⟨(cleanupMsg, dst), ?_, ?_⟩)
      · simp only [Batch.items, hd, List.mem_cons_self]
      · simpa [cleans, cleanupMsg] using he
  · exact .inr (.inl h)
  · rw [hf] at hm
    exact .inr (.inr ⟨item, mem_batch_items (List.mem_append_left _ hm), hc⟩)

theorem Line.mem_append {item : Item} {q : Line} (b : Batch) (h : item ∈ q.items) :
    item ∈ (q.append b).items := by
  unfold Line.append
  split
  · exact List.mem_append_left _ h
  · exact h

theorem kept_append {b : Batch} (hf : n.filler = .grabbed b) :
    Kept Loss.IsAppend n (n.fill .append) := by
  let n₁ : Net := { n with line := n.line.append b, filler := .idle }
  have hfill : n.fill .append =
      if b.items.all fun item => item.1.msgType ≠ .cleanupConn || n₁.covered item.2 then n₁
      else { n₁ with losses := n₁.losses ++ [.append b] } := by
    simp only [Net.fill, hf]
    rfl
  rw [hfill]
  -- what the batch covered, its own messages may uncover
  have hcov : ∀ l, n.covered l = true → n₁.covered l = true ∨
      ∃ item ∈ b.items, cleans l item = true := by
    intro l hcov
    rw [covered_iff] at hcov
    rcases hcov with h | ⟨item, hm, hc⟩ | ⟨item, hm, hc⟩
    · exact .inl (covered_iff.2 (.inl h))
    · exact .inl (covered_iff.2 (.inr (.inl ⟨item, Line.mem_append b hm, hc⟩)))
    · rw [hf] at hm
      exact .inr ⟨item, hm, hc⟩
  split
  · rename_i hall
    refine .of_covered rfl fun l hl => ?_
    rcases hcov l hl with h | ⟨item, hm, hc⟩
    · exact h
    · have hitem := List.all_eq_true.1 hall item hm
      simp only [cleans, Bool.and_eq_true, decide_eq_true_eq] at hc
      simp only [hc.1, ne_eq, not_true_eq_false, decide_false, Bool.false_or] at hitem
      rw [← covered_congr hc.2]
      exact hitem
  · refine ⟨[.append b], rfl, by simp [Loss.IsAppend], fun l hl => ?_⟩
    rcases hcov l hl with h | h
    · exact .inl h
    · exact .inr ⟨.append b, List.mem_singleton_self _, h⟩

/-- A step of the thread that fills the queue uncovers a location only by a batch that is lost. -/
theorem kept_fill (f : Fill) : Kept Loss.IsAppend n (n.fill f) := by
  cases f with
  | accept location msg =>
    cases hf : n.filler with
    | idle =>
      simp only [Net.fill, hf]
      refine .of_covered rfl fun l hcov => ?_
      rw [covered_iff] at hcov ⊢
      simp only [hf, Filler.items, List.not_mem_nil, false_and, exists_false, or_false] at hcov
      rcases hcov with h | h
      · left
        simp only [findConnection, List.any_cons] at h ⊢
        rw [h, Bool.or_true]
      · exact .inr (.inl h)
    | _ =>
      simp only [Net.fill, hf]
      exact .refl n
  | read reads =>
    cases hf : n.filler with
    | idle =>
      simp only [Net.fill, hf]
      exact kept_grabMessages (by rw [hf]; rfl)
    | accepted item =>
      simp only [Net.fill, hf]
      exact kept_grabMessages (by rw [hf]; rfl)
    | grabbed b =>
      simp only [Net.fill, hf]
      exact .refl n
  | append =>
    cases hf : n.filler with
    | grabbed b => exact kept_append hf
    | _ =>
      simp only [Net.fill, hf]
      exact .refl n

theorem kept_fills (fills : List Fill) : ∀ n : Net, Kept Loss.IsAppend n (fills.foldl Net.fill n) := by
  induction fills with
  | nil => exact .refl
  | cons f fills ih => exact fun n => (kept_fill f).trans (ih _)

theorem kept_meet (n : Net) : Kept Loss.IsAppend n n.meet.2 := by
  unfold Net.meet
  split
  · exact .refl n
  · rename_i slot slots _
    exact (Kept.of_covered rfl fun _ h => h).trans (kept_fills slot.fills { n with slots })

/-! ## The calls of the progress thread -/

/-- Only the location that is dropped loses a connection. -/
theorem covered_drop {l l' : LocationId} (hne : isEqualLocationId l l' = false)
    (h : n.covered l' = true) : (n.drop l).covered l' = true := by
  rw [covered_iff] at h ⊢
  refine h.imp_left fun h => ?_
  simp only [findConnection, Net.drop, List.any_eq_true] at h ⊢
  obtain ⟨dst, hm, he⟩ := h
  refine ⟨dst, (List.mem_eraseP_of_neg ?_).2 hm, he⟩
  rw [KeyEq.comm isEqualLocationId, KeyEq.congr_right he, hne]
  exact Bool.false_ne_true

theorem kept_dropped (n : Net) (l : LocationId) (loss : Loss)
    (hit : ∀ l', isEqualLocationId l l' = true → loss.Hits l') :
    Kept (· = loss) n ((n.drop l).record l loss) :=
  kept_record rfl hit fun _ hne h => covered_drop hne h

/-- A send that succeeds uncovers nothing by itself; one that fails has its message as the loss. -/
theorem kept_sendMsg (msg : Msg) (n : Net) :
    Kept (fun x => x.IsAppend ∨ x = .send msg) n (sendMsg msg n).2 ∧
      ((sendMsg msg n).1 = .success → Kept Loss.IsAppend n (sendMsg msg n).2) := by
  have hmeet := kept_meet n
  simp only [sendMsg]
  split
  · exact ⟨hmeet.mono fun _ => .inl, fun _ => hmeet⟩
  · split
    · exact ⟨hmeet.mono fun _ => .inl, fun _ => hmeet⟩
    · refine ⟨(hmeet.mono fun _ => .inl).trans ?_, nofun⟩
      exact (kept_dropped _ _ (.send msg) fun _ he => he).mono fun _ => .inr

theorem kept_disconnectPeer (location : LocationId) (n : Net) :
    Kept (fun x => x.IsAppend ∨ x = .disconnect location) n (disconnectPeer location n).2 := by
  have hmeet := kept_meet n
  simp only [disconnectPeer]
  split
  · exact hmeet.mono fun _ => .inl
  · refine (hmeet.mono fun _ => .inl).trans ?_
    exact (kept_dropped _ _ (.disconnect location) fun _ he => he).mono fun _ => .inr

/-- The parent that `FTBN_Connect` leaves is covered, or it is the loss. -/
theorem kept_connect (msg : Msg) (parent : LocationId) (n : Net) :
    let r := connect msg parent n
    Kept (fun x => x.IsAppend ∨ x = .connect r.2.1) n r.2.2 ∧
      (r.2.1.pid = 0 ∨ r.2.2.covered r.2.1 = true ∨
        .connect r.2.1 ∈ r.2.2.losses.drop n.losses.length) := by
  obtain ⟨new, hlosses, hnew, hcov⟩ := kept_meet n
  have hmeet : ∀ parent, Kept (fun x => x.IsAppend ∨ x = .connect parent) n n.meet.2 := fun _ =>
    ⟨new, hlosses, fun x hx => .inl (hnew x hx), hcov⟩
  simp only [connect]
  split
  · rename_i parent' _
    refine ⟨(hmeet parent').trans (.of_covered rfl fun l h => ?_), .inr (.inl ?_)⟩
    · rw [covered_iff] at h ⊢
      refine h.imp_left fun h => ?_
      simp only [findConnection, List.any_cons, Bool.or_eq_true] at h ⊢
      exact .inr h
    · rw [covered_iff]
      left
      simp only [findConnection, List.any_cons, KeyEq.refl, Bool.true_or]
  · exact ⟨hmeet _, .inl rfl⟩
  · exact ⟨hmeet _, .inl rfl⟩
  · split
    · rename_i hp
      exact ⟨hmeet _, .inl (by simpa using hp)⟩
    · refine ⟨(hmeet parent).trans ?_, .inr ?_⟩
      · have hit : ∀ l', isEqualLocationId parent l' = true → (Loss.connect parent).Hits l' :=
          fun _ he => he
        exact (kept_record rfl hit fun _ _ h => h).mono fun x hx => .inr hx
      · unfold Net.record
        split
        · rename_i hc
          exact .inl hc
        · right
          simp only [hlosses, List.append_assoc, List.drop_left]
          simp

/-- Sends whose results nobody looks at. -/
theorem kept_sendAll (msgs : List Msg) : ∀ n : Net,
    Kept (fun x => x.IsAppend ∨ ∃ msg ∈ msgs, x = .send msg) n (sock.sendAll msgs n) := by
  induction msgs with
  | nil => exact .refl
  | cons msg msgs ih =>
    intro n
    refine Kept.trans ?_ ((ih _).mono fun x hx => hx.imp_right fun ⟨m, hm, he⟩ =>
      ⟨m, List.mem_cons_of_mem _ hm, he⟩)
    exact (kept_sendMsg msg n).1.mono fun x hx => hx.imp_right fun he =>
      ⟨msg, List.mem_cons_self, he⟩

theorem kept_traffic (h : FTBM.Traffic sock n n') : Kept (fun _ => True) n n' := by
  induction h with
  | refl => exact .refl n
  | send msg _ ih => exact ih.trans ((kept_sendMsg msg _).1.mono fun _ _ => trivial)
  | disconnect location _ ih => exact ih.trans ((kept_disconnectPeer location _).mono fun _ _ => trivial)

end FTBN.Sock
