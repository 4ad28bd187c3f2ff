import Ftb.Client.Polling
import Ftb.Lib.Trace

/-!
# Who owns a received event

Runs of a client with its component thread (`Act`). The claim on them is that a node leaves the callback
queue once, and as it should, that it is released once and not while a queue holds it (`Orderly`), and
that nothing is lost (`Owned`).

* An event that a callback mask matches is put into a second node with a second entry, and the first
  pair is lost.
* The hand-over to the polling queue releases the node after it pushed it, so the queue of a polling
  client holds memory that is released; a client that does not poll releases it twice.

These are the only defects: `event_ownership`.
-/

open FTB FTBU

namespace FTBCI

/-! ## Runs -/

/-- A section under the lock, or a step of the component thread. -/
inductive Act
  | turn (t : NodeClient.Turn)
  | pick
  | finish
  | move

namespace Act

def run : Act → NodeClient → Option NodeClient
  | .turn t, c => t.run c
  | .pick, c => some c.pick
  | .finish, c => some c.finish
  | .move, c => some c.move

/-- An event arrives that a callback mask matches. -/
def Matched (act : Act) (c : NodeClient) : Prop :=
  ∃ incoming : Incoming, act = .turn (.message incoming) ∧ c.matched incoming.entry = true

/-- The thread hands an event over, for which it found no mask. -/
def HandsOver (act : Act) (c : NodeClient) : Prop :=
  act = .move ∧ ∃ node entry entries, c.thread = .moving node entry entries

instance (act : Act) (c : NodeClient) : Decidable (act.Matched c) :=
  match act with
  | .turn (.message incoming) =>
    decidable_of_iff (c.matched incoming.entry = true)
      ⟨fun h => ⟨incoming, rfl, h⟩, fun ⟨_, h, hm⟩ => (by cases h; exact hm)⟩
  | .turn (.look _ _) | .turn (.subscribe _) | .turn (.unsubscribe _) | .pick | .finish | .move =>
    isFalse fun ⟨_, h, _⟩ => (by cases h)

instance (act : Act) (c : NodeClient) : Decidable (act.HandsOver c) :=
  match act with
  | .move =>
    match h : c.thread with
    | .moving node entry entries => isTrue ⟨rfl, node, entry, entries, h⟩
    | .idle | .calling _ _ _ => isFalse fun ⟨_, _, _, _, hm⟩ => (by rw [h] at hm; cases hm)
  | .turn _ | .pick | .finish => isFalse fun hm => (by cases hm.1)

/-- A run does not stop: what is in memory can be copied to the receiver. -/
theorem run_fits {c : NodeClient} (h : ∀ addr, Fits (c.mem.insts addr)) (act : Act) :
    ∃ c', act.run c = some c' ∧ ∀ addr, Fits (c'.mem.insts addr) := by
  have hpush : ∀ n (d : NodeClient), (∀ addr, Fits (d.mem.insts addr)) →
      ∀ addr, Fits ((d.pushToCompPollingList n).mem.insts addr) := by
    intro n d hd
    rw [(NodeClient.same_push n d).insts]
    exact hd
  cases act with
  | turn t =>
    cases t with
    | message incoming =>
      have hnew := NodeMem.fits_newNode h incoming.fits
      refine ⟨_, rfl, ?_⟩
      by_cases hm : c.matched incoming.entry = true
      · have hm' : ({ c with mem := (c.mem.newNode incoming.entry).2 } : NodeClient).matched
            incoming.entry = true := hm
        simp only [NodeClient.handleMsg, if_pos hm']
        exact NodeMem.fits_newNode hnew incoming.fits
      · rw [Kept.handleMsg_other (Bool.eq_false_iff.2 hm)]
        exact hpush _ _ hnew
    | look mask bytes =>
      simp only [Act.run, NodeClient.Turn.run, NodeClient.look]
      split
      · split
        · exact ⟨c, rfl, h⟩
        · rename_i current _
          obtain ⟨r, hr⟩ := Kept.receiveEvent_of_fits (h (c.mem.data current)) bytes
          have hr' : receiveEvent (c.mem.inst current) bytes = some r := hr
          exact ⟨c.takeOut current, by rw [hr']; rfl, h⟩
      · exact ⟨c, rfl, h⟩
    | subscribe x => exact ⟨_, rfl, h⟩
    | unsubscribe event => exact ⟨_, rfl, h⟩
  | pick =>
    refine ⟨_, rfl, ?_⟩
    unfold NodeClient.pick
    split
    · dsimp only
      split
      · exact h
      · split <;> exact h
    · exact h
  | finish =>
    refine ⟨_, rfl, ?_⟩
    unfold NodeClient.finish
    split <;> exact h
  | move =>
    refine ⟨_, rfl, ?_⟩
    unfold NodeClient.move
    split
    · exact hpush _ _ h
    · exact h

theorem runs (acts : List Act) : ∀ {c : NodeClient}, (∀ addr, Fits (c.mem.insts addr)) →
    ∃ c', acts.foldlM (fun c act => act.run c) c = some c' := by
  induction acts with
  | nil => exact fun {c} _ => ⟨c, rfl⟩
  | cons act acts ih =>
    intro c h
    obtain ⟨d, hrun, hd⟩ := run_fits h act
    obtain ⟨c', hrest⟩ := ih hd
    refine ⟨c', ?_⟩
    rw [List.foldlM_cons, hrun]
    exact hrest

end Act

/-! ## What is claimed -/

/-- The node left after its callback, or no mask matched its event and it went to the polling queue of
a polling client, or was released. -/
inductive LeftWell (c : NodeClient) (d : Departure) : Prop
  | ran (x : CallbackEntry) : d.exit = .ran x → matchMask d.inst.eventInst x.mask = true →
      LeftWell c d
  | polling (entries : List CallbackEntry) : d.exit = .moved entries →
      (∀ x ∈ entries, matchMask d.inst.eventInst x.mask = false) → c.polls = true →
      d.node ∈ arrivedNodes c.events → LeftWell c d
  | discarded (entries : List CallbackEntry) : d.exit = .moved entries →
      (∀ x ∈ entries, matchMask d.inst.eventInst x.mask = false) → c.polls = false →
      d.node ∈ c.mem.released → LeftWell c d

/-- `ps` is the polling queue and `cs` the callback queue. -/
structure Disciplined (c : NodeClient) (ps cs : List Nat) : Prop where
  polling : c.mem.links.IsRing c.eventQueue ps
  calling : c.mem.links.IsRing c.callbackEventQueue cs
  queued : c.queued = c.left.map Departure.node ++ cs
  once : c.queued.Nodup
  exits : ∀ d ∈ c.left, LeftWell c d
  released : c.mem.released.Nodup
  linked : ∀ n ∈ ps ++ cs, n ∉ c.mem.released ∧ c.mem.data n ∉ c.mem.released

/-- Whatever was allocated for an event is in a queue or released. -/
def Accounted (c : NodeClient) (ps cs : List Nat) : Prop :=
  ∀ a < c.mem.nextAddr, a ≠ c.eventQueue → a ≠ c.callbackEventQueue →
    a ∈ c.mem.cells (ps ++ cs) ∨ a ∈ c.mem.released

def Orderly (c : NodeClient) : Prop := ∃ ps cs, Disciplined c ps cs

def Owned (c : NodeClient) : Prop := ∃ ps cs, Disciplined c ps cs ∧ Accounted c ps cs

/-! ## The invariant -/

/-- What the component thread has in its hands is the first node of its queue. -/
inductive InHands (c : NodeClient) (cs : List Nat) : Prop
  | idle : c.thread = .idle → InHands c cs
  | calling (node : Nat) (x : CallbackEntry) : c.thread = .calling node (c.mem.data node) x →
      cs.head? = some node → matchMask (c.mem.inst node).eventInst x.mask = true → InHands c cs
  | moving (node : Nat) (entries : List CallbackEntry) :
      c.thread = .moving node (c.mem.data node) entries → cs.head? = some node → InHands c cs

structure Owning (c : NodeClient) (ps cs hs : List Nat) : Prop where
  kept : Kept c ps cs hs
  queued : c.queued = c.left.map Departure.node ++ cs
  known : ∀ n ∈ c.queued, n < c.mem.nextAddr
  once : c.queued.Nodup
  exits : ∀ d ∈ c.left, ∃ x, d.exit = .ran x ∧ matchMask d.inst.eventInst x.mask = true
  thread : InHands c cs

namespace Owning

variable {c : NodeClient} {ps cs hs : List Nat}

theorem disciplined (h : Owning c ps cs hs) : Disciplined c ps cs where
  polling := h.kept.owns.polling
  calling := h.kept.owns.calling
  queued := h.queued
  once := h.once
  exits d hd := by
    obtain ⟨x, hexit, hm⟩ := h.exits d hd
    exact .ran x hexit hm
  released := h.kept.owns.released_nodup
  linked _ hn := h.kept.owns.not_released hn

theorem owned (h : Owning c ps cs []) : Owned c :=
  ⟨ps, cs, h.disciplined, fun _ ha hp hk => h.kept.owns.mem_or_released ha hp hk⟩


end Owning

/-- The thread keeps its node while others change the queues behind it. -/
theorem InHands.frame {c c' : NodeClient} {cs cs' : List Nat} (h : InHands c cs)
    (hthread : c'.thread = c.thread) (hhead : ∀ n, cs.head? = some n → cs'.head? = some n)
    (hsame : ∀ n ∈ cs, c'.mem.data n = c.mem.data n ∧ c'.mem.inst n = c.mem.inst n) :
    InHands c' cs' := by
  cases h with
  | idle hidle => exact .idle (hthread.trans hidle)
  | calling node x hcall hn hm =>
    obtain ⟨hdata, hinst⟩ := hsame node (List.mem_of_mem_head? hn)
    refine .calling node x ?_ (hhead node hn) (by rw [hinst]; exact hm)
    rw [hthread, hcall, hdata]
  | moving node entries hmove hn =>
    obtain ⟨hdata, -⟩ := hsame node (List.mem_of_mem_head? hn)
    refine .moving node entries ?_ (hhead node hn)
    rw [hthread, hmove, hdata]

namespace Owning

variable {c : NodeClient} {ps cs hs : List Nat}

/-- A new node does not change those of the callback queue. -/
theorem same_newNode (h : Kept c ps cs hs) (e : EventInst) : ∀ n ∈ cs,
    (c.mem.newNode e).2.data n = c.mem.data n ∧ (c.mem.newNode e).2.inst n = c.mem.inst n := by
  intro n hn
  have hmem : n ∈ ps ++ cs ++ hs := List.mem_append_left _ (List.mem_append_right _ hn)
  obtain ⟨hnode, hentry⟩ := Owns.mem_all (m := c.mem) (p := c.eventQueue)
    (k := c.callbackEventQueue) hmem
  exact NodeMem.inst_newNode e (h.owns.lt_nextAddr hnode) (h.owns.lt_nextAddr hentry)

theorem message_other (h : Owning c ps cs hs) {e : EventInst} (he : Fits e)
    (hm : c.matched e = false) : ∃ ps', Owning (c.handleMsg e) ps' cs hs := by
  rw [Kept.handleMsg_other hm]
  have hsame := NodeClient.same_push c.mem.nextAddr { c with mem := (c.mem.newNode e).2 }
  obtain ⟨ps', hkept⟩ := (h.kept.newNode he).push_any
  refine ⟨ps', hkept, ?_, ?_, ?_, ?_, ?_⟩
  · rw [hsame.queued, hsame.left]
    exact h.queued
  · rw [hsame.queued, hsame.nextAddr]
    exact fun n hn => Nat.lt_add_right 2 (h.known n hn)
  · rw [hsame.queued]
    exact h.once
  · rw [hsame.left]
    exact h.exits
  · refine h.thread.frame hsame.thread (fun _ hn => hn) fun n hn => ?_
    have hnew := same_newNode h.kept e n hn
    rw [NodeMem.inst, hsame.data, hsame.insts]
    exact hnew

theorem message_matched (h : Owning c ps cs hs) {e : EventInst} (he : Fits e)
    (hm : c.matched e = true) :
    Owning (c.handleMsg e) ps (cs ++ [c.mem.nextAddr + 2]) (c.mem.nextAddr :: hs) := by
  obtain ⟨hkept, hmsg⟩ := h.kept.handleMsg_matched he hm
  have hnew : c.mem.nextAddr + 2 ∉ c.queued := fun hn => by
    have hlt := h.known _ hn
    omega
  rw [hmsg] at hkept ⊢
  refine ⟨hkept, ?_, ?_, ?_, h.exits, ?_⟩
  · show c.queued ++ [c.mem.nextAddr + 2] = _
    rw [h.queued, List.append_assoc]
  · intro n hn
    show n < c.mem.nextAddr + 2 + 2
    rcases List.mem_append.1 hn with hn | hn
    · have hlt := h.known n hn
      omega
    · rw [List.mem_singleton.1 hn]
      omega
  · show (c.queued ++ [c.mem.nextAddr + 2]).Nodup
    exact h.once.append (List.nodup_singleton _) (List.disjoint_singleton.2 hnew)
  · refine h.thread.frame rfl (fun n hn => ?_) fun n hn => ?_
    · rw [List.head?_append, hn]
      rfl
    · obtain ⟨hdata, hinst⟩ := same_newNode h.kept e n hn
      obtain ⟨hdata', hinst'⟩ := same_newNode (h.kept.newNode he) e n hn
      exact ⟨hdata'.trans hdata, hinst'.trans hinst⟩

theorem newMap (h : Owning c ps cs hs) (map : Option CallbackMap) :
    Owning { c with callbackMap := map } ps cs hs :=
  ⟨h.kept.newMap map, h.queued, h.known, h.once, h.exits,
    h.thread.frame rfl (fun _ hn => hn) fun _ _ => ⟨rfl, rfl⟩⟩

theorem look (h : Owning c ps cs hs) (mask : Event) (bytes : Cell.Mem Field) :
    ∃ r c' ps', c.look mask bytes = some (r, c') ∧ Owning c' ps' cs hs := by
  rcases h.kept.look mask bytes with ⟨-, hlook⟩ | ⟨n, r, hf, -, hlook⟩
  · exact ⟨none, c, ps, hlook, h⟩
  · have hkept := h.kept.takeOut (List.mem_of_find?_eq_some hf)
    exact ⟨some r, c.takeOut n, ps.erase n, hlook, hkept, h.queued, h.known, h.once, h.exits,
      h.thread.frame rfl (fun _ hn => hn) fun _ _ => ⟨rfl, rfl⟩⟩

/-- A section under the lock. Unless a mask matches a new event, it leaves the callback queue alone and
nothing in the hands of the code. -/
theorem turn (h : Owning c ps cs hs) (t : NodeClient.Turn) :
    ∃ c' ps' cs' hs', t.run c = some c' ∧ Owning c' ps' cs' hs' ∧
      (¬(Act.turn t).Matched c → cs' = cs ∧ hs' = hs) := by
  cases t with
  | message incoming =>
    by_cases hm : c.matched incoming.entry = true
    · refine ⟨_, _, _, _, rfl, h.message_matched incoming.fits hm, fun hno => ?_⟩
      exact absurd ⟨incoming, rfl, hm⟩ hno
    · obtain ⟨ps', hown⟩ := h.message_other incoming.fits (Bool.eq_false_iff.2 hm)
      exact ⟨_, ps', cs, hs, rfl, hown, fun _ => ⟨rfl, rfl⟩⟩
  | look mask bytes =>
    obtain ⟨r, c', ps', hlook, hown⟩ := h.look mask bytes
    refine ⟨c', ps', cs, hs, ?_, hown, fun _ => ⟨rfl, rfl⟩⟩
    rw [NodeClient.Turn.run, hlook]
    rfl
  | subscribe x => exact ⟨_, ps, cs, hs, rfl, h.newMap _, fun _ => ⟨rfl, rfl⟩⟩
  | unsubscribe event => exact ⟨_, ps, cs, hs, rfl, h.newMap _, fun _ => ⟨rfl, rfl⟩⟩

/-- The thread takes the first node of its queue. -/
theorem pick (h : Owning c ps cs hs) : Owning c.pick ps cs hs := by
  have hkeep : ∀ thread, InHands { c with thread := thread } cs →
      Owning { c with thread := thread } ps cs hs := fun thread ht =>
    ⟨⟨h.kept.owns, h.kept.size, h.kept.room, h.kept.empty, h.kept.fits⟩, h.queued, h.known, h.once,
      h.exits, ht⟩
  have hnext := h.kept.owns.calling.next_head
  unfold NodeClient.pick
  split
  · by_cases hempty : c.mem.links.next c.callbackEventQueue = c.callbackEventQueue
    · rw [if_pos hempty]
      exact h
    · have hhead : cs.head? = some (c.mem.links.next c.callbackEventQueue) := by
        cases cs with
        | nil => exact absurd hnext hempty
        | cons n cs =>
          rw [hnext]
          rfl
      rw [if_neg hempty]
      dsimp only
      split
      · rename_i x hx
        have hm := List.find?_some hx
        exact hkeep _ (.calling _ x rfl hhead hm)
      · exact hkeep _ (.moving _ _ rfl hhead)
  · exact h

/-- The node is released after its callback. -/
theorem finish (h : Owning c ps cs hs) :
    ∃ cs', Owning c.finish ps cs' hs ∧ cs'.Sublist cs := by
  cases h.thread with
  | idle hidle =>
    refine ⟨cs, ?_, .refl cs⟩
    simp only [NodeClient.finish, hidle]
    exact h
  | moving node entries hmove hn =>
    refine ⟨cs, ?_, .refl cs⟩
    simp only [NodeClient.finish, hmove]
    exact h
  | calling node x hcall hn hm =>
    obtain ⟨cs', rfl⟩ := List.head?_eq_some_iff.1 hn
    have howns := (h.kept.owns.swap.removeNode (n := node) List.mem_cons_self).swap
    rw [List.erase_cons_head] at howns
    refine ⟨cs', ?_, List.sublist_cons_self node cs'⟩
    simp only [NodeClient.finish, hcall]
    refine ⟨⟨howns.free, h.kept.size, h.kept.room, h.kept.empty, h.kept.fits⟩, ?_, h.known, h.once,
      ?_, .idle rfl⟩
    · show c.queued = (c.left ++ [_]).map Departure.node ++ cs'
      rw [h.queued, List.map_append, List.append_assoc]
      rfl
    · intro d hd
      rcases List.mem_append.1 hd with hd | hd
      · exact h.exits d hd
      · rw [List.mem_singleton.1 hd]
        exact ⟨x, rfl, hm⟩

/-- A thread that has nothing to hand over does nothing. -/
theorem move_other (h : ¬Act.move.HandsOver c) : c.move = c := by
  unfold NodeClient.move
  split
  · rename_i node entry entries hmove
    exact absurd ⟨rfl, node, entry, entries, hmove⟩ h
  · rfl

/-! ## What goes wrong -/

/-- A node in the hands of the code is lost. -/
theorem not_owned {n : Nat} (h : Owning c ps cs (n :: hs)) : ¬Owned c := by
  intro howned
  obtain ⟨ps', cs', hdisc, hall⟩ := howned
  obtain rfl := hdisc.polling.unique h.kept.owns.polling
  obtain rfl := hdisc.calling.unique h.kept.owns.calling
  have hcells : n ∈ c.mem.cells (n :: hs) := List.mem_cons_self
  have hnd := h.kept.owns.nodup
  rw [NodeMem.cells_append, List.append_assoc, List.append_assoc] at hnd
  obtain ⟨-, hrest, hheads⟩ := List.nodup_append.1 hnd
  obtain ⟨-, hheld, hlinked⟩ := List.nodup_append.1 hrest
  obtain ⟨-, -, hreleased⟩ := List.nodup_append.1 hheld
  have hlt : n < c.mem.nextAddr := by
    refine h.kept.owns.lt_nextAddr (Owns.mem_all ?_).1
    exact List.mem_append_right _ List.mem_cons_self
  have hn : n ∈ c.mem.cells (ps' ++ cs') ++ (c.mem.cells (n :: hs) ++ c.mem.released) :=
    List.mem_append_right _ (List.mem_append_left _ hcells)
  have hp : n ≠ c.eventQueue := fun he => hheads c.eventQueue (by simp) n hn he.symm
  have hk : n ≠ c.callbackEventQueue := fun he => hheads c.callbackEventQueue (by simp) n hn he.symm
  rcases hall n hlt hp hk with hc | hr
  · exact hlinked n hc n (List.mem_append_left _ hcells) rfl
  · exact hreleased n hcells n hr rfl

/-- A hand-over releases a node of the polling queue, or one that is released already. -/
theorem not_orderly_move (h : Owning c ps cs hs) (hmove : Act.move.HandsOver c) :
    ¬Orderly c.move := by
  intro horderly
  obtain ⟨-, node, entry, entries, hthread⟩ := hmove
  obtain ⟨cs', rfl, rfl⟩ : ∃ cs', cs = node :: cs' ∧ entry = c.mem.data node := by
    cases h.thread with
    | idle hidle => exact absurd (hidle.symm.trans hthread) (by simp)
    | calling _ _ hcall => exact absurd (hcall.symm.trans hthread) (by simp)
    | moving node' entries' hmove hn =>
      cases hmove.symm.trans hthread
      obtain ⟨cs', rfl⟩ := List.head?_eq_some_iff.1 hn
      exact ⟨cs', rfl, rfl⟩
  -- the client with the node in the hands of the thread
  let d : NodeClient :=
    { c with
      mem := c.mem.relink (Links.removeNode node)
      left := c.left ++ [⟨node, c.mem.insts (c.mem.data node), .moved entries⟩] }
  have howns := (h.kept.owns.swap.removeNode (n := node) List.mem_cons_self).swap
  rw [List.erase_cons_head] at howns
  have hkept : Kept d ps cs' (node :: hs) :=
    ⟨howns, h.kept.size, h.kept.room, h.kept.empty, h.kept.fits⟩
  have hrun : c.move = { d.pushToCompPollingList node with
      mem := ((d.pushToCompPollingList node).mem.free (c.mem.data node)).free node
      thread := .idle } := by
    unfold NodeClient.move
    split
    · rename_i hthread'
      cases hthread'.symm.trans hthread
      rfl
    · rename_i hno
      exact absurd hthread (hno _ _ _)
  obtain ⟨ps', cs'', hdisc⟩ := horderly
  rw [hrun] at hdisc
  cases hpolls : d.polls with
  | true =>
    have hring := (hkept.push hpolls).1.owns.polling
    have hmem : node ∈ ps' := by
      rw [hdisc.polling.unique hring]
      exact List.mem_append_right _ List.mem_cons_self
    refine (hdisc.linked node (List.mem_append_left _ hmem)).1 ?_
    exact List.mem_append_right _ List.mem_cons_self
  | false =>
    have hpush := (hkept.push_discard hpolls).2
    have hreleased := hdisc.released
    rw [hpush] at hreleased
    have hnd : (d.mem.released ++ [c.mem.data node] ++ [node] ++ [c.mem.data node] ++ [node]).Nodup :=
      hreleased
    rw [List.nodup_append] at hnd
    exact hnd.2.2 node (by simp) node (by simp) rfl

theorem connect {cinfo : Client} {type : UInt8} {max : Int}
    (hstyle : FTBC.subscriptionStyle cinfo = some (type, max)) (handle : ClientHandle) :
    Owning (NodeClient.connect handle type max) [] [] [] where
  kept := kept_connect hstyle handle
  queued := rfl
  known _ hn := absurd hn List.not_mem_nil
  once := List.nodup_nil
  exits _ hd := absurd hd List.not_mem_nil
  thread := .idle rfl

/-- Every step but a hand-over. -/
theorem step (h : Owning c ps cs hs) (act : Act) (hno : ¬act.HandsOver c) :
    ∃ c' ps' cs' hs', act.run c = some c' ∧ Owning c' ps' cs' hs' ∧
      (¬act.Matched c → cs'.Sublist cs ∧ hs' = hs) := by
  cases act with
  | turn t =>
    obtain ⟨c', ps', cs', hs', hrun, hown, hsame⟩ := h.turn t
    refine ⟨c', ps', cs', hs', hrun, hown, fun hm => ?_⟩
    obtain ⟨rfl, rfl⟩ := hsame hm
    exact ⟨.refl _, rfl⟩
  | pick => exact ⟨_, ps, cs, hs, rfl, h.pick, fun _ => ⟨.refl _, rfl⟩⟩
  | finish =>
    obtain ⟨cs', hown, hsub⟩ := h.finish
    exact ⟨_, ps, cs', hs, rfl, hown, fun _ => ⟨hsub, rfl⟩⟩
  | move => exact ⟨c, ps, cs, hs, congrArg some (move_other hno), h, fun _ => ⟨.refl _, rfl⟩⟩

/-- Nothing is handed over while no event is queued for a callback. -/
theorem not_handsOver (h : Owning c ps [] hs) (act : Act) : ¬act.HandsOver c := by
  intro hover
  obtain ⟨-, node, entry, entries, hthread⟩ := hover
  cases h.thread with
  | idle hidle => exact absurd (hidle.symm.trans hthread) (by simp)
  | calling _ _ hcall => exact absurd (hcall.symm.trans hthread) (by simp)
  | moving _ _ _ hn => cases hn

end Owning

/-- **Event ownership.** A run of a client never stops. Nothing is lost in it if and only if no event
arrives that a callback mask matches; and the nodes are queued, released and handed on as they should
be if and only if the component thread hands no event over to the polling queue. -/
theorem event_ownership {cinfo : Client} {type : UInt8} {max : Int}
    (hstyle : FTBC.subscriptionStyle cinfo = some (type, max)) (handle : ClientHandle)
    (acts : List Act) :
    (∃ c, acts.foldlM (fun c act => act.run c) (NodeClient.connect handle type max) = some c) ∧
      (Trace.EveryState Owned Act.run acts (NodeClient.connect handle type max) ↔
        Trace.EveryStep (fun act c => ¬act.Matched c) Act.run acts
          (NodeClient.connect handle type max)) ∧
      (Trace.EveryState Orderly Act.run acts (NodeClient.connect handle type max) ↔
        Trace.EveryStep (fun act c => ¬act.HandsOver c) Act.run acts
          (NodeClient.connect handle type max)) := by
  have hconn := Owning.connect hstyle handle
  refine ⟨Act.runs acts hconn.kept.fits, ?_, ?_⟩
  · refine Trace.everyState_iff_everyStep (I := fun c => ∃ ps, Owning c ps [] []) ?_ ?_ ?_
      ⟨_, hconn⟩
    · intro c h
      obtain ⟨ps, hown⟩ := h
      exact hown.owned
    · intro act c c' h hno hrun
      obtain ⟨ps, hown⟩ := h
      obtain ⟨d, ps', cs', hs', hrun', hown', hsame⟩ := hown.step act (hown.not_handsOver act)
      obtain ⟨hsub, rfl⟩ := hsame hno
      cases hrun'.symm.trans hrun
      rw [List.sublist_nil.1 hsub] at hown'
      exact ⟨ps', hown'⟩
    · intro act c h hm
      obtain ⟨ps, hown⟩ := h
      obtain ⟨incoming, rfl, hmatch⟩ := not_not.1 hm
      exact ⟨_, rfl, (hown.message_matched incoming.fits hmatch).not_owned⟩
  · refine Trace.everyState_iff_everyStep (I := fun c => ∃ ps cs hs, Owning c ps cs hs) ?_ ?_ ?_
      ⟨_, _, _, hconn⟩
    · intro c h
      obtain ⟨ps, cs, hs, hown⟩ := h
      exact ⟨ps, cs, hown.disciplined⟩
    · intro act c c' h hno hrun
      obtain ⟨ps, cs, hs, hown⟩ := h
      obtain ⟨d, ps', cs', hs', hrun', hown', -⟩ := hown.step act hno
      cases hrun'.symm.trans hrun
      exact ⟨ps', cs', hs', hown'⟩
    · intro act c h hm
      obtain ⟨ps, cs, hs, hown⟩ := h
      have hover := not_not.1 hm
      obtain rfl := hover.1
      exact ⟨c.move, rfl, hown.not_orderly_move hover⟩

section

/-- A client that asks for callbacks only. -/
private def notifyStyle : Client :=
  { (default : Client) with clientSubscriptionStyle := "FTB_SUBSCRIPTION_NOTIFY".toList }

private def anyEvent : Incoming := ⟨⟨default, default⟩, by decide⟩

/-- A subscription that matches it. -/
private def anyCallback : CallbackEntry := { (default : CallbackEntry) with mask := default }

/-- A client that polls and asks for callbacks, with one place in its queue. -/
private def bothStyle : Client :=
  { (default : Client) with
    clientSubscriptionStyle := "FTB_SUBSCRIPTION_BOTH".toList, clientPollingQueueLen := 1 }

/-- A subscription to other events. -/
private def otherCallback : CallbackEntry :=
  { (default : CallbackEntry) with mask := { (default : Event) with eventName := ['b'] } }

private def bothClient : NodeClient :=
  NodeClient.connect default (subscriptionPolling + subscriptionNotify) 1

/-- Two events go to the polling queue, where the second takes the place of the first; it is polled. -/
private def polledRun : List Act :=
  [.turn (.subscribe otherCallback), .turn (.message anyEvent), .turn (.message anyEvent),
    .turn (.look default Cell.blank)]

/-- An event that its mask matches is called back. -/
private def calledRun : List Act :=
  [.turn (.subscribe anyCallback), .turn (.message anyEvent), .pick, .finish]

theorem event_ownership_received :
    Option.map NodeClient.events (polledRun.foldlM (fun c act => act.run c) bothClient) =
        some [.arrived 2, .dropped 2, .arrived 4, .polled 4] ∧
      Trace.EveryState Owned Act.run polledRun bothClient ∧
      Option.map (fun c => c.left.map Departure.node)
        (calledRun.foldlM (fun c act => act.run c) bothClient) = some [4] ∧
      Trace.EveryState Orderly Act.run calledRun bothClient :=
  have hstyle : FTBC.subscriptionStyle bothStyle = some (subscriptionPolling + subscriptionNotify, 1) :=
    by decide
  ⟨by decide +kernel, (event_ownership hstyle default polledRun).2.1.2 (by decide +kernel),
    by decide +kernel, (event_ownership hstyle default calledRun).2.2.2 (by decide +kernel)⟩

/-- An event that its mask matches; and one whose subscription is cancelled before the thread sees
it. -/
theorem event_ownership_lost :
    ¬Trace.EveryState Owned Act.run [.turn (.subscribe anyCallback), .turn (.message anyEvent)]
        (NodeClient.connect default subscriptionNotify 0) ∧
      ¬Trace.EveryState Orderly Act.run
        [.turn (.subscribe anyCallback), .turn (.message anyEvent), .turn (.unsubscribe default), .pick,
          .move] (NodeClient.connect default subscriptionNotify 0) := by
  have hconn := @Owning.connect notifyStyle subscriptionNotify 0 (by decide) default
  refine ⟨fun h => ?_, fun h => ?_⟩
  · have hown := (hconn.newMap (some (KeyList.empty.insert anyCallback))).message_matched
      anyEvent.fits (by decide)
    exact hown.not_owned ((h.2 _ rfl).2 _ rfl)
  · obtain ⟨ps, cs, hdisc⟩ := ((((h.2 _ rfl).2 _ rfl).2 _ rfl).2 _ rfl).2 _ rfl
    exact absurd hdisc.released (by decide)

end

end FTBCI
