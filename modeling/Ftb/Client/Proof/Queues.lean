import Ftb.Client.Proof.Nodes

/-!
# The queues in memory and as lists

`Ftb.Client.Ops` keeps the queues of a client as lists of events, `Ftb.Client.Nodes` as rings of nodes
in memory. `Mirrors c ps cs hs i`: the lists of `i` are what the nodes in the rings of `c` carry, and
the rest of the two clients is the same.

Every section does to the lists what it does in memory, so the lists are right for whole runs
(`mirrors_runTurns`). A turn of the component thread that finds a mask is `callbackComponent`
(`Mirrors.component`); where it finds none, the lists have no value and the memory is released twice.
-/

open FTB FTBU FTBC

namespace FTBCI

structure Mirrors (c : NodeClient) (ps cs hs : List Nat) (i : ClientInfo) : Prop where
  kept : Kept c ps cs hs
  clientHandle : i.clientHandle = c.clientHandle
  subscriptionType : i.subscriptionType = c.subscriptionType
  maxPollingQueueLen : i.maxPollingQueueLen = c.maxPollingQueueLen
  eventQueueSize : i.eventQueueSize = c.eventQueueSize
  callbackMap : i.callbackMap = c.callbackMap
  eventQueue : i.eventQueue = ps.map c.mem.inst
  callbackEventQueue : i.callbackEventQueue = cs.map c.mem.inst

/-- What a section does to the lists. -/
def NodeClient.Turn.onLists : NodeClient.Turn → ClientInfo → Option ClientInfo
  | .message incoming, i => some (receive incoming.entry i)
  | .look mask bytes, i => (pollQueue mask bytes i).map fun out => (out.map (·.2)).getD i
  | .subscribe x, i => some (utilAddToCallbackMap x.callback x.arg x.mask i)
  | .unsubscribe event, i => some (utilRemoveFromSubscriptionMap event i)

namespace Mirrors

variable {c : NodeClient} {ps cs hs : List Nat} {i : ClientInfo} {n : Nat}

theorem polls (h : Mirrors c ps cs hs i) : i.polls = c.polls := by
  rw [ClientInfo.polls, NodeClient.polls, h.subscriptionType]

theorem matched (h : Mirrors c ps cs hs i) (entry : EventInst) :
    (i.notifies && i.callbackEntries.any fun x => matchMask entry.eventInst x.mask) =
      c.matched entry := by
  rw [NodeClient.matched, ClientInfo.notifies, NodeClient.notifies, h.subscriptionType,
    ClientInfo.callbackEntries, NodeClient.callbackEntries, h.callbackMap]

/-- A new node is in neither queue. -/
theorem newNode (h : Mirrors c ps cs hs i) {e : EventInst} (he : Fits e) :
    Mirrors { c with mem := (c.mem.newNode e).2 } ps cs (c.mem.nextAddr :: hs) i := by
  have hinst : ∀ n ∈ ps ++ cs, (c.mem.newNode e).2.inst n = c.mem.inst n := by
    intro n hn
    obtain ⟨hlt, hd⟩ := Owns.mem_all (m := c.mem) (p := c.eventQueue) (k := c.callbackEventQueue)
      (List.mem_append_left hs hn)
    exact (NodeMem.inst_newNode e (h.kept.owns.lt_nextAddr hlt) (h.kept.owns.lt_nextAddr hd)).2
  refine ⟨h.kept.newNode he, h.clientHandle, h.subscriptionType, h.maxPollingQueueLen,
    h.eventQueueSize, h.callbackMap, ?_, ?_⟩
  · rw [h.eventQueue]
    exact (List.map_congr_left fun n hn => hinst n (List.mem_append_left _ hn)).symm
  · rw [h.callbackEventQueue]
    exact (List.map_congr_left fun n hn => hinst n (List.mem_append_right _ hn)).symm

/-- A node in the hands of the code is pushed, or released. -/
theorem push (h : Mirrors c ps cs (n :: hs) i) : ∃ ps',
    Mirrors (c.pushToCompPollingList n) ps' cs hs (utilPushToCompPollingList (c.mem.inst n) i) := by
  have hsame := NodeClient.same_push n c
  have hpolls := h.polls
  cases hc : c.polls with
  | true =>
    obtain ⟨hkept, -, hinst⟩ := h.kept.push hc
    have hsize := hkept.size
    have hlen := h.kept.size
    have hroom := h.kept.room hc
    rw [hc] at hpolls
    by_cases hfull : c.eventQueueSize = c.maxPollingQueueLen
    · have hlists : utilPushToCompPollingList (c.mem.inst n) i =
          { i with
            eventQueue := i.eventQueue.tail ++ [c.mem.inst n]
            eventQueueSize := i.eventQueueSize - 1 + 1 } := by
        simp only [utilPushToCompPollingList, hpolls, if_true, h.eventQueueSize,
          h.maxPollingQueueLen, hfull, beq_self_eq_true]
      rw [if_pos hfull] at hsize hkept
      rw [List.length_append, List.length_tail, List.length_singleton] at hsize
      rw [hlists]
      refine ⟨_, hkept, h.clientHandle.trans hsame.clientHandle.symm,
        h.subscriptionType.trans hsame.subscriptionType.symm,
        h.maxPollingQueueLen.trans hsame.maxPollingQueueLen.symm, ?_,
        h.callbackMap.trans hsame.callbackMap.symm, ?_, ?_⟩
      · show i.eventQueueSize - 1 + 1 = _
        rw [h.eventQueueSize]
        omega
      · show i.eventQueue.tail ++ [c.mem.inst n] = _
        rw [h.eventQueue, hinst, List.map_append, List.map_tail]
        rfl
      · rw [hinst]
        exact h.callbackEventQueue
    · have hlists : utilPushToCompPollingList (c.mem.inst n) i =
          { i with
            eventQueue := i.eventQueue ++ [c.mem.inst n]
            eventQueueSize := i.eventQueueSize + 1 } := by
        simp [utilPushToCompPollingList, hpolls, h.eventQueueSize, h.maxPollingQueueLen, hfull]
      rw [if_neg hfull] at hsize hkept
      rw [List.length_append, List.length_singleton] at hsize
      rw [hlists]
      refine ⟨_, hkept, h.clientHandle.trans hsame.clientHandle.symm,
        h.subscriptionType.trans hsame.subscriptionType.symm,
        h.maxPollingQueueLen.trans hsame.maxPollingQueueLen.symm, ?_,
        h.callbackMap.trans hsame.callbackMap.symm, ?_, ?_⟩
      · show i.eventQueueSize + 1 = _
        rw [h.eventQueueSize]
        omega
      · show i.eventQueue ++ [c.mem.inst n] = _
        rw [h.eventQueue, hinst, List.map_append]
        rfl
      · rw [hinst]
        exact h.callbackEventQueue
  | false =>
    obtain ⟨hkept, hpush⟩ := h.kept.push_discard hc
    rw [hpush] at hkept ⊢
    rw [hc] at hpolls
    have hlists : utilPushToCompPollingList (c.mem.inst n) i = i := by
      rw [utilPushToCompPollingList, hpolls]
      rfl
    rw [hlists]
    exact ⟨ps, hkept, h.clientHandle, h.subscriptionType, h.maxPollingQueueLen, h.eventQueueSize,
      h.callbackMap, h.eventQueue, h.callbackEventQueue⟩

/-- `FTBCI_util_handle_FTBM_msg` of the client. -/
theorem handleMsg (h : Mirrors c ps cs hs i) (incoming : Incoming) : ∃ ps' cs' hs',
    Mirrors (c.handleMsg incoming.entry) ps' cs' hs' (receive incoming.entry i) := by
  have hfirst := h.newNode incoming.fits
  cases hm : c.matched incoming.entry with
  | true =>
    obtain ⟨hkept, hmsg⟩ := h.kept.handleMsg_matched incoming.fits hm
    have hsecond := hfirst.newNode incoming.fits
    have hself : ((c.mem.newNode incoming.entry).2.newNode incoming.entry).2.inst
        (c.mem.nextAddr + 2) = incoming.entry :=
      (NodeMem.inst_newNode_self (c.mem.newNode incoming.entry).2 incoming.entry).2
    have hlists : receive incoming.entry i =
        { i with callbackEventQueue := i.callbackEventQueue ++ [incoming.entry] } :=
      if_pos ((h.matched incoming.entry).trans hm)
    rw [hlists]
    rw [hmsg] at hkept ⊢
    refine ⟨_, _, _, hkept, h.clientHandle, h.subscriptionType, h.maxPollingQueueLen,
      h.eventQueueSize, h.callbackMap, hsecond.eventQueue, ?_⟩
    show i.callbackEventQueue ++ [incoming.entry] = _
    rw [hsecond.callbackEventQueue, List.map_append, List.map_singleton, NodeMem.inst_relink, hself]
  | false =>
    have hself : (c.mem.newNode incoming.entry).2.inst c.mem.nextAddr = incoming.entry :=
      (NodeMem.inst_newNode_self c.mem incoming.entry).2
    have hlists : receive incoming.entry i = utilPushToCompPollingList incoming.entry i :=
      if_neg (by rw [h.matched incoming.entry, hm]; exact Bool.false_ne_true)
    obtain ⟨ps', hpush⟩ := hfirst.push
    rw [hself] at hpush
    rw [hlists, Kept.handleMsg_other hm]
    exact ⟨ps', cs, hs, hpush⟩

/-- The section of `FTBC_Poll_event`. -/
theorem look (h : Mirrors c ps cs hs i) (mask : Event) (bytes : Cell.Mem Field) :
    (pollQueue mask bytes i = some none ∧ c.look mask bytes = some (none, c)) ∨
      ∃ r c' i' ps', pollQueue mask bytes i = some (some (r, i')) ∧
        c.look mask bytes = some (some r, c') ∧ Mirrors c' ps' cs hs i' := by
  have hfind : (i.eventQueue.find? fun entry => matchMask entry.eventInst mask) =
      (ps.find? fun n => matchMask (c.mem.inst n).eventInst mask).map c.mem.inst := by
    rw [h.eventQueue, List.find?_map]
    rfl
  rcases h.kept.look mask bytes with ⟨hnone, hlook⟩ | ⟨n, r, hsome, hr, hlook⟩
  · refine .inl ⟨?_, hlook⟩
    rw [pollQueue, hfind, hnone]
    split <;> rfl
  · obtain ⟨hm, l₁, l₂, hsplit, hbefore⟩ := List.find?_eq_some_iff_append.1 hsome
    have hmem : n ∈ ps := List.mem_of_find?_eq_some hsome
    have hpos : i.eventQueueSize > 0 := by
      have hlen := List.length_pos_of_mem hmem
      rw [h.eventQueueSize, h.kept.size]
      omega
    have hn₁ : n ∉ l₁ := by
      intro hn
      have := hbefore n hn
      rw [hm] at this
      cases this
    have herase : ps.erase n = l₁ ++ l₂ := by
      rw [hsplit, List.erase_append_right _ hn₁, List.erase_cons_head]
    have herase' : (i.eventQueue.eraseP fun entry => matchMask entry.eventInst mask) =
        (l₁ ++ l₂).map c.mem.inst := by
      have hskip : ∀ b ∈ l₁.map c.mem.inst, ¬matchMask b.eventInst mask = true := by
        intro b hb
        obtain ⟨a, ha, rfl⟩ := List.mem_map.1 hb
        simpa using hbefore a ha
      rw [h.eventQueue, hsplit, List.map_append, List.map_cons, List.eraseP_append_right _ hskip,
        List.eraseP_cons_of_pos (by exact hm), List.map_append]
    let i' : ClientInfo :=
      { i with
        eventQueue := i.eventQueue.eraseP fun entry => matchMask entry.eventInst mask
        eventQueueSize := i.eventQueueSize - 1 }
    refine .inr ⟨r, c.takeOut n, i', ps.erase n, ?_, hlook, h.kept.takeOut hmem, h.clientHandle,
      h.subscriptionType, h.maxPollingQueueLen, ?_, h.callbackMap, ?_, h.callbackEventQueue⟩
    · rw [pollQueue, if_pos hpos, hfind, hsome]
      simp only [Option.map_some, hr]
      rfl
    · exact congrArg (· - 1) h.eventQueueSize
    · rw [herase]
      exact herase'

/-- One section. -/
theorem turn (h : Mirrors c ps cs hs i) (turn : NodeClient.Turn) :
    ∃ c' ps' cs' hs' i', turn.run c = some c' ∧ turn.onLists i = some i' ∧
      Mirrors c' ps' cs' hs' i' := by
  cases turn with
  | message incoming =>
    obtain ⟨ps', cs', hs', hmsg⟩ := h.handleMsg incoming
    exact ⟨_, ps', cs', hs', _, rfl, rfl, hmsg⟩
  | look mask bytes =>
    rcases h.look mask bytes with ⟨hlists, hlook⟩ | ⟨r, c', i', ps', hlists, hlook, hmirrors⟩
    · refine ⟨c, ps, cs, hs, i, ?_, ?_, h⟩
      · rw [NodeClient.Turn.run, hlook]
        rfl
      · rw [NodeClient.Turn.onLists, hlists]
        rfl
    · refine ⟨c', ps', cs, hs, i', ?_, ?_, hmirrors⟩
      · rw [NodeClient.Turn.run, hlook]
        rfl
      · rw [NodeClient.Turn.onLists, hlists]
        rfl
  | subscribe x =>
    refine ⟨_, ps, cs, hs, _, rfl, rfl, h.kept.newMap _, h.clientHandle, h.subscriptionType,
      h.maxPollingQueueLen, h.eventQueueSize, ?_, h.eventQueue, h.callbackEventQueue⟩
    show i.callbackMap.map _ = c.callbackMap.map _
    rw [h.callbackMap]
  | unsubscribe event =>
    refine ⟨_, ps, cs, hs, _, rfl, rfl, h.kept.newMap _, h.clientHandle, h.subscriptionType,
      h.maxPollingQueueLen, h.eventQueueSize, ?_, h.eventQueue, h.callbackEventQueue⟩
    show i.callbackMap.map _ = c.callbackMap.map _
    rw [h.callbackMap]

/-- A turn of the component thread that nothing interrupts. -/
theorem component (h : Mirrors c ps cs hs i) (hidle : c.thread = .idle) :
    (callbackComponent i = some (none, i) ∧ c.pick = c) ∨
      (callbackComponent i = none ∧ ∃ node entry entries,
        c.pick.thread = .moving node entry entries) ∨
      ∃ x r i' cs', callbackComponent i = some (some (x, r), i') ∧
        (∃ node entry, c.pick.thread = .calling node entry x) ∧
        Mirrors c.pick.finish ps cs' hs i' := by
  have hqueue := h.callbackEventQueue
  cases cs with
  | nil =>
    have hempty : c.mem.links.next c.callbackEventQueue = c.callbackEventQueue :=
      h.kept.owns.calling.next_head
    refine .inl ⟨?_, ?_⟩
    · rw [callbackComponent, hqueue]
      rfl
    · simp only [NodeClient.pick, hidle, hempty, if_true]
  | cons n cs =>
    have hnext : c.mem.links.next c.callbackEventQueue = n := h.kept.owns.calling.next_head
    have hne : n ≠ c.callbackEventQueue := by
      have hnd := h.kept.owns.nodup_nodes
      intro he
      rw [he] at hnd
      simp at hnd
    have hentries : i.callbackEntries = c.callbackEntries := by
      rw [ClientInfo.callbackEntries, NodeClient.callbackEntries, h.callbackMap]
    rw [List.map_cons] at hqueue
    right
    cases hf : c.callbackEntries.find? fun x => matchMask (c.mem.inst n).eventInst x.mask with
    | none =>
      refine .inl ⟨?_, n, c.mem.data n, c.callbackEntries, ?_⟩
      · rw [callbackComponent, hqueue]
        simp only [hentries, hf]
      · have hf' : (c.callbackEntries.find? fun x =>
            matchMask (c.mem.insts (c.mem.data n)).eventInst x.mask) = none := hf
        simp only [NodeClient.pick, hidle, hnext, hne, if_false, hf']
    | some x =>
      obtain ⟨r, hr⟩ := Kept.receiveEvent_of_fits (h.kept.fits (c.mem.data n)) Cell.blank
      have hr' : receiveEvent (c.mem.inst n) Cell.blank = some r := hr
      have hf' : (c.callbackEntries.find? fun x =>
          matchMask (c.mem.insts (c.mem.data n)).eventInst x.mask) = some x := hf
      have hpick : c.pick = { c with thread := .calling n (c.mem.data n) x } := by
        simp only [NodeClient.pick, hidle, hnext, hne, if_false, hf']
      have howns := (h.kept.owns.swap.removeNode (n := n) List.mem_cons_self).swap
      rw [List.erase_cons_head] at howns
      refine .inr ⟨x, r, { i with callbackEventQueue := cs.map c.mem.inst }, cs, ?_,
        ⟨n, c.mem.data n, by rw [hpick]⟩, ?_⟩
      · rw [callbackComponent, hqueue]
        simp only [hentries, hf, hr']
        rfl
      · rw [hpick]
        exact ⟨⟨howns.free, h.kept.size, h.kept.room, h.kept.empty, h.kept.fits⟩, h.clientHandle,
          h.subscriptionType, h.maxPollingQueueLen, h.eventQueueSize, h.callbackMap, h.eventQueue,
          rfl⟩

/-- The client that `FTBC_Connect` makes. -/
theorem connect {cinfo : Client} {type : UInt8} {max : Int}
    (hstyle : FTBC.subscriptionStyle cinfo = some (type, max)) (id : Id) (jobid : CStr) :
    Mirrors (NodeClient.connect (convertClientidToClienthandle id.clientId) type max) [] [] []
      (FTBC.newClientInfo id jobid type max) :=
  ⟨kept_connect hstyle _, rfl, rfl, rfl, rfl, rfl, rfl, rfl⟩

/-- A run of sections. -/
theorem turns : ∀ (turns : List NodeClient.Turn) {c : NodeClient} {ps cs hs : List Nat}
    {i : ClientInfo}, Mirrors c ps cs hs i → ∃ c' ps' cs' hs' i',
      NodeClient.runTurns turns c = some c' ∧
      turns.foldlM (fun i turn => turn.onLists i) i = some i' ∧ Mirrors c' ps' cs' hs' i' := by
  intro turns
  induction turns with
  | nil => exact fun {c ps cs hs i} h => ⟨c, ps, cs, hs, i, rfl, rfl, h⟩
  | cons turn turns ih =>
    intro c ps cs hs i h
    obtain ⟨d, ps₁, cs₁, hs₁, j, hrun, hlists, hd⟩ := h.turn turn
    obtain ⟨c', ps', cs', hs', i', hrest, hlists', hc'⟩ := ih hd
    refine ⟨c', ps', cs', hs', i', ?_, ?_, hc'⟩
    · rw [NodeClient.runTurns, List.foldlM_cons, hrun]
      exact hrest
    · rw [List.foldlM_cons, hlists]
      exact hlists'

end Mirrors

/-- In every run of a client the lists are what is in memory. -/
theorem mirrors_runTurns {cinfo : Client} {type : UInt8} {max : Int}
    (hstyle : FTBC.subscriptionStyle cinfo = some (type, max)) (id : Id) (jobid : CStr)
    (turns : List NodeClient.Turn) :
    ∃ c i ps cs hs,
      NodeClient.runTurns turns
        (NodeClient.connect (convertClientidToClienthandle id.clientId) type max) = some c ∧
      turns.foldlM (fun i turn => turn.onLists i) (FTBC.newClientInfo id jobid type max) =
        some i ∧
      Mirrors c ps cs hs i := by
  obtain ⟨c, ps, cs, hs, i, hrun, hlists, h⟩ := (Mirrors.connect hstyle id jobid).turns turns
  exact ⟨c, i, ps, cs, hs, hrun, hlists, h⟩

end FTBCI
