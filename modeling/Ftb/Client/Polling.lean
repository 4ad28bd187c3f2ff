import Ftb.Client.Proof.Nodes
import Ftb.Client.EventSpace

/-!
# The polling queue

Runs of the sections that use the queue of a polling client in memory (`Turn`): the ring of its nodes
is what its history leaves over (`remaining`), the counter is its length, and a node is only dropped
where an arrival finds the queue full (`Legal`). `FTBC_Poll_event` returns `FTB_SUCCESS` exactly when an
event matches at one of its two looks, and takes the earliest such event out (`polling_queue`).
-/

open FTB FTBU

namespace FTBCI

/-! ## Histories -/

/-- The nodes that arrived, in order. -/
def arrivedNodes (log : List PollEvent) : List Nat :=
  log.filterMap fun
    | .arrived n => some n
    | _ => none

/-- The nodes that were polled or dropped. -/
def goneNodes (log : List PollEvent) : List Nat :=
  log.filterMap fun
    | .arrived _ => none
    | .dropped n => some n
    | .polled n => some n

/-- The arrivals without those that are gone, in order. -/
def remaining (log : List PollEvent) : List Nat :=
  (arrivedNodes log).filter fun n => n ∉ goneNodes log

/-- A node is dropped where an arrival finds `max` nodes, and then it is the oldest one. -/
inductive Legal (max : Int) : List PollEvent → Prop
  | nil : Legal max []
  | arrived {log : List PollEvent} {n : Nat} : Legal max log → n ∉ arrivedNodes log →
      (remaining log).length < max → Legal max (log ++ [.arrived n])
  | replaced {log : List PollEvent} {o n : Nat} : Legal max log → n ∉ arrivedNodes log →
      (remaining log).length = max → (remaining log).head? = some o →
      Legal max (log ++ [.dropped o, .arrived n])
  | polled {log : List PollEvent} {n : Nat} : Legal max log → n ∈ remaining log →
      Legal max (log ++ [.polled n])

section
variable {log : List PollEvent} {n : Nat} {max : Int}

@[simp] theorem arrivedNodes_append (log log' : List PollEvent) :
    arrivedNodes (log ++ log') = arrivedNodes log ++ arrivedNodes log' :=
  List.filterMap_append

@[simp] theorem goneNodes_append (log log' : List PollEvent) :
    goneNodes (log ++ log') = goneNodes log ++ goneNodes log' :=
  List.filterMap_append

theorem remaining_arrived (hn : n ∉ goneNodes log) :
    remaining (log ++ [.arrived n]) = remaining log ++ [n] := by
  have hgone : goneNodes (log ++ [.arrived n]) = goneNodes log := by
    simp [goneNodes]
  have harr : arrivedNodes (log ++ [.arrived n]) = arrivedNodes log ++ [n] := by
    simp [arrivedNodes]
  rw [remaining, hgone, harr, List.filter_append, remaining]
  simp [hn]

/-- A node that leaves the queue in between. -/
theorem remaining_gone {e : PollEvent} (he : e = .dropped n ∨ e = .polled n)
    (hnd : (remaining log).Nodup) : remaining (log ++ [e]) = (remaining log).erase n := by
  have hgone : goneNodes (log ++ [e]) = goneNodes log ++ [n] := by
    rcases he with rfl | rfl <;> simp [goneNodes]
  have harr : arrivedNodes (log ++ [e]) = arrivedNodes log := by
    rcases he with rfl | rfl <;> simp [arrivedNodes]
  rw [hnd.erase_eq_filter, remaining, hgone, harr, remaining, List.filter_filter]
  refine List.filter_congr fun a _ => ?_
  by_cases h : a = n <;> simp [h]

namespace Legal

theorem gone_subset (h : Legal max log) : ∀ a ∈ goneNodes log, a ∈ arrivedNodes log := by
  have hsub : ∀ {log : List PollEvent} {a : Nat}, a ∈ remaining log → a ∈ arrivedNodes log :=
    fun h => (List.mem_filter.1 h).1
  induction h with
  | nil => exact fun _ ha => absurd ha List.not_mem_nil
  | arrived _ _ _ ih =>
    intro a ha
    simp only [goneNodes_append, arrivedNodes_append, List.mem_append] at ha ⊢
    exact .inl (ih a (ha.resolve_right (by simp [goneNodes])))
  | @replaced log o n _ _ _ ho ih =>
    intro a ha
    simp only [goneNodes_append, arrivedNodes_append, List.mem_append] at ha ⊢
    refine ha.elim (fun ha => .inl (ih a ha)) fun ha => .inl ?_
    have hao : a = o := by simpa [goneNodes] using ha
    exact hao ▸ hsub (List.mem_of_mem_head? ho)
  | @polled log n _ hn ih =>
    intro a ha
    simp only [goneNodes_append, arrivedNodes_append, List.mem_append] at ha ⊢
    refine ha.elim (fun ha => .inl (ih a ha)) fun ha => .inl ?_
    have han : a = n := by simpa [goneNodes] using ha
    exact han ▸ hsub hn

theorem nodup (h : Legal max log) : (arrivedNodes log).Nodup := by
  induction h with
  | nil => exact List.nodup_nil
  | arrived _ hn _ ih =>
    rw [arrivedNodes_append]
    exact ih.append (List.nodup_singleton _) (by simpa [arrivedNodes] using hn)
  | replaced _ hn _ _ ih =>
    rw [arrivedNodes_append]
    exact ih.append (List.nodup_singleton _) (by simpa [arrivedNodes] using hn)
  | polled _ _ ih =>
    rw [arrivedNodes_append]
    simpa [arrivedNodes] using ih

theorem remaining_nodup (h : Legal max log) : (remaining log).Nodup := h.nodup.filter _

end Legal

end

/-! ## The invariant -/

/-- The client polls, and its queue is what its history leaves over; `cs` are the nodes of the other
queue and `hs` those in the hands of the code. -/
structure Polling (c : NodeClient) (cs hs : List Nat) : Prop where
  polls : c.polls = true
  kept : Kept c (remaining c.events) cs hs
  bound : c.eventQueueSize ≤ c.maxPollingQueueLen
  legal : Legal c.maxPollingQueueLen c.events
  known : ∀ n ∈ arrivedNodes c.events, n < c.mem.nextAddr ∧ c.mem.data n < c.mem.nextAddr

namespace Polling

variable {c : NodeClient} {cs hs : List Nat} {n : Nat}

theorem mem_arrived (hn : n ∈ remaining c.events) : n ∈ arrivedNodes c.events :=
  (List.mem_filter.1 hn).1

theorem newNode (h : Polling c cs hs) {e : EventInst} (he : Fits e) :
    Polling { c with mem := (c.mem.newNode e).2 } cs (c.mem.nextAddr :: hs) where
  polls := h.polls
  kept := h.kept.newNode he
  bound := h.bound
  legal := h.legal
  known n hn := by
    obtain ⟨hlt, hd⟩ := h.known n hn
    rw [(NodeMem.inst_newNode e hlt hd).1]
    exact ⟨Nat.lt_add_right 2 hlt, Nat.lt_add_right 2 hd⟩

theorem newMap (h : Polling c cs hs) (map : Option CallbackMap) :
    Polling { c with callbackMap := map } cs hs :=
  ⟨h.polls, h.kept.newMap map, h.bound, h.legal, h.known⟩

/-- What an arrival adds to the history, and what it leaves. -/
theorem events_push (h : Polling c cs (n :: hs)) (hn : n ∉ arrivedNodes c.events) :
    Legal c.maxPollingQueueLen (c.pushToCompPollingList n).events ∧
      arrivedNodes (c.pushToCompPollingList n).events = arrivedNodes c.events ++ [n] ∧
      remaining (c.pushToCompPollingList n).events =
        (if c.eventQueueSize = c.maxPollingQueueLen then (remaining c.events).tail
          else remaining c.events) ++ [n] := by
  have hgone : n ∉ goneNodes c.events := fun hg => hn (h.legal.gone_subset n hg)
  have hsize := h.kept.size
  have hbound := h.bound
  have hroom := h.kept.room h.polls
  rw [(h.kept.push h.polls).2.1]
  by_cases hfull : c.eventQueueSize = c.maxPollingQueueLen
  · rw [if_pos hfull, if_pos hfull]
    obtain ⟨o, rest, hrem⟩ := List.exists_cons_of_length_pos (l := remaining c.events) (by omega)
    have hdrop : remaining (c.events ++ [.dropped o]) = rest := by
      rw [remaining_gone (.inl rfl) h.legal.remaining_nodup, hrem, List.erase_cons_head]
    have hno : n ∉ goneNodes (c.events ++ [.dropped o]) := by
      have hne : n ≠ o := by
        rintro rfl
        exact hn (mem_arrived (hrem ▸ List.mem_cons_self))
      rw [goneNodes_append, List.mem_append]
      exact not_or.2 ⟨hgone, by simpa [goneNodes] using hne⟩
    rw [hrem]
    refine ⟨?_, ?_, ?_⟩
    · show Legal _ (c.events ++ [.dropped o] ++ [.arrived n])
      rw [List.append_assoc]
      exact .replaced h.legal hn (by omega) (by rw [hrem]; rfl)
    · simp [arrivedNodes]
    · show remaining (c.events ++ [.dropped o] ++ [.arrived n]) = rest ++ [n]
      rw [remaining_arrived hno, hdrop]
  · rw [if_neg hfull, if_neg hfull, List.append_nil]
    refine ⟨.arrived h.legal hn (by omega), ?_, remaining_arrived hgone⟩
    rw [arrivedNodes_append]
    rfl

/-- A new node is pushed to the polling queue. -/
theorem push (h : Polling c cs (n :: hs)) (hn : n ∉ arrivedNodes c.events)
    (hlt : n < c.mem.nextAddr ∧ c.mem.data n < c.mem.nextAddr) :
    Polling (c.pushToCompPollingList n) cs hs ∧
      arrivedNodes (c.pushToCompPollingList n).events = arrivedNodes c.events ++ [n] ∧
      (c.pushToCompPollingList n).mem.inst = c.mem.inst := by
  obtain ⟨hkept, -, hinst⟩ := h.kept.push h.polls
  obtain ⟨hlegal, harr, hrem⟩ := h.events_push hn
  have hsame := NodeClient.same_push n c
  have hmem : ∀ a ∈ arrivedNodes c.events ++ [n],
      a < c.mem.nextAddr ∧ c.mem.data a < c.mem.nextAddr := by
    intro a ha
    rcases List.mem_append.1 ha with ha | ha
    · exact h.known a ha
    · rw [List.mem_singleton.1 ha]
      exact hlt
  refine ⟨⟨?_, ?_, ?_, ?_, ?_⟩, harr, hinst⟩
  · rw [NodeClient.polls, hsame.subscriptionType]
    exact h.polls
  · rw [hrem]
    exact hkept
  · have hsize := hkept.size
    have hlen := h.kept.size
    have hbound := h.bound
    have hroom := h.kept.room h.polls
    rw [hsize, hsame.maxPollingQueueLen, List.length_append, List.length_singleton]
    by_cases hfull : c.eventQueueSize = c.maxPollingQueueLen
    · rw [if_pos hfull, List.length_tail]
      omega
    · rw [if_neg hfull]
      omega
  · rw [hsame.maxPollingQueueLen]
    exact hlegal
  · rw [harr, hsame.nextAddr, hsame.data]
    exact hmem

/-- A message is pushed, or it goes to the callback queue. -/
theorem handleMsg (h : Polling c cs hs) (incoming : Incoming) :
    (∃ cs' hs', Polling (c.handleMsg incoming.entry) cs' hs') ∧
      (arrivedNodes (c.handleMsg incoming.entry).events).map (c.handleMsg incoming.entry).mem.inst =
        (arrivedNodes c.events).map c.mem.inst ++
          if c.matched incoming.entry then [] else [incoming.entry] := by
  let e := incoming.entry
  have hfirst : Polling { c with mem := (c.mem.newNode e).2 } cs (c.mem.nextAddr :: hs) :=
    h.newNode incoming.fits
  have hinst : ∀ n ∈ arrivedNodes c.events, (c.mem.newNode e).2.inst n = c.mem.inst n :=
    fun n hn => (NodeMem.inst_newNode e (h.known n hn).1 (h.known n hn).2).2
  by_cases hm : c.matched e = true
  · obtain ⟨hkept, hmsg⟩ := h.kept.handleMsg_matched incoming.fits hm
    have hsecond := hfirst.newNode incoming.fits
    have hinst' : ∀ n ∈ arrivedNodes c.events,
        ((c.mem.newNode e).2.newNode e).2.inst n = c.mem.inst n := fun n hn =>
      ((NodeMem.inst_newNode e (hfirst.known n hn).1 (hfirst.known n hn).2).2).trans (hinst n hn)
    rw [hmsg] at hkept
    rw [if_pos hm, List.append_nil, hmsg]
    refine ⟨⟨_, _, ⟨h.polls, hkept, h.bound, h.legal, hsecond.known⟩⟩, ?_⟩
    exact List.map_congr_left hinst'
  · have hm' : c.matched e = false := Bool.eq_false_iff.2 hm
    obtain ⟨hdata, hself⟩ := NodeMem.inst_newNode_self c.mem e
    have hnew : c.mem.nextAddr ∉ arrivedNodes c.events :=
      fun hn => Nat.lt_irrefl _ (h.known _ hn).1
    have hlt : c.mem.nextAddr < (c.mem.newNode e).2.nextAddr ∧
        (c.mem.newNode e).2.data c.mem.nextAddr < (c.mem.newNode e).2.nextAddr := by
      rw [hdata, NodeMem.nextAddr_newNode]
      omega
    obtain ⟨hpush, harr, hinst'⟩ := hfirst.push hnew hlt
    rw [if_neg hm, Kept.handleMsg_other hm']
    refine ⟨⟨cs, hs, hpush⟩, ?_⟩
    rw [harr, hinst', List.map_append, List.map_singleton]
    show _ ++ [(c.mem.newNode e).2.inst c.mem.nextAddr] = _
    rw [hself]
    exact congrArg (· ++ [e]) (List.map_congr_left hinst)

end Polling

/-- The event of the node matches. -/
def Matches (mask : Event) (c : NodeClient) (n : Nat) : Prop :=
  matchMask (c.mem.inst n).eventInst mask = true

/-- The earliest event that matches is copied and taken out of the queue. -/
structure TakesOut (mask : Event) (bytes : Cell.Mem Field) (c : NodeClient) (r : ReceiveEvent)
    (c' : NodeClient) : Prop where
  split : ∃ l₁ n l₂, remaining c.events = l₁ ++ n :: l₂ ∧ (∀ a ∈ l₁, ¬Matches mask c a) ∧
    Matches mask c n ∧ receiveEvent (c.mem.inst n) bytes = some r ∧
    remaining c'.events = l₁ ++ l₂
  inst : c'.mem.inst = c.mem.inst

namespace Polling

variable {c : NodeClient} {cs hs : List Nat} {n : Nat}

/-- A node is polled. -/
theorem takeOut (h : Polling c cs hs) (hn : n ∈ remaining c.events) :
    Polling (c.takeOut n) cs hs ∧
      remaining (c.takeOut n).events = (remaining c.events).erase n := by
  have hrem : remaining (c.events ++ [.polled n]) = (remaining c.events).erase n :=
    remaining_gone (.inr rfl) h.legal.remaining_nodup
  have harr : arrivedNodes (c.events ++ [.polled n]) = arrivedNodes c.events := by
    simp [arrivedNodes]
  have hkept : Kept (c.takeOut n) (remaining (c.takeOut n).events) cs hs := by
    rw [show remaining (c.takeOut n).events = (remaining c.events).erase n from hrem]
    exact h.kept.takeOut hn
  refine ⟨⟨h.polls, hkept, ?_, .polled h.legal hn, ?_⟩, hrem⟩
  · have hbound := h.bound
    show c.eventQueueSize - 1 ≤ c.maxPollingQueueLen
    omega
  · exact fun a ha => h.known a (harr ▸ ha)

/-- A look takes the earliest event that matches, or none does. -/
theorem look (h : Polling c cs hs) (mask : Event) (bytes : Cell.Mem Field) :
    ((∀ n ∈ remaining c.events, ¬Matches mask c n) ∧ c.look mask bytes = some (none, c)) ∨
      ∃ r c', c.look mask bytes = some (some r, c') ∧ TakesOut mask bytes c r c' ∧
        Polling c' cs hs ∧ arrivedNodes c'.events = arrivedNodes c.events ∧ Same c c' := by
  rcases h.kept.look mask bytes with ⟨hf, hlook⟩ | ⟨n, r, hf, hr, hlook⟩
  · exact .inl ⟨fun n hn => List.find?_eq_none.1 hf n hn, hlook⟩
  · obtain ⟨hm, l₁, l₂, hsplit, hnone⟩ := List.find?_eq_some_iff_append.1 hf
    have hn : n ∈ remaining c.events := List.mem_of_find?_eq_some hf
    obtain ⟨hpoll, hrem⟩ := h.takeOut hn
    have hbefore : ∀ a ∈ l₁, ¬Matches mask c a := fun a ha => by
      simpa [Matches] using hnone a ha
    have hn₁ : n ∉ l₁ := fun hmem => hbefore n hmem hm
    refine .inr ⟨r, c.takeOut n, hlook, ⟨⟨l₁, n, l₂, hsplit, hbefore, hm, hr, ?_⟩, rfl⟩, hpoll, ?_,
      ⟨rfl, rfl, rfl⟩⟩
    · rw [hrem, hsplit, List.erase_append_right _ hn₁, List.erase_cons_head]
    · simp [NodeClient.takeOut, arrivedNodes]

end Polling


/-! ## Runs -/

/-- What a section pushes to the polling queue. -/
def NodeClient.Turn.pushes (turn : NodeClient.Turn) (c : NodeClient) : List EventInst :=
  match turn with
  | .message incoming => if c.matched incoming.entry then [] else [incoming.entry]
  | _ => []

/-- What a run pushes, in order. -/
def pushed : List NodeClient.Turn → NodeClient → List EventInst
  | [], _ => []
  | turn :: turns, c =>
    turn.pushes c ++
      match turn.run c with
      | none => []
      | some c' => pushed turns c'

namespace Polling

open NodeClient

variable {c : NodeClient} {cs hs : List Nat}

/-- One section. -/
theorem turn (h : Polling c cs hs) (turn : Turn) :
    ∃ c' cs' hs', turn.run c = some c' ∧ Polling c' cs' hs' ∧ Same c c' ∧
      (arrivedNodes c'.events).map c'.mem.inst =
        (arrivedNodes c.events).map c.mem.inst ++ turn.pushes c := by
  cases turn with
  | message incoming =>
    obtain ⟨⟨cs', hs', hpoll⟩, harr⟩ := h.handleMsg incoming
    exact ⟨_, cs', hs', rfl, hpoll, same_handleMsg incoming.entry c, harr⟩
  | look mask bytes =>
    rcases h.look mask bytes with ⟨-, hlook⟩ | ⟨r, c', hlook, htakes, hpoll, harr, hsame⟩
    · refine ⟨c, cs, hs, ?_, h, .rfl, (List.append_nil _).symm⟩
      rw [Turn.run, hlook]
      rfl
    · refine ⟨c', cs, hs, ?_, hpoll, hsame, ?_⟩
      · rw [Turn.run, hlook]
        rfl
      · rw [harr, htakes.inst]
        exact (List.append_nil _).symm
  | subscribe x =>
    exact ⟨_, cs, hs, rfl, h.newMap _, ⟨rfl, rfl, rfl⟩,
      (List.append_nil _).symm⟩
  | unsubscribe event =>
    exact ⟨_, cs, hs, rfl, h.newMap _, ⟨rfl, rfl, rfl⟩,
      (List.append_nil _).symm⟩

/-- A run of sections. -/
theorem turns : ∀ (turns : List Turn) {c : NodeClient} {cs hs : List Nat}, Polling c cs hs →
    ∃ c' cs' hs', runTurns turns c = some c' ∧ Polling c' cs' hs' ∧ Same c c' ∧
      (arrivedNodes c'.events).map c'.mem.inst =
        (arrivedNodes c.events).map c.mem.inst ++ pushed turns c := by
  intro turns
  induction turns with
  | nil => exact fun {c cs hs} h => ⟨c, cs, hs, rfl, h, .rfl, (List.append_nil _).symm⟩
  | cons turn turns ih =>
    intro c cs hs h
    obtain ⟨d, cs₁, hs₁, hrun, hd, hsame, harr⟩ := h.turn turn
    obtain ⟨c', cs', hs', hrest, hc', hsame', harr'⟩ := ih hd
    refine ⟨c', cs', hs', ?_, hc', hsame.trans hsame', ?_⟩
    · rw [runTurns, List.foldlM_cons, hrun]
      exact hrest
    · rw [harr', harr, List.append_assoc, pushed, hrun]

/-- The client that `FTBC_Connect` makes. -/
theorem connect {cinfo : Client} {type : UInt8} {max : Int}
    (hstyle : FTBC.subscriptionStyle cinfo = some (type, max))
    (hpolls : (type &&& subscriptionPolling != 0) = true) (handle : ClientHandle) :
    Polling (NodeClient.connect handle type max) [] [] where
  polls := hpolls
  kept := kept_connect hstyle handle
  bound := Int.le_of_lt (room_of_style hstyle hpolls)
  legal := .nil
  known _ hn := absurd hn List.not_mem_nil

end Polling

/-- What `FTBC_Connect` takes from an event space, `FTBC_Publish` sends. -/
theorem fits_publishedEvent {space : CStr} {clientHandle : ClientHandle}
    (h : splitNamespace space = some (.ok (clientHandle.clientId.region,
      clientHandle.clientId.compCat, clientHandle.clientId.comp)))
    (c : ClientInfo) (eventName : CStr) (details : DeclaredEvent) (p : FTBC.EventProperties)
    (src : Id) : Fits ⟨FTBC.publishedEvent clientHandle c eventName details p, src⟩ := by
  have hs := splitNamespace_ok_iff.1 h
  have hlen := hs.short
  rw [← hs.joined] at hlen
  exact hlen

/-! ## `FTBC_Poll_event` -/

/-- The queue of a polling client. -/
structure QueueKept (c : NodeClient) : Prop where
  ring : c.mem.links.IsRing c.eventQueue (remaining c.events)
  size : c.eventQueueSize = (remaining c.events).length
  bound : c.eventQueueSize ≤ c.maxPollingQueueLen
  legal : Legal c.maxPollingQueueLen c.events

/-- Some event of the queue matches. -/
def Queued (mask : Event) (c : NodeClient) : Prop := ∃ n ∈ remaining c.events, Matches mask c n

/-- The call comes to its looks. -/
def Looks (subscribeHandle : SubscribeHandle) (receiver : Option (Cell.Mem Field))
    (c : NodeClient) : Prop :=
  receiver.isSome = true ∧ subscribeHandle.valid ≠ 0 ∧
    isEqualClienthandle c.clientHandle subscribeHandle.clientHandle = true

/-- What `FTBC_Poll_event` returns, `c₁` and `c₂` being the client at its two looks, unless the first
one ends it. -/
structure Polled (subscribeHandle : SubscribeHandle) (receiver : Option (Cell.Mem Field))
    (c c₁ c₂ : NodeClient) (ret : Ret) (out : Option ReceiveEvent) (c' : NodeClient) : Prop where
  success : ret = .success ↔ Looks subscribeHandle receiver c ∧
    (Queued subscribeHandle.subscriptionEvent c₁ ∨ Queued subscribeHandle.subscriptionEvent c₂)
  taken : ret = .success → ∃ bytes r, receiver = some bytes ∧ out = some r ∧
    (TakesOut subscribeHandle.subscriptionEvent bytes c₁ r c' ∨
      ¬Queued subscribeHandle.subscriptionEvent c₁ ∧
        TakesOut subscribeHandle.subscriptionEvent bytes c₂ r c')
  missed : ret ≠ .success → out = none ∧ (Looks subscribeHandle receiver c → c' = c₂) ∧
    (¬Looks subscribeHandle receiver c → c' = c)
  reached : ∃ turns, NodeClient.runTurns turns c = some c'

namespace Polling

open NodeClient

variable {c : NodeClient} {cs hs : List Nat}

theorem queueKept (h : Polling c cs hs) : QueueKept c :=
  ⟨h.kept.owns.polling, h.kept.size, h.bound, h.legal⟩

theorem runTurns_append (turns turns' : List Turn) (c : NodeClient) :
    runTurns (turns ++ turns') c = (runTurns turns c).bind (runTurns turns') := by
  rw [runTurns, List.foldlM_append]
  rfl

/-- A look, and what it says about the queue. -/
theorem look_cases (h : Polling c cs hs) (mask : Event) (bytes : Cell.Mem Field) :
    (¬Queued mask c ∧ c.look mask bytes = some (none, c)) ∨
      Queued mask c ∧ ∃ r c', c.look mask bytes = some (some r, c') ∧ TakesOut mask bytes c r c' := by
  rcases h.look mask bytes with ⟨hnone, hlook⟩ | ⟨r, c', hlook, htakes, -⟩
  · refine .inl ⟨fun hq => ?_, hlook⟩
    obtain ⟨n, hn, hm⟩ := hq
    exact hnone n hn hm
  · obtain ⟨l₁, n, l₂, hsplit, -, hm, -⟩ := htakes.split
    exact .inr ⟨⟨n, by rw [hsplit]; simp, hm⟩, r, c', hlook, htakes⟩

/-- A call of `FTBC_Poll_event`. -/
theorem pollEvent (h : Polling c cs hs) (subscribeHandle : SubscribeHandle)
    (receiver : Option (Cell.Mem Field)) (first second : List Turn) :
    ∃ c₁ c₂ ret out c', runTurns first c = some c₁ ∧ runTurns second c₁ = some c₂ ∧
      c.pollEvent subscribeHandle receiver first second = some (ret, out, c') ∧
      Polled subscribeHandle receiver c c₁ c₂ ret out c' := by
  obtain ⟨c₁, cs₁, hs₁, hfirst, h₁, -⟩ := h.turns first
  obtain ⟨c₂, cs₂, hs₂, hsecond, h₂, -⟩ := h₁.turns second
  by_cases hl : Looks subscribeHandle receiver c
  · obtain ⟨hrecv, hvalid, hequal⟩ := hl
    obtain ⟨bytes, rfl⟩ := Option.isSome_iff_exists.1 hrecv
    let mask := subscribeHandle.subscriptionEvent
    have hcall : c.pollEvent subscribeHandle (some bytes) first second =
        pollLoop mask bytes [first, second] c := by
      simp [NodeClient.pollEvent, hvalid, hequal, h.polls, mask]
    have hrun : ∀ last, runTurns (first ++ last) c = runTurns last c₁ := by
      intro last
      rw [runTurns_append, hfirst]
      rfl
    rcases h₁.look_cases mask bytes with ⟨hnone₁, hlook₁⟩ | ⟨hq, r, c', hlook, htakes⟩
    · rcases h₂.look_cases mask bytes with ⟨hnone₂, hlook₂⟩ | ⟨hq, r, c', hlook, htakes⟩
      · refine ⟨c₁, c₂, .gotNoEvent, none, c₂, hfirst, hsecond, ?_,
          ⟨?_, fun he => absurd he (by decide), ?_, ?_⟩⟩
        · rw [hcall]
          simp [pollLoop, hfirst, hsecond, hlook₁, hlook₂]
        · exact iff_of_false (by decide) fun hq => not_or.2 ⟨hnone₁, hnone₂⟩ hq.2
        · exact fun _ => ⟨rfl, fun _ => rfl, fun hno => absurd ⟨rfl, hvalid, hequal⟩ hno⟩
        · exact ⟨first ++ second, (hrun second).trans hsecond⟩
      · refine ⟨c₁, c₂, .success, some r, c', hfirst, hsecond, ?_, ⟨?_, ?_, fun hno => absurd rfl hno,
          ?_⟩⟩
        · rw [hcall]
          simp [pollLoop, hfirst, hsecond, hlook₁, hlook]
        · exact iff_of_true rfl ⟨⟨rfl, hvalid, hequal⟩, .inr hq⟩
        · exact fun _ => ⟨bytes, r, rfl, rfl, .inr ⟨hnone₁, htakes⟩⟩
        · refine ⟨first ++ (second ++ [.look mask bytes]), (hrun _).trans ?_⟩
          rw [runTurns_append, hsecond]
          simp [runTurns, Turn.run, hlook]
    · refine ⟨c₁, c₂, .success, some r, c', hfirst, hsecond, ?_, ⟨?_, ?_, fun hno => absurd rfl hno,
        ?_⟩⟩
      · rw [hcall]
        simp [pollLoop, hfirst, hlook]
      · exact iff_of_true rfl ⟨⟨rfl, hvalid, hequal⟩, .inl hq⟩
      · exact fun _ => ⟨bytes, r, rfl, rfl, .inl htakes⟩
      · refine ⟨first ++ [.look mask bytes], (hrun _).trans ?_⟩
        simp [runTurns, Turn.run, hlook]
  · obtain ⟨ret, hret, hcall⟩ : ∃ ret, ret ≠ .success ∧
        c.pollEvent subscribeHandle receiver first second = some (ret, none, c) := by
      cases receiver with
      | none => exact ⟨.errNullPointer, by decide, rfl⟩
      | some bytes =>
        refine ⟨.errInvalidHandle, by decide, ?_⟩
        by_cases hvalid : subscribeHandle.valid = 0
        · simp [NodeClient.pollEvent, hvalid]
        · have hequal : isEqualClienthandle c.clientHandle subscribeHandle.clientHandle = false :=
            Bool.eq_false_iff.2 fun he => hl ⟨rfl, hvalid, he⟩
          simp [NodeClient.pollEvent, hequal]
    exact ⟨c₁, c₂, ret, none, c, hfirst, hsecond, hcall,
      ⟨iff_of_false hret fun hlooks => hl hlooks.1, fun he => absurd he hret,
        fun _ => ⟨rfl, fun hlooks => absurd hlooks hl, fun _ => rfl⟩, [], rfl⟩⟩

end Polling

/-- **The polling queue.** In every run, the ring is what the history of the queue leaves over, the
counter is its length, and a call of `FTBC_Poll_event` takes the earliest event that matches at one
of its looks, or none does. -/
theorem polling_queue {cinfo : Client} {type : UInt8} {max : Int}
    (hstyle : FTBC.subscriptionStyle cinfo = some (type, max))
    (hpolls : (type &&& subscriptionPolling != 0) = true) (handle : ClientHandle)
    (turns : List NodeClient.Turn) :
    ∃ c, NodeClient.runTurns turns (NodeClient.connect handle type max) = some c ∧ QueueKept c ∧
      c.maxPollingQueueLen = max ∧
      (arrivedNodes c.events).map c.mem.inst = pushed turns (NodeClient.connect handle type max) ∧
      ∀ subscribeHandle receiver first second, ∃ c₁ c₂ ret out c',
        NodeClient.runTurns first c = some c₁ ∧ NodeClient.runTurns second c₁ = some c₂ ∧
        c.pollEvent subscribeHandle receiver first second = some (ret, out, c') ∧
        Polled subscribeHandle receiver c c₁ c₂ ret out c' := by
  obtain ⟨c, cs, hs, hrun, hpoll, hsame, harr⟩ :=
    (Polling.connect hstyle hpolls handle).turns turns
  exact ⟨c, hrun, hpoll.queueKept, hsame.maxPollingQueueLen, harr,
    fun subscribeHandle receiver first second => hpoll.pollEvent subscribeHandle receiver first second⟩

/-- A client with room for one event, to which two are sent. -/
theorem polling_queue_two : ∃ c, NodeClient.runTurns
    [.message ⟨⟨default, default⟩, by decide⟩, .message ⟨⟨default, default⟩, by decide⟩]
      (NodeClient.connect default subscriptionPolling 1) = some c ∧ QueueKept c ∧
    c.maxPollingQueueLen = 1 := by
  let cinfo : Client :=
    { (default : Client) with
      clientSubscriptionStyle := "FTB_SUBSCRIPTION_POLLING".toList, clientPollingQueueLen := 1 }
  obtain ⟨c, hrun, hkept, hmax, -⟩ := @polling_queue cinfo subscriptionPolling 1 (by decide)
    (by decide) default
    [.message ⟨⟨default, default⟩, by decide⟩, .message ⟨⟨default, default⟩, by decide⟩]
  exact ⟨c, hrun, hkept, hmax⟩

end FTBCI
