import Ftb.E2E.Proof.Calls
import Ftb.Client.Receiver

/-!
# What comes in and what goes out of a process

Over any turns, a process sends what its clients send, behind what it has sent before, and handles what
it takes from the connection, in order (`Turns.trades`). Of the events that were handled for a client
(`arrivals`), in order, some have been given to the application and some are still in a queue of the
client: the ones given, and behind them those in the queue, are among the arrivals in the same order
(`Drawn`).
-/

open FTB FTBU FTBN FTBMI FTBCI FTBC

namespace E2E

variable {here parent : LocationId} {s s' t : Lib Line} {l l' : List Msg}
  {K : ClientHandle → Event → Prop}

/-! ## Who sends -/

/-- The clients of the process are where it is. -/
structure Housed (here : LocationId) (s : Lib Line) : Prop where
  placed : ∀ c ∈ s.clients, Placed here c
  ready : Ready here s

/-- A message of a client of the process. -/
structure Own (here : LocationId) (m : Msg) : Prop where
  loc : m.src.locationId = here
  name : FTBM.isManagerNameCase m.src = false
  type : m.msgType ≠ .cleanupConn

theorem Placed.later {c c' : ClientInfo} (h : Placed here c) (hl : Later K c c') : Placed here c' := by
  refine ⟨?_, ?_, ?_⟩
  · rw [hl.id]
    exact h.loc
  · rw [hl.id]
    exact h.name
  · rw [hl.handle, hl.id]
    exact h.handle

theorem receive_kept (e : EventInst) (c : ClientInfo) :
    (receive e c).id = c.id ∧ (receive e c).clientHandle = c.clientHandle := by
  have hcore := core_receive e c
  exact ⟨eq_of_core (f := ClientInfo.id) (fun _ => rfl) hcore,
    eq_of_core (f := ClientInfo.clientHandle) (fun _ => rfl) hcore⟩

/-- The clients, when a message was handled: an event that is for a client adds to its queues. -/
theorem mem_clients_handled {msg : Msg} (h : utilHandleFTBMMsg msg s = some s') {c' : ClientInfo}
    (hc' : c' ∈ s'.clients) :
    c' ∈ s.clients ∧ (msg.msgType = .notify →
      isEqualClienthandle c'.clientHandle (convertClientidToClienthandle msg.dst.clientId) = false) ∨
    ∃ c ∈ s.clients, msg.msgType = .notify ∧
      isEqualClienthandle c.clientHandle (convertClientidToClienthandle msg.dst.clientId) = true ∧
      c' = receive ⟨msg.event, msg.src⟩ c := by
  simp only [utilHandleFTBMMsg] at h
  split at h
  · rename_i ht
    cases h
    exact .inl ⟨hc', fun hn => absurd hn ht⟩
  · rename_i ht
    rw [not_not] at ht
    split at h
    · cases h
    · rename_i map hm
      split at h
      · cases h
      · rename_i hf
        cases h
        refine .inl ⟨hc', fun _ => ?_⟩
        exact (findClient_none hf c' (by simpa [Lib.clients, hm] using hc')).2
      · cases h
        simp only [Lib.update, Lib.clients, hm, Option.map_some, Option.getD_some] at hc'
        obtain ⟨x, hx, hxc⟩ := KeyList.mem_adjust.1 hc'
        have hmem : x ∈ s.clients := by simpa [Lib.clients, hm] using hx
        split at hxc
        · rename_i he
          refine .inr ⟨x, hmem, ht, he, ?_⟩
          rw [← hxc, ← (receive_kept ⟨msg.event, msg.src⟩ x).2]
        · rename_i he
          subst hxc
          exact .inl ⟨hmem, fun _ => Bool.eq_false_iff.2 he⟩

theorem Housed.turn (h : Housed here s) (ht : Turn here K l s s') :
    Housed here s' ∧ ∀ m ∈ l, Own here m := by
  cases ht with
  | sends hc hsrc htype =>
    refine ⟨⟨h.placed, ⟨h.ready.here, h.ready.started, h.ready.unstarted⟩⟩, fun m hm => ?_⟩
    obtain rfl := List.mem_singleton.1 hm
    have hp := h.placed _ hc
    refine ⟨?_, ?_, htype⟩
    · rw [hsrc]
      exact hp.loc
    · rw [hsrc]
      exact hp.name
  | takes hd hh =>
    refine ⟨⟨fun c' hc' => ?_, ?_⟩, fun m hm => nomatch hm⟩
    · obtain ⟨hc, -⟩ | ⟨c, hc, -, -, rfl⟩ := mem_clients_handled hh hc'
      · exact h.placed c' hc
      · obtain ⟨hid, hhandle⟩ := receive_kept ⟨_, _⟩ c
        have hp := h.placed c hc
        exact ⟨hid ▸ hp.loc, hid ▸ hp.name, by rw [hhandle, hid]; exact hp.handle⟩
    · have hm := handle_manager hh
      have hp := progress_handle hh
      refine ⟨fun hi => ?_, fun hi => ?_, fun hi => ?_⟩
      · rw [hm] at hi ⊢
        exact h.ready.here hi
      · rw [hm] at hi
        exact lt_of_lt_of_eq (h.ready.started hi) hp.numComponents.symm
      · rw [hm] at hi
        obtain ⟨hnum, hmap, hthread⟩ := h.ready.unstarted hi
        refine ⟨hp.numComponents.trans hnum, hp.map_none hmap, ?_⟩
        rw [(handle_histories hh).2.2]
        exact hthread
  | inside hi =>
    refine ⟨⟨fun c' hc' => ?_, hi.ready h.ready⟩, fun m hm => nomatch hm⟩
    obtain ⟨c, hc, hl⟩ | hf := hi.clients c' hc'
    · exact (h.placed c hc).later hl
    · exact hf.placed

theorem Housed.turns (h : Housed here s) (ht : Turns here K l s s') :
    Housed here s' ∧ ∀ m ∈ l, Own here m := by
  induction ht with
  | refl => exact ⟨h, fun m hm => nomatch hm⟩
  | tail _ hturn ih =>
    obtain ⟨hh, hown⟩ := ih h
    obtain ⟨hh', hown'⟩ := hh.turn hturn
    exact ⟨hh', fun m hm => (List.mem_append.1 hm).elim (hown m) (hown' m)⟩

/-! ## What is sent and handled -/

/-- The messages `l` are sent behind the others, and `got` are taken and handled. -/
structure Trades (l got : List Msg) (s s' : Lib Line) : Prop where
  up : s'.manager.net.up = s.manager.net.up ++ l
  down : s.manager.net.down = got ++ s'.manager.net.down
  handled : s'.handled = s.handled ++ got

theorem Turn.trades (h : Turn here K l s s') : ∃ got, Trades l got s s' := by
  cases h with
  | sends => exact ⟨[], rfl, rfl, (List.append_nil _).symm⟩
  | takes hd hh =>
    have hm := handle_manager hh
    refine ⟨[_], ?_, ?_, (handle_histories hh).1⟩
    · rw [hm, List.append_nil]
      rfl
    · rw [hm]
      exact hd
  | inside hi =>
    refine ⟨[], ?_, ?_, ?_⟩
    · rw [hi.net, List.append_nil]
    · rw [hi.net]
      rfl
    · rw [hi.handled, List.append_nil]

theorem Turns.trades (h : Turns here K l s s') : ∃ got, Trades l got s s' := by
  induction h with
  | refl s => exact ⟨[], (List.append_nil _).symm, rfl, (List.append_nil _).symm⟩
  | tail _ hturn ih =>
    obtain ⟨got, hg⟩ := ih
    obtain ⟨got', hg'⟩ := hturn.trades
    refine ⟨got ++ got', ?_, ?_, ?_⟩
    · rw [hg'.up, hg.up, List.append_assoc]
    · rw [hg.down, hg'.down, List.append_assoc]
    · rw [hg'.handled, hg.handled, List.append_assoc]

/-! ## The queues of a client -/

/-- The events of the messages for the client. -/
def arrivals (h : ClientHandle) (msgs : List Msg) : List EventInst :=
  (msgs.filter fun m => m.msgType == .notify &&
    isEqualClienthandle (convertClientidToClienthandle m.dst.clientId) h).map
    fun m => ⟨m.event, m.src⟩

theorem arrivals_append (h : ClientHandle) (l l' : List Msg) :
    arrivals h (l ++ l') = arrivals h l ++ arrivals h l' := by
  simp [arrivals]

/-- The event of a message, if it is for the client. -/
theorem arrivals_single (h : ClientHandle) (msg : Msg) :
    arrivals h [msg] = if msg.msgType = .notify ∧
      isEqualClienthandle (convertClientidToClienthandle msg.dst.clientId) h = true
      then [⟨msg.event, msg.src⟩] else [] := by
  unfold arrivals
  by_cases ht : msg.msgType = .notify <;>
    by_cases he : isEqualClienthandle (convertClientidToClienthandle msg.dst.clientId) h = true <;>
    simp [ht, he]

/-- A queue of the clients, from which events go when others come or they are given out. -/
structure IsQueue (queue : ClientInfo → List EventInst) : Prop where
  later : ∀ {K} c c', Later K c c' → (queue c').Sublist (queue c)
  receive : ∀ e c, (queue (receive e c)).Sublist (queue c ++ [e])
  fresh : ∀ here c, Fresh here c → queue c = []

/-- It is the handle of a client that does not go by the names of the agents. -/
def Named (h : ClientHandle) : Prop := ∃ id : Id, FTBM.isManagerNameCase id = false ∧
  isEqualClienthandle (convertClientidToClienthandle id.clientId) h = true

/-- The events `es` were given out, and those in the queue of the client come behind them. -/
structure Drawn (queue : ClientInfo → List EventInst) (h : ClientHandle) (es : List EventInst)
    (s : Lib Line) : Prop where
  named : es ≠ [] → Named h
  gone : es.Sublist (arrivals h s.handled)
  left : ∀ c ∈ s.clients, isEqualClienthandle c.clientHandle h = true →
    (es ++ queue c).Sublist (arrivals h s.handled)

section
variable {queue : ClientInfo → List EventInst} {h : ClientHandle} {es : List EventInst}

theorem Drawn.turn (hd : Drawn queue h es s) (hq : IsQueue queue) (ht : Turn here K l s s') :
    Drawn queue h es s' := by
  cases ht with
  | sends => exact ⟨hd.named, hd.gone, hd.left⟩
  | inside hi =>
    refine ⟨hd.named, hi.handled ▸ hd.gone, fun c' hc' he => ?_⟩
    rw [hi.handled]
    obtain ⟨c, hc, hl⟩ | hf := hi.clients c' hc'
    · rw [hl.handle] at he
      exact ((hq.later c c' hl).append_left es).trans (hd.left c hc he)
    · rw [hq.fresh here c' hf, List.append_nil]
      exact hd.gone
  | takes hdown hh =>
    rename_i msg down
    have hhandled : s'.handled = s.handled ++ [msg] := (handle_histories hh).1
    have hmore : (arrivals h s.handled).Sublist (arrivals h s'.handled) := by
      rw [hhandled, arrivals_append]
      exact List.sublist_append_left _ _
    refine ⟨hd.named, hd.gone.trans hmore, fun c' hc' he => ?_⟩
    obtain ⟨hc, -⟩ | ⟨c, hc, hnotify, hec, rfl⟩ := mem_clients_handled hh hc'
    · exact (hd.left c' hc he).trans hmore
    · -- the event is the newest of the arrivals
      rw [(receive_kept ⟨msg.event, msg.src⟩ c).2] at he
      have harrived : arrivals h s'.handled = arrivals h s.handled ++ [⟨msg.event, msg.src⟩] := by
        rw [hhandled, arrivals_append, arrivals_single,
          if_pos ⟨hnotify, KeyEq.trans (KeyEq.symm hec) he⟩]
      rw [harrived]
      refine ((hq.receive ⟨msg.event, msg.src⟩ c).append_left es).trans ?_
      rw [← List.append_assoc]
      exact (hd.left c hc he).append_right _

theorem Drawn.turns (hd : Drawn queue h es s) (hq : IsQueue queue) (ht : Turns here K l s s') :
    Drawn queue h es s' := by
  induction ht with
  | refl => exact hd
  | tail _ hturn ih => exact (ih hd).turn hq hturn

/-- An event is given out that was the first of the queue. -/
theorem Drawn.give (hd : Drawn queue h es s) (hh : Housed here s) {handle : ClientHandle} {c c' : ClientInfo}
    (hl : lookupClientInfo handle s = some (.ok c)) (he : isEqualClienthandle handle h = true)
    {e : EventInst} (hq : queue c = e :: queue { c' with clientHandle := c.clientHandle }) :
    Drawn queue h (es ++ [e]) (s.update handle fun _ => c') := by
  obtain ⟨map, hm, hf⟩ := lookup_iff.1 hl
  obtain ⟨hmem, -, hce⟩ := findClient_some hf
  have hc : c ∈ s.clients := by simpa [Lib.clients, hm] using hmem
  have hleft := hd.left c hc (KeyEq.trans hce he)
  rw [hq, List.append_cons] at hleft
  have hgone : (es ++ [e]).Sublist (arrivals h s.handled) :=
    (List.sublist_append_left _ _).trans hleft
  have hplaced := hh.placed c hc
  refine ⟨fun _ => ⟨c.id, hplaced.name, hplaced.handle ▸ KeyEq.trans hce he⟩, hgone,
    fun x hx hxe => ?_⟩
  simp only [Lib.update, Lib.clients, hm, Option.map_some, Option.getD_some] at hx
  obtain ⟨y, hy, hyx⟩ := KeyList.mem_adjust.1 hx
  split at hyx
  · rename_i hye
    obtain rfl : y = c := map.eq_of_mem hy hmem (KeyEq.trans hye (KeyEq.symm hce))
    exact hyx ▸ hleft
  · rename_i hye
    subst hyx
    exact absurd (KeyEq.trans hxe (KeyEq.symm he)) hye

end

/-! ## The polling queue and the callback queue -/

/-- The events of the polling queue that the mask matches. -/
def polling (mask : Event) (c : ClientInfo) : List EventInst :=
  c.eventQueue.filter fun e => matchMask e.eventInst mask

theorem isQueue_polling (mask : Event) : IsQueue (polling mask) where
  later c c' h := h.events.filter _
  receive e c := by
    have hqueue : (receive e c).eventQueue.Sublist (c.eventQueue ++ [e]) := by
      unfold receive
      split
      · exact List.sublist_append_left _ _
      · unfold utilPushToCompPollingList
        split
        · split
          · exact (List.tail_sublist _).append_right _
          · exact .refl _
        · exact List.sublist_append_left _ _
    refine (hqueue.filter _).trans ?_
    rw [List.filter_append]
    exact List.filter_sublist.append_left _
  fresh here c h := by
    unfold polling
    rw [h.events]
    rfl

theorem polling_callbackEventQueue (e : EventInst) (c : ClientInfo) :
    (utilPushToCompPollingList e c).callbackEventQueue = c.callbackEventQueue := by
  unfold utilPushToCompPollingList
  split
  · split <;> rfl
  · rfl

theorem isQueue_callback : IsQueue ClientInfo.callbackEventQueue where
  later c c' h := h.callbacks
  receive e c := by
    unfold receive
    split
    · exact .refl _
    · rw [polling_callbackEventQueue]
      exact List.sublist_append_left _ _
  fresh here c h := h.callbacks

theorem filter_of_find {A : Type} {p : A → Bool} {x : A} : ∀ {l : List A}, l.find? p = some x →
    l.filter p = x :: (l.eraseP p).filter p := by
  intro l
  induction l with
  | nil =>
    intro h
    cases h
  | cons a l ih =>
    intro h
    by_cases ha : p a = true
    · rw [List.find?_cons_of_pos ha] at h
      obtain rfl := Option.some.inj h
      rw [List.filter_cons_of_pos ha, List.eraseP_cons_of_pos ha]
    · rw [List.find?_cons_of_neg ha] at h
      rw [List.filter_cons_of_neg ha, List.eraseP_cons_of_neg ha, List.filter_cons_of_neg ha]
      exact ih h

/-- The receiver's structure holds the event. -/
def Holds (e : EventInst) (r : ReceiveEvent) : Prop := ∃ bytes, receiveEvent e bytes = some r

/-- `FTBC_Poll_event` gives out the first event of the queue that its mask matches. -/
theorem Drawn.polled {sub : SubscribeHandle} {r : ReceiveEvent} {es : List EventInst}
    (hd : Drawn (polling sub.subscriptionEvent) sub.clientHandle es t) (hh : Housed here t)
    (h : Takes sub r t s') :
    ∃ e, Holds e r ∧ matchMask e.eventInst sub.subscriptionEvent = true ∧
      Drawn (polling sub.subscriptionEvent) sub.clientHandle (es ++ [e]) s' := by
  obtain ⟨c, c', bytes, hl, hq, rfl⟩ := h.found
  simp only [pollQueue] at hq
  split at hq
  · split at hq
    · cases hq
    · rename_i e hf
      simp only [Option.bind_eq_bind, Option.bind_eq_some_iff, Option.pure_def, Option.some.injEq,
        Prod.mk.injEq] at hq
      obtain ⟨r', hr, rfl, rfl⟩ := hq
      have hmatch : matchMask e.eventInst sub.subscriptionEvent = true := by
        simpa using List.find?_some hf
      refine ⟨e, ⟨bytes, hr⟩, hmatch, hd.give hh hl (KeyEq.refl _) ?_⟩
      exact filter_of_find hf
  · cases hq

/-- A callback is run with the first event of the callback queue. -/
theorem Drawn.calledBack {handle h : ClientHandle} {c c' : ClientInfo} {x : CallbackEntry}
    {r : ReceiveEvent} {es : List EventInst} (hd : Drawn ClientInfo.callbackEventQueue h es s)
    (hh : Housed here s) (hl : lookupClientInfo handle s = some (.ok c)) (he : isEqualClienthandle handle h = true)
    (hc : callbackComponent c = some (some (x, r), c')) :
    ∃ e, Holds e r ∧
      Drawn ClientInfo.callbackEventQueue h (es ++ [e]) (s.update handle fun _ => c') := by
  simp only [callbackComponent] at hc
  split at hc
  · cases hc
  · rename_i entry rest hq
    split at hc
    · cases hc
    · simp only [Option.bind_eq_bind, Option.bind_eq_some_iff, Option.pure_def, Option.some.injEq,
        Prod.mk.injEq] at hc
      obtain ⟨r', hr, ⟨-, rfl⟩, rfl⟩ := hc
      exact ⟨entry, ⟨Cell.blank, hr⟩, hd.give hh hl he hq⟩

/-! ## A client that is called back -/

/-- The events that the mask matches. -/
def matched (mask : Event) (es : List EventInst) : List EventInst :=
  es.filter fun e => matchMask e.eventInst mask

theorem matched_append (mask : Event) (es es' : List EventInst) :
    matched mask (es ++ es') = matched mask es ++ matched mask es' :=
  List.filter_append ..

/-- A client, when a message was handled. -/
theorem client_handled {msg : Msg} (h : utilHandleFTBMMsg msg s = some s') {c : ClientInfo}
    (hc : c ∈ s.clients) :
    (msg.msgType = .notify ∧
      isEqualClienthandle (convertClientidToClienthandle msg.dst.clientId) c.clientHandle = true ∧
      receive ⟨msg.event, msg.src⟩ c ∈ s'.clients) ∨
    (¬(msg.msgType = .notify ∧
      isEqualClienthandle (convertClientidToClienthandle msg.dst.clientId) c.clientHandle = true) ∧
      c ∈ s'.clients) := by
  simp only [utilHandleFTBMMsg] at h
  split at h
  · rename_i ht
    cases h
    exact .inr ⟨fun hn => ht hn.1, hc⟩
  · rename_i ht
    rw [not_not] at ht
    split at h
    · cases h
    · rename_i map hm
      have hmem : c ∈ map.nodes := by simpa [Lib.clients, hm] using hc
      split at h
      · cases h
      · rename_i hf
        cases h
        refine .inr ⟨fun hn => ?_, hc⟩
        have hother := (findClient_none hf c hmem).2
        exact Bool.eq_false_iff.1 hother (KeyEq.symm hn.2)
      · cases h
        simp only [Lib.update, Lib.clients, hm, Option.map_some, Option.getD_some]
        by_cases he : isEqualClienthandle c.clientHandle
            (convertClientidToClienthandle msg.dst.clientId) = true
        · refine .inl ⟨ht, KeyEq.symm he, KeyList.mem_adjust.2 ⟨c, hmem, ?_⟩⟩
          rw [if_pos he, ← (receive_kept ⟨msg.event, msg.src⟩ c).2]
        · refine .inr ⟨fun hn => he (KeyEq.symm hn.2), KeyList.mem_adjust.2 ⟨c, hmem, ?_⟩⟩
          rw [if_neg he]

/-- What a client that is called back receives. -/
theorem Serves.receive {h : ClientHandle} {mask : Event} {c : ClientInfo} (hs : Serves h mask c)
    (e : EventInst) : Serves h mask (FTBCI.receive e c) ∧
      matched mask (FTBCI.receive e c).callbackEventQueue =
        matched mask (c.callbackEventQueue ++ [e]) := by
  have hcore := core_receive e c
  have htype : (FTBCI.receive e c).subscriptionType = c.subscriptionType :=
    eq_of_core (f := ClientInfo.subscriptionType) (fun _ => rfl) hcore
  have hmap : (FTBCI.receive e c).callbackMap = c.callbackMap :=
    eq_of_core (f := ClientInfo.callbackMap) (fun _ => rfl) hcore
  refine ⟨⟨?_, ?_, ?_⟩, ?_⟩
  · rw [(receive_kept e c).2]
    exact hs.handle
  · unfold ClientInfo.notifies
    rw [htype]
    exact hs.notifies
  · unfold ClientInfo.callbackEntries
    rw [hmap]
    exact hs.entry
  · unfold FTBCI.receive
    split
    · rfl
    · rename_i hnone
      -- the mask does not match, or the event would be in the callback queue
      have hother : ¬matchMask e.eventInst mask = true := by
        intro hmatch
        obtain ⟨x, hx, hmask⟩ := hs.entry
        refine hnone (Bool.and_eq_true_iff.2 ⟨hs.notifies, List.any_eq_true.2 ⟨x, hx, ?_⟩⟩)
        rw [matchMask_congr hmask]
        exact hmatch
      rw [polling_callbackEventQueue, matched_append]
      simp [matched, hother]

/-- The client is called back for what the mask matches. Of those events, what it was given and what
waits for it are `first` and what has come for it since `before` was handled. -/
def Served (h : ClientHandle) (mask : Event) (first : List EventInst) (before : List Msg)
    (gs : List EventInst) (s : Lib Line) : Prop :=
  ∃ c ∈ s.clients, Serves h mask c ∧ ∃ new, s.handled = before ++ new ∧
    matched mask (gs ++ c.callbackEventQueue) = matched mask (first ++ arrivals h new)

section
variable {h : ClientHandle} {mask : Event} {first gs : List EventInst} {before : List Msg}

theorem Served.turn (hs : Served h mask first before gs s) (hr : Ready here s) (hk : K h mask)
    (ht : Turn here K l s s') : Served h mask first before gs s' := by
  obtain ⟨c, hc, hserves, new, hnew, hgs⟩ := hs
  cases ht with
  | sends => exact ⟨c, hc, hserves, new, hnew, hgs⟩
  | inside hi =>
    obtain ⟨c', hc', hlater⟩ := hi.stays hr c hc ⟨h, mask, hk, hserves⟩
    obtain ⟨hserves', hqueue⟩ := hlater.keeps h mask hk hserves
    exact ⟨c', hc', hserves', new, hi.handled.trans hnew, hqueue ▸ hgs⟩
  | takes hdown hh =>
    rename_i msg down
    have hhandled : s'.handled = before ++ (new ++ [msg]) := by
      rw [← List.append_assoc, ← hnew]
      exact (handle_histories hh).1
    obtain ⟨ht, he, hc'⟩ | ⟨hn, hc'⟩ := client_handled hh hc
    · obtain ⟨hserves', hqueue⟩ := hserves.receive ⟨msg.event, msg.src⟩
      refine ⟨_, hc', hserves', new ++ [msg], hhandled, ?_⟩
      rw [arrivals_append, arrivals_single, if_pos ⟨ht, KeyEq.trans he hserves.handle⟩,
        matched_append, hqueue, ← List.append_assoc, matched_append mask (first ++ _), ← hgs,
        matched_append mask gs, matched_append mask c.callbackEventQueue, List.append_assoc]
    · refine ⟨c, hc', hserves, new ++ [msg], hhandled, ?_⟩
      have hnone : ¬(msg.msgType = .notify ∧
          isEqualClienthandle (convertClientidToClienthandle msg.dst.clientId) h = true) :=
        fun hc => hn ⟨hc.1, KeyEq.trans hc.2 (KeyEq.symm hserves.handle)⟩
      rw [arrivals_append, arrivals_single, if_neg hnone, List.append_nil]
      exact hgs

theorem Served.turns (hs : Served h mask first before gs s) (hh : Housed here s) (hk : K h mask)
    (ht : Turns here K l s s') : Served h mask first before gs s' := by
  induction ht with
  | refl => exact hs
  | tail ht hturn ih => exact (ih hs hh).turn (hh.turns ht).1.ready hk hturn

/-- A callback is run with the first event of the queue. -/
theorem Served.calledBack (hs : Served h mask first before gs s) {handle : ClientHandle}
    {c c' : ClientInfo} (hl : lookupClientInfo handle s = some (.ok c))
    (he : isEqualClienthandle handle h = true) {o : Option (CallbackEntry × ReceiveEvent)}
    (hc : callbackComponent c = some (o, c')) :
    ∃ es, List.Forall₂ Holds es (o.elim [] fun x => [x.2]) ∧
      Served h mask first before (gs ++ es) (s.update handle fun _ => c') := by
  obtain ⟨map, hm, hf⟩ := lookup_iff.1 hl
  obtain ⟨hmem, -, hce⟩ := findClient_some hf
  obtain ⟨x, hx, hserves, new, hnew, hgs⟩ := hs
  have hxm : x ∈ map.nodes := by simpa [Lib.clients, hm] using hx
  obtain rfl : x = c :=
    map.eq_of_mem hxm hmem (KeyEq.trans hserves.handle (KeyEq.symm (KeyEq.trans hce he)))
  have hafter : { c' with clientHandle := x.clientHandle } ∈
      (s.update handle fun _ => c').clients := by
    simp only [Lib.update, Lib.clients, hm, Option.map_some, Option.getD_some]
    exact KeyList.mem_adjust.2 ⟨x, hxm, if_pos hce⟩
  simp only [callbackComponent] at hc
  split at hc
  · cases hc
    exact ⟨[], .nil, _, hafter, hserves, new, hnew, (List.append_nil gs).symm ▸ hgs⟩
  · rename_i entry rest hq
    split at hc
    · cases hc
    · simp only [Option.bind_eq_bind, Option.bind_eq_some_iff, Option.pure_def, Option.some.injEq,
        Prod.mk.injEq] at hc
      obtain ⟨r, hr, rfl, rfl⟩ := hc
      refine ⟨[entry], .cons ⟨Cell.blank, hr⟩ .nil, _, hafter,
        ⟨hserves.handle, hserves.notifies, hserves.entry⟩, new, hnew, ?_⟩
      rw [hq] at hgs
      rw [List.append_assoc]
      exact hgs

end

end E2E
