import Ftb.Client.Bookkeeping
import Ftb.Client.Meaning
import Ftb.Client.Steps
import Ftb.Client.Subscribing
import Ftb.Agent
import Ftb.Manager.Proof.Effect

/-!
# The handle of an event

`FTBC_Publish` returns a handle, and `FTBC_Get_event_handle` makes one of the event that a receiver
got. On the way the event passes agents (`Forwards`), a queue of the receiver (`Received`), copies into
its structure, and a split of the joined event space. `handle_survives` says that the two handles are
the same.
-/

open FTB FTBU FTBN FTBMI FTBCI CStr

/-! ## Agents on the way -/

namespace Agent

open FTBM

variable {N : Type}

/-- The network layer, which also writes down the messages that are given to `FTBN_Send_msg`. -/
def recorded (w : Network N) : Network (N × List Msg) where
  sendMsg msg net := ((w.sendMsg msg net.1).1, (w.sendMsg msg net.1).2, net.2 ++ [msg])
  connect msg parent net :=
    ((w.connect msg parent net.1).1, (w.connect msg parent net.1).2.1,
      (w.connect msg parent net.1).2.2, net.2)
  disconnectPeer l net := ((w.disconnectPeer l net.1).1, (w.disconnectPeer l net.1).2, net.2)

/-- An agent that handles the event `msg` sends the event `msg'`. -/
def Forwards (msg msg' : Msg) : Prop :=
  msg.msgType = .notify ∧ msg'.msgType = .notify ∧
    ∃ (N : Type) (w : Network N) (incomingSrc : LocationId) (a a' : Manager (N × List Msg))
      (sent : List Msg), progressLoop (recorded w) msg incomingSrc a = some a' ∧
        a'.net.2 = a.net.2 ++ sent ∧ msg' ∈ sent

/-- The events among the messages sent in between are copies of `msg`. -/
def Copied (msg : Msg) (log log' : List Msg) : Prop :=
  ∃ sent, log' = log ++ sent ∧
    ∀ m ∈ sent, m.msgType = .notify → m.src = msg.src ∧ m.event = msg.event

namespace Copied

variable {msg : Msg} {log log' log'' : List Msg}

theorem refl (msg : Msg) (log : List Msg) : Copied msg log log :=
  ⟨[], (List.append_nil log).symm, fun _ hm => absurd hm List.not_mem_nil⟩

theorem trans (h : Copied msg log log') (h' : Copied msg log' log'') : Copied msg log log'' := by
  obtain ⟨sent, rfl, hs⟩ := h
  obtain ⟨sent', rfl, hs'⟩ := h'
  refine ⟨sent ++ sent', List.append_assoc _ _ _, fun m hm => ?_⟩
  rcases List.mem_append.1 hm with hm | hm
  · exact hs m hm
  · exact hs' m hm

end Copied

variable {w : Network N} {msg : Msg}

/-- The other messages of an agent are no events. -/
theorem copied_sendAll {msgs : List Msg} (hm : ∀ m ∈ msgs, m.msgType ≠ .notify)
    (net : N × List Msg) : Copied msg net.2 ((recorded w).sendAll msgs net).2 := by
  have hlog : ∀ (msgs : List Msg) (net : N × List Msg),
      ((recorded w).sendAll msgs net).2 = net.2 ++ msgs := by
    intro msgs
    induction msgs with
    | nil => exact fun net => (List.append_nil _).symm
    | cons m msgs ih =>
      intro net
      have h := ih ((recorded w).sendMsg m net).2
      have hm : ((recorded w).sendMsg m net).2.2 ++ msgs = net.2 ++ m :: msgs := by
        simp [recorded]
      exact h.trans hm
  exact ⟨msgs, hlog msgs net, fun m hmem ht => absurd ht (hm m hmem)⟩

theorem type_removeMsgs (s : NodeInfo) (id : Id) (mask : Event) :
    ∀ m ∈ removeMsgs s id mask, m.msgType ≠ .notify := by
  intro m hm
  unfold removeMsgs at hm
  split at hm
  · cases hm
  · split at hm
    · obtain ⟨i, -, rfl⟩ := List.mem_map.1 hm
      nofun
    · cases hm

theorem type_dropMsgs (id : Id) : ∀ (masks : List Event) (s : NodeInfo),
    ∀ m ∈ dropMsgs id masks s, m.msgType ≠ .notify
  | [], _ => fun _ hm => absurd hm List.not_mem_nil
  | mask :: masks, s => by
    intro m hm
    rcases List.mem_append.1 hm with hm | hm
    · exact type_removeMsgs s id mask m hm
    · exact type_dropMsgs id masks _ m hm

theorem type_attachMsgs (s : NodeInfo) (parent : LocationId) :
    ∀ m ∈ attachMsgs s parent, m.msgType ≠ .notify := by
  intro m hm
  unfold attachMsgs registerMsgs at hm
  split at hm
  · split at hm
    · obtain ⟨ent, -, rfl⟩ := List.mem_map.1 hm
      nofun
    · cases hm
  · cases hm

theorem copied_utilReconnect (a : Manager (N × List Msg)) :
    Copied msg a.net.2 (utilReconnect (recorded w) a).net.2 := by
  rw [utilReconnect_eq]
  exact copied_sendAll (type_attachMsgs _ _) _

theorem copied_reattach (m : Msg) (b : Manager (N × List Msg)) :
    Copied msg b.net.2 (reattach (recorded w) m b).net.2 := by
  unfold reattach
  split
  · exact copied_utilReconnect b
  · exact .refl _ _

theorem copied_dropNet (comp : CompInfo) (s : NodeInfo) (net : N × List Msg) :
    Copied msg net.2 (dropNet (recorded w) comp s net).2 := by
  have hdrop : Copied msg net.2
      ((recorded w).sendAll (dropMsgs comp.id comp.catchEventSet.nodes s) net).2 :=
    copied_sendAll (type_dropMsgs _ _ _) net
  unfold dropNet
  dsimp only
  split <;> exact hdrop

/-- `FTBM_Send` of a copy. -/
theorem copied_send {m : Msg} (hsrc : m.src = msg.src) (hevent : m.event = msg.event)
    {a : Manager (N × List Msg)} {r : Ret × Manager (N × List Msg)}
    (h : send (recorded w) m a = some r) : Copied msg a.net.2 r.2.net.2 := by
  have hone : Copied msg a.net.2 ((recorded w).sendMsg m a.net).2.2 := by
    refine ⟨[m], rfl, fun m' hm' _ => ?_⟩
    rw [List.mem_singleton.1 hm']
    exact ⟨hsrc, hevent⟩
  rcases send_inv (recorded w) h with ⟨-, he⟩ | ⟨-, he⟩ | ⟨-, he⟩ | ⟨comp, -, he⟩
  · rw [he]
    exact .refl _ _
  · rw [he]
    exact hone
  · rw [he]
    exact hone.trans (copied_reattach m _)
  · rw [he]
    exact (hone.trans (copied_dropNet comp a.info _)).trans (copied_reattach m _)

theorem copied_notifyLoop {incomingSrc : LocationId} : ∀ {ids : List (Option Id)}
    {a a' : Manager (N × List Msg)},
    notifyLoop (recorded w) msg incomingSrc ids a = some a' → Copied msg a.net.2 a'.net.2 := by
  intro ids
  induction ids with
  | nil =>
    intro a a' h
    cases h
    exact .refl _ _
  | cons id ids ih =>
    intro a a' h
    cases id with
    | none => cases h
    | some id =>
      simp only [notifyLoop] at h
      split at h
      · exact ih h
      · simp only [Option.bind_eq_bind, Option.bind_eq_some_iff] at h
        obtain ⟨⟨ret, b⟩, hsend, hrest⟩ := h
        exact (copied_send rfl rfl hsend).trans (ih hrest)

/-- **An agent forwards the source and the event as they are.** -/
theorem Forwards.same {msg' : Msg} (h : Forwards msg msg') :
    msg'.src = msg.src ∧ msg'.event = msg.event := by
  obtain ⟨ht, ht', N, w, incomingSrc, a, a', sent, hrun, hlog, hmem⟩ := h
  have hcopied : Copied msg a.net.2 a'.net.2 := by
    unfold progressLoop at hrun
    rw [ht] at hrun
    dsimp only at hrun
    split at hrun
    · cases hrun
      exact .refl _ _
    · exact copied_notifyLoop hrun
  obtain ⟨sent', hlog', hs⟩ := hcopied
  rw [hlog] at hlog'
  rw [List.append_cancel_left hlog'] at hmem
  exact hs msg' hmem ht'

theorem forwarded_same {msg' : Msg} (h : Relation.ReflTransGen Forwards msg msg') :
    msg'.src = msg.src ∧ msg'.event = msg.event := by
  induction h with
  | refl => exact ⟨rfl, rfl⟩
  | tail _ hstep ih => exact ⟨hstep.same.1.trans ih.1, hstep.same.2.trans ih.2⟩

end Agent

/-! ## Events in the queues of a receiver -/

namespace FTBC

variable {N : Type} {w : LeafNetwork N} {s s' s'' : Lib N}

/-- Every event in a queue was there before, or is that of a message handled since. -/
structure Draws (s s' : Lib N) : Prop where
  handled : ∀ m ∈ s.handled, m ∈ s'.handled
  queued : ∀ c' ∈ s'.clients, ∀ e ∈ c'.queued, (∃ c ∈ s.clients, e ∈ c.queued) ∨
    ∃ m ∈ s'.handled, m.msgType = .notify ∧ e = ⟨m.event, m.src⟩

namespace Draws

theorem of_clients (hh : s'.handled = s.handled)
    (hc : ∀ c' ∈ s'.clients, ∀ e ∈ c'.queued, ∃ c ∈ s.clients, e ∈ c.queued) : Draws s s' :=
  ⟨fun m hm => by rwa [hh], fun c' hc' e he => .inl (hc c' hc' e he)⟩

/-- The clients are among those before. -/
theorem of_subset (hh : s'.handled = s.handled) (hc : ∀ c' ∈ s'.clients, c' ∈ s.clients) :
    Draws s s' :=
  .of_clients hh fun c' hc' _ he => ⟨c', hc c' hc', he⟩

theorem refl (s : Lib N) : Draws s s := .of_subset rfl fun _ => id

theorem trans (h : Draws s s') (h' : Draws s' s'') : Draws s s'' := by
  refine ⟨fun m hm => h'.handled m (h.handled m hm), fun c hc e he => ?_⟩
  rcases h'.queued c hc e he with ⟨c', hc', he'⟩ | hm
  · rcases h.queued c' hc' e he' with hold | ⟨m, hm, ht, rfl⟩
    · exact .inl hold
    · exact .inr ⟨m, h'.handled m hm, ht, rfl⟩
  · exact .inr hm

end Draws

theorem mem_clients_update {handle : ClientHandle} {f : ClientInfo → ClientInfo} {c' : ClientInfo}
    (h : c' ∈ (s.update handle f).clients) : ∃ x ∈ s.clients, c' = x ∨ c'.queued = (f x).queued := by
  simp only [Lib.update, Lib.clients] at h
  cases hm : s.clientInfoMap with
  | none => simp [hm] at h
  | some map =>
    simp only [hm, Option.map_some, Option.getD_some] at h
    obtain ⟨x, hx, hxc⟩ := KeyList.mem_adjust.1 h
    have hmem : x ∈ s.clients := by simpa [Lib.clients, hm] using hx
    split at hxc
    · exact ⟨x, hmem, .inr (by rw [← hxc]; rfl)⟩
    · exact ⟨x, hmem, .inl hxc.symm⟩

theorem draws_update (handle : ClientHandle) {f : ClientInfo → ClientInfo}
    (hf : ∀ x ∈ s.clients, ∀ e ∈ (f x).queued, ∃ c ∈ s.clients, e ∈ c.queued) :
    Draws s (s.update handle f) := by
  refine .of_clients rfl fun c' hc' e he => ?_
  obtain ⟨x, hx, rfl | heq⟩ := mem_clients_update hc'
  · exact ⟨c', hx, he⟩
  · rw [heq] at he
    exact hf x hx e he

/-- A message adds its event to the queues, and may push the oldest one out. -/
theorem queued_receive {entry : EventInst} {c : ClientInfo} :
    ∀ e ∈ (receive entry c).queued, e ∈ c.queued ∨ e = entry := by
  intro e he
  unfold receive at he
  split at he
  · simp only [ClientInfo.queued, List.mem_append, List.mem_singleton] at he ⊢
    tauto
  · unfold utilPushToCompPollingList at he
    split at he
    · split at he
      · simp only [ClientInfo.queued, List.mem_append, List.mem_singleton] at he ⊢
        have htail : e ∈ c.eventQueue.tail → e ∈ c.eventQueue := List.mem_of_mem_tail
        tauto
      · simp only [ClientInfo.queued, List.mem_append, List.mem_singleton] at he ⊢
        tauto
    · exact .inl he

theorem draws_handle {msg : Msg} (h : utilHandleFTBMMsg msg s = some s') : Draws s s' := by
  have hkeep : Draws s { s with handled := s.handled ++ [msg] } :=
    ⟨fun m hm => List.mem_append_left _ hm, fun c hc e he => .inl ⟨c, hc, he⟩⟩
  simp only [utilHandleFTBMMsg] at h
  split at h
  · cases h
    exact hkeep
  · rename_i ht
    rw [not_not] at ht
    split at h
    · cases h
    · split at h
      · cases h
      · cases h
        exact hkeep
      · cases h
        refine ⟨hkeep.handled, fun c' hc' e he => ?_⟩
        obtain ⟨x, hx, rfl | heq⟩ := mem_clients_update hc'
        · exact .inl ⟨c', hx, he⟩
        · rw [heq] at he
          rcases queued_receive e he with he | rfl
          · exact .inl ⟨x, hx, he⟩
          · exact .inr ⟨msg, List.mem_append_right _ (List.mem_singleton.2 rfl), ht, rfl⟩

theorem draws_sent (h : Sent s s') : Draws s s' := by
  obtain ⟨manager, rfl⟩ := h
  exact .of_subset rfl fun _ => id

theorem draws_getMsg (blocking : Bool) (msg : Msg) (s : Lib N) :
    Draws s (getMsg w blocking msg s).2.2 := .of_subset rfl fun _ => id

theorem draws_inner (h : Inner w s s') : Draws s s' := by
  induction h with
  | refl => exact .refl s
  | tail _ hstep ih =>
    refine ih.trans ?_
    cases hstep with
    | sent hs => exact draws_sent hs
    | received blocking msg _ hh =>
      exact (draws_getMsg blocking msg _).trans (draws_handle hh)
    | tracked track => exact .of_subset rfl fun _ => id
    | updated handle hf => exact draws_update handle hf

/-! ### Connections -/

theorem draws_registerClient {c : ClientInfo} (hc : c.queued = []) {ret : Ret}
    (h : registerClient w c s = some (ret, s')) : Draws s s' := by
  simp only [registerClient] at h
  split at h
  · cases h
  · rename_i map hm
    split at h
    · cases h
    · cases h
      exact .refl s
    · simp only [Option.bind_eq_bind, Option.bind_eq_some_iff] at h
      obtain ⟨⟨r, u⟩, hsend, h⟩ := h
      have hnew : Draws s { s with clientInfoMap := some (map.insert c) } := by
        refine .of_clients rfl fun x hx e he => ?_
        simp only [Lib.clients, Option.map_some, Option.getD_some] at hx
        by_cases hcontains : map.contains c.clientHandle = true
        · rw [KeyList.insert_of_contains hcontains] at hx
          exact ⟨x, by simpa [Lib.clients, hm] using hx, he⟩
        · rw [KeyList.mem_insert (Bool.eq_false_iff.2 hcontains)] at hx
          rcases hx with hx | rfl
          · exact ⟨x, by simpa [Lib.clients, hm] using hx, he⟩
          · rw [hc] at he
            cases he
      have hsent := hnew.trans (draws_sent (sent_sendMsg hsend))
      dsimp only at h
      split at h
      · cases h
        exact hsent.trans (draws_update _ fun x hx e he => ⟨x, hx, he⟩)
      · simp only [Option.bind_eq_some_iff, Option.pure_def, Option.some.injEq,
          Prod.mk.injEq] at h
        obtain ⟨⟨r₂, t⟩, hcheck, -, rfl⟩ := h
        exact hsent.trans (draws_inner (inner_checkProgress hcheck))

theorem draws_addComponent (s : Lib N) : Draws s (addComponent w s) := by
  unfold addComponent
  split
  · exact .of_subset rfl fun _ hc => absurd hc List.not_mem_nil
  · exact .of_subset rfl fun _ => id

theorem draws_startCallback (s : Lib N) : Draws s (startCallback s) := by
  unfold startCallback
  split <;> exact .of_subset rfl fun _ => id

theorem draws_connect {cinfo : Client} {extension : UInt8} {clientHandle out : Option ClientHandle}
    {ret : Ret} (h : connect w cinfo extension clientHandle s = some (ret, out, s')) :
    Draws s s' := by
  simp only [connect] at h
  split at h
  · cases h
    exact .refl s
  · split at h
    · cases h
      exact .refl s
    · split at h
      · cases h
      · cases h
        exact .refl s
      · have hadd := draws_addComponent (w := w) s
        split at h
        · cases h
          exact hadd
        · split at h
          · cases h
            exact hadd
          · simp only [Option.bind_eq_bind, Option.bind_eq_some_iff, Option.pure_def,
              Option.some.injEq, Prod.mk.injEq] at h
            obtain ⟨⟨r, t⟩, hreg, -, -, rfl⟩ := h
            have hreg := draws_registerClient rfl hreg
            split at hreg
            · exact hadd.trans ((draws_startCallback _).trans hreg)
            · exact hadd.trans hreg

theorem draws_removeClient (clientHandle : ClientHandle) (c : ClientInfo) {map : ClientInfoMap}
    (hm : s.clientInfoMap = some map) : Draws s (removeClient w clientHandle c s) := by
  refine .of_subset ?_ fun x hx => ?_
  · unfold removeClient
    grind
  · rw [removeClient_clients hm] at hx
    split at hx
    · cases hx
    · simpa [Lib.clients, hm] using KeyList.mem_of_mem_erase hx

theorem draws_disconnect {clientHandle : ClientHandle} {ret : Ret}
    (h : disconnect w clientHandle s = some (ret, s')) : Draws s s' := by
  simp only [disconnect] at h
  split at h
  · cases h
    exact .refl s
  · split at h
    · cases h
    · cases h
      exact .refl s
    · rename_i c hl
      obtain ⟨map, hm, -⟩ := lookup_iff.1 hl
      simp only [Option.bind_eq_bind, Option.bind_eq_some_iff] at h
      obtain ⟨⟨r, u⟩, hsend, h⟩ := h
      have hsent := sent_sendMsg hsend
      have hum : u.clientInfoMap = some map := hsent.clientInfoMap.trans hm
      dsimp only at h
      split at h
      · cases h
        exact draws_sent hsent
      · simp only [Option.bind_eq_some_iff, Option.pure_def, Option.some.injEq,
          Prod.mk.injEq] at h
        obtain ⟨⟨r₂, t⟩, hcheck, -, rfl⟩ := h
        exact (draws_sent hsent).trans
          ((draws_removeClient clientHandle c hum).trans (draws_inner (inner_checkProgress hcheck)))

theorem draws_call {call : ApiCall} (h : call.run w s = some s') : Draws s s' := by
  cases call with
  | connect cinfo extension handle =>
    obtain ⟨⟨_, _, _⟩, hr, rfl⟩ := Option.map_eq_some_iff.1 h
    exact draws_connect hr
  | disconnect handle =>
    obtain ⟨⟨_, _⟩, hr, rfl⟩ := Option.map_eq_some_iff.1 h
    exact draws_disconnect hr
  | _ => exact draws_inner (inner_call h (by simp) (by simp))

theorem draws_thread {ret : Option Ret} (h : callbackThreadClient w s = some (ret, s')) :
    Draws s s' := by
  simp only [callbackThreadClient] at h
  split at h
  · cases h
    exact .refl s
  · cases h
    exact .refl s
  · rename_i msg _
    have hget := draws_getMsg (w := w) true msg s
    split at h
    · simp only [Option.bind_eq_bind, Option.bind_eq_some_iff, Option.pure_def, Option.some.injEq,
        Prod.mk.injEq] at h
      obtain ⟨t, ht, -, rfl⟩ := h
      have hlast : Draws t { t with callbackThread := .returned } := .of_subset rfl fun _ => id
      exact hget.trans ((draws_sent (sent_utilReconnect ht)).trans hlast)
    · simp only [Option.bind_eq_bind, Option.bind_eq_some_iff, Option.pure_def, Option.some.injEq,
        Prod.mk.injEq] at h
      obtain ⟨t, ht, -, rfl⟩ := h
      have hnext : Draws (getMsg w true msg s).2.2 { (getMsg w true msg s).2.2 with
          callbackThread := .receiving (getMsg w true msg s).2.1 } := .of_subset rfl fun _ => id
      exact hget.trans (hnext.trans (draws_handle ht))

/-- A turn of the component thread hands out the first event of the queue. -/
theorem callbackComponent_spec {c c' : ClientInfo} {o : Option (CallbackEntry × ReceiveEvent)}
    (h : callbackComponent c = some (o, c')) : (∀ e ∈ c'.queued, e ∈ c.queued) ∧
      ∀ x r, o = some (x, r) → ∃ e ∈ c.callbackEventQueue, receiveEvent e Cell.blank = some r := by
  simp only [callbackComponent] at h
  split at h
  · cases h
    exact ⟨fun e => id, nofun⟩
  · rename_i entry rest hq
    split at h
    · cases h
    · simp only [Option.bind_eq_bind, Option.bind_eq_some_iff, Option.pure_def, Option.some.injEq,
        Prod.mk.injEq] at h
      obtain ⟨r', hr, rfl, rfl⟩ := h
      refine ⟨fun e he => ?_, ?_⟩
      · simp only [ClientInfo.queued, List.mem_append, hq, List.mem_cons] at he ⊢
        tauto
      · rintro x r hx
        cases hx
        exact ⟨entry, by simp [hq], hr⟩

/-! ### Runs of a receiver -/

/-- The states of a process: any calls, and turns of its threads. -/
inductive Running (w : LeafNetwork N) : Lib N → Prop
  | initial (net : N) : Running w (Lib.initial net)
  | call {s s' : Lib N} (net : N) (call : ApiCall) : Running w s →
      call.run w (s.withNet net) = some s' → Running w s'
  | thread {s s' : Lib N} (net : N) {ret : Option Ret} : Running w s →
      callbackThreadClient w (s.withNet net) = some (ret, s') → Running w s'
  | component {s : Lib N} {c c' : ClientInfo} {o : Option (CallbackEntry × ReceiveEvent)} :
      Running w s → c ∈ s.clients → callbackComponent c = some (o, c') →
      Running w (s.update c.clientHandle fun _ => c')

/-- The process gets the event by `FTBC_Poll_event` or for a callback. -/
inductive Received (w : LeafNetwork N) : Lib N → ReceiveEvent → Prop
  | poll {s s' : Lib N} (net : N) {subscribeHandle : SubscribeHandle}
      {bytes : Option (Cell.Mem Field)} {ret : Ret} {r : ReceiveEvent} : Running w s →
      pollEvent w subscribeHandle bytes (s.withNet net) = some (ret, some r, s') → Received w s' r
  | callback {s : Lib N} {c c' : ClientInfo} {x : CallbackEntry} {r : ReceiveEvent} :
      Running w s → c ∈ s.clients → callbackComponent c = some (some (x, r), c') → Received w s r

/-- Every event in a queue is that of a message that was handled. -/
def Sourced (s : Lib N) : Prop :=
  ∀ c ∈ s.clients, ∀ e ∈ c.queued, ∃ m ∈ s.handled, m.msgType = .notify ∧ e = ⟨m.event, m.src⟩

theorem Sourced.draws (h : Sourced s) (hd : Draws s s') : Sourced s' := by
  intro c' hc' e he
  rcases hd.queued c' hc' e he with ⟨c, hc, he⟩ | hm
  · obtain ⟨m, hm, ht, rfl⟩ := h c hc e he
    exact ⟨m, hd.handled m hm, ht, rfl⟩
  · exact hm

theorem draws_withNet (net : N) (s : Lib N) : Draws s (s.withNet net) := .of_subset rfl fun _ => id

theorem Running.sourced (h : Running w s) : Sourced s := by
  induction h with
  | initial net => exact fun _ hc => absurd hc List.not_mem_nil
  | call net call _ hrun ih => exact (ih.draws (draws_withNet net _)).draws (draws_call hrun)
  | thread net _ hrun ih => exact (ih.draws (draws_withNet net _)).draws (draws_thread hrun)
  | component _ hc hrun ih =>
    have hqueued := (callbackComponent_spec hrun).1
    exact ih.draws (draws_update _ fun _ _ e he => ⟨_, hc, hqueued e he⟩)

/-- What the receiver gets is a copy of the event of the message. -/
def CopyOf (m : Msg) (r : ReceiveEvent) : Prop :=
  ∃ bytes, receiveEvent ⟨m.event, m.src⟩ bytes = some r

/-- **Every event a receiver gets is that of a notification that it handled.** -/
theorem Received.source {r : ReceiveEvent} (h : Received w s r) :
    ∃ m ∈ s.handled, m.msgType = .notify ∧ CopyOf m r := by
  cases h with
  | @poll s₀ s' net _ _ _ _ hrun hpoll =>
    obtain ⟨-, hout⟩ := inner_pollEvent hpoll
    obtain ⟨t, hst, hts, c, hc, e, he, bytes, hr⟩ := hout r rfl
    have ht := (hrun.sourced.draws (draws_withNet net s₀)).draws (draws_inner hst)
    obtain ⟨m, hm, hty, rfl⟩ := ht c hc e (List.mem_append_left _ he)
    exact ⟨m, (draws_inner hts).handled m hm, hty, bytes, hr⟩
  | @callback _ c _ _ _ hrun hc hcall =>
    obtain ⟨e, he, hr⟩ := (callbackComponent_spec hcall).2 _ _ rfl
    obtain ⟨m, hm, hty, rfl⟩ := hrun.sourced c hc e (List.mem_append_right _ he)
    exact ⟨m, hm, hty, _, hr⟩

/-! ## The handles -/

/-- What `FTBC_Publish` sends is in the handle that it returns. -/
theorem publish_success {handle : ClientHandle} {eventName : CStr}
    {properties : Option EventProperties} {eventHandle : Option EventHandle} {p : EventHandle}
    (h : publish w handle eventName properties eventHandle s = some (.success, some p, s')) :
    ∃ msg t, msg.msgType = .notify ∧ sendMsg w msg t = some (.success, s') ∧
      p = publishedHandle msg ∧ msg.event.region = handle.clientId.region ∧
      msg.event.compCat = handle.clientId.compCat ∧ msg.event.comp = handle.clientId.comp := by
  simp only [publish] at h
  split at h
  · cases h
  · split at h
    · cases h
    · split at h
      · cases h
      · rw [Option.bind_eq_bind, Option.bind_eq_some_iff] at h
        obtain ⟨⟨r, t⟩, -, h⟩ := h
        dsimp only at h
        split at h
        · cases h
        · rename_i ret hl
          simp only [Option.pure_def, Option.some.injEq, Prod.mk.injEq] at h
          exact absurd h.1 (lookup_error hl)
        · split at h
          · cases h
          · split at h
            · cases h
            · simp only [Option.bind_eq_some_iff, Option.pure_def, Option.some.injEq,
                Prod.mk.injEq] at h
              obtain ⟨⟨r₂, u⟩, hsend, rfl, rfl, rfl⟩ := h
              exact ⟨_, _, rfl, hsend, rfl, rfl, rfl, rfl⟩

/-- The handle of a received event, where `FTBCI_Check_progress` returns. -/
theorem getEventHandle_eq {r : ReceiveEvent} {region compCat comp : CStr} {ext : UInt8}
    {seqnum : UInt16} {locationId : LocationId}
    (hsplit : splitNamespace r.eventSpace = some (.ok (region, compCat, comp)))
    (hext : r.clientExtension = some ext) (hseq : r.seqnum = some seqnum)
    (hsrc : r.incomingSrc = some locationId) (old : EventHandle) (u : Lib N) :
    getEventHandle w r old u = (checkProgress w u).map fun x =>
      (.success,
        { eventName := r.eventName, severity := r.severity
          clientId := { region, compCat, comp, clientName := r.clientName, ext }
          seqnum, locationId }, x.2) := by
  simp only [getEventHandle, hsplit, hext, hseq, hsrc]
  cases checkProgress w u <;> rfl

theorem equalEventHandles_self (p : EventHandle) : equalEventHandles p p = true := by
  have hself : ∀ a : CStr, strcaseEq a a = true := fun a => KeyEq.refl a
  simp [equalEventHandles, hself]

/-- The received event `r` gives the handle `q`, which equals the published handle `p`: the two calls
return `FTB_SUCCESS` wherever the `FTBCI_Check_progress` in them returns, which it does in a process
whose clients are all there. -/
structure SameHandle (w : LeafNetwork N) (p q : EventHandle) (r : ReceiveEvent) : Prop where
  fits : (concatenateStrings p.clientId.region p.clientId.compCat p.clientId.comp).length <
    maxEventspace
  joined : r.eventSpace = concatenateStrings p.clientId.region p.clientId.compCat p.clientId.comp
  split : splitNamespace r.eventSpace =
    some (.ok (p.clientId.region, p.clientId.compCat, p.clientId.comp))
  extension : r.clientExtension = some p.clientId.ext
  seqnum : r.seqnum = some p.seqnum
  incomingSrc : r.incomingSrc = some p.locationId
  get : ∀ old u, getEventHandle w r old u = (checkProgress w u).map fun x => (.success, q, x.2)
  compare : ∀ {N' : Type} (w' : LeafNetwork N') (u : Lib N'),
    compareEventHandles w' p q u = (checkProgress w' u).map fun x => (.success, x.2)
  getReturns : ∀ old u, Sound u → ∃ u', getEventHandle w r old u = some (.success, q, u')
  compareReturns : ∀ {N' : Type} (w' : LeafNetwork N') (u : Lib N'), Sound u →
    ∃ u', compareEventHandles w' p q u = some (.success, u')

/-- **Every receiver that gets a published event gets the handle of its publisher**, after any number
of agents forwarded it. -/
theorem handle_survives {cinfo : Client} {extension : UInt8} {clientHandle : Option ClientHandle}
    {handle : ClientHandle} {s₀ s₁ : Lib N}
    (hconnect : connect w cinfo extension clientHandle s₀ = some (.success, some handle, s₁))
    {eventName : CStr} {properties : Option EventProperties} {eventHandle : Option EventHandle}
    {p : EventHandle}
    (hpublish : publish w handle eventName properties eventHandle s =
      some (.success, some p, s')) :
    ∃ msg t, msg.msgType = .notify ∧ sendMsg w msg t = some (.success, s') ∧
      ∀ {NR : Type} (wR : LeafNetwork NR) {u : Lib NR} {r : ReceiveEvent}, Received wR u r →
        (∃ m ∈ u.handled, m.msgType = .notify ∧ CopyOf m r) ∧
          ∀ m ∈ u.handled, CopyOf m r → Relation.ReflTransGen Agent.Forwards msg m →
            ∃ q, SameHandle wR p q r := by
  obtain ⟨id, _, _, -, hsplit, -, -, hout, -⟩ := connect_success hconnect
  have hhandle : handle.clientId = id.clientId := by
    cases hout
    rfl
  obtain ⟨msg, t, ht, hsend, rfl, hregion, hcompCat, hcomp⟩ := publish_success hpublish
  rw [hhandle] at hregion hcompCat hcomp
  refine ⟨msg, t, ht, hsend, fun wR u r hr => ⟨hr.source, fun m _ hcopy hfwd => ?_⟩⟩
  obtain ⟨bytes, hcopy⟩ := hcopy
  obtain ⟨hsrc, hevent⟩ := Agent.forwarded_same hfwd
  rw [hsrc, hevent] at hcopy
  obtain ⟨hext, hseq, hloc⟩ := receiveEvent_fields hcopy
  -- the strings that are copied as strings
  have hstrings : r.eventSpace =
        concatenateStrings msg.event.region msg.event.compCat msg.event.comp ∧
      r.eventName = msg.event.eventName ∧ r.severity = msg.event.severity ∧
      r.clientName = msg.event.clientName := by
    simp only [receiveEvent] at hcopy
    split at hcopy
    · cases hcopy
    · cases hcopy
      exact ⟨rfl, rfl, rfl, rfl⟩
  obtain ⟨hspace, hname, hseverity, hclient⟩ := hstrings
  have hjoined : concatenateStrings msg.event.region msg.event.compCat msg.event.comp =
      cinfo.eventSpace := by
    rw [hregion, hcompCat, hcomp]
    exact (splitNamespace_ok_iff.1 hsplit).joined
  have hagain : splitNamespace r.eventSpace =
      some (.ok (msg.event.region, msg.event.compCat, msg.event.comp)) := by
    rw [hspace, hjoined, hsplit, hregion, hcompCat, hcomp]
  have hget : ∀ old v, getEventHandle wR r old v =
      (checkProgress wR v).map fun x => (.success, publishedHandle msg, x.2) := by
    intro old v
    rw [getEventHandle_eq hagain hext hseq hloc, hname, hseverity, hclient]
    rfl
  have hcompare : ∀ {N' : Type} (w' : LeafNetwork N') (v : Lib N'),
      compareEventHandles w' (publishedHandle msg) (publishedHandle msg) v =
        (checkProgress w' v).map fun x => (.success, x.2) := by
    intro N' w' v
    simp only [compareEventHandles, equalEventHandles_self, if_true]
    cases checkProgress w' v <;> rfl
  refine ⟨publishedHandle msg, ?_, hspace, hagain, hext, hseq, hloc, hget, hcompare,
    fun old v hv => ?_, fun w' v hv => ?_⟩
  · exact lt_of_eq_of_lt (congrArg List.length hjoined) (splitNamespace_ok_iff.1 hsplit).short
  · obtain ⟨ret, v', hprogress⟩ := checkProgress_returns (w := wR) hv
    exact ⟨v', by rw [hget, hprogress]; rfl⟩
  · obtain ⟨ret, v', hprogress⟩ := checkProgress_returns (w := w') hv
    exact ⟨v', by rw [hcompare, hprogress]; rfl⟩

/-! ### A published event -/

/-- The client has declared one event. -/
def declareOne (c : ClientInfo) : ClientInfo :=
  { c with declaredEventsMap := .insert .empty ⟨"SIMPLE_EVENT".toList, "info".toList⟩ }

/-- A client that connects and publishes, and an agent with process id 1. -/
def publisherRun : Option (ClientHandle × Lib (List Msg) × EventHandle × Lib (List Msg)) :=
  let w := leafOutbox { (default : LocationId) with pid := 1 }
  match connect w
    { eventSpace := "FTB.FTB_EXAMPLES.SIMPLE".toList, clientName := "simple".toList
      clientJobid := [], clientSubscriptionStyle := "FTB_SUBSCRIPTION_NONE".toList
      clientPollingQueueLen := 0 } 0 (some default) (Lib.initial []) with
  | some (.success, some handle, s) =>
    match publish w handle "simple_event".toList none (some default) (s.update handle declareOne) with
    | some (.success, some p, s') => some (handle, s, p, s')
    | _ => none
  | _ => none

/-- The layer of a process whose agent sent it the messages of the state. -/
def inbox : LeafNetwork (List Msg) where
  sendMsg _ net := (.success, net)
  connect _ _ net := (.success, { (default : LocationId) with pid := 1 }, net)
  disconnectPeer _ net := (.success, net)
  init net := (default, net)
  recvMsg _ net :=
    match net with
    | [] => (.noMsg, default, [])
    | msg :: net => (.success, msg, net)
  finalize net := net
  waiting := List.length
  waiting_lt {net net' msg} h := by
    cases net with
    | nil => cases h
    | cons m net =>
      cases h
      exact Nat.lt_succ_self _

/-- A client that connects and subscribes to all events, to poll them. -/
def watchRun : Option (SubscribeHandle × Lib (List Msg)) :=
  match connect inbox
    { eventSpace := "FTB.FTB_EXAMPLES.WATCH".toList, clientName := "watch".toList
      clientJobid := [], clientSubscriptionStyle := "FTB_SUBSCRIPTION_POLLING".toList
      clientPollingQueueLen := 0 } 0 (some default) (Lib.initial []) with
  | some (.success, some handle, s) =>
    match subscribeWithPolling inbox (some default) handle (some []) s with
    | some (.success, some sh, s') => some (sh, s')
    | _ => none
  | _ => none

theorem running_watchRun {sh : SubscribeHandle} {s : Lib (List Msg)} (h : watchRun = some (sh, s)) :
    Running inbox s := by
  simp only [watchRun] at h
  split at h
  · rename_i handle s₁ hconnect
    have h₁ : Running inbox s₁ :=
      .call [] (.connect _ 0 (some default)) (.initial []) (by
        rw [ApiCall.run, show (Lib.initial []).withNet [] = (Lib.initial [] : Lib (List Msg)) from rfl,
          hconnect]
        rfl)
    split at h
    · rename_i sh s₂ hsub
      cases h
      refine .call s₁.manager.net (.subscribeWithPolling (some default) handle (some [])) h₁ ?_
      rw [ApiCall.run, show s₁.withNet s₁.manager.net = s₁ from rfl, hsub]
      rfl
    · cases h
  · cases h

/-- The agent of the client that holds the subscription, and what it sends when it is given `msg`. -/
def forwardedBy (sh : SubscribeHandle) (msg : Msg) :
    Option (Manager (List Msg × List Msg) × Manager (List Msg × List Msg)) :=
  let id : Id := { locationId := default, clientId := sh.clientHandle.clientId }
  let w := Agent.recorded outbox
  let a := (FTBM.clientRegister w id (FTBM.init w false default ([], [])).2).2
  let a := (FTBM.registerSubscription w id sh.subscriptionEvent a).2
  (Agent.progressLoop w msg default a).map (a, ·)

/-- The message of the publisher, what the agent made of it, and the receiver before and after it is
polled. -/
structure Delivery where
  p : EventHandle
  published : Lib (List Msg)
  msg : Msg
  sh : SubscribeHandle
  watching : Lib (List Msg)
  before : Manager (List Msg × List Msg)
  after : Manager (List Msg × List Msg)
  msg' : Msg
  ret : Ret
  r : Option ReceiveEvent
  polled : Lib (List Msg)

def deliveryRun : Option Delivery := do
  let (_, _, p, published) ← publisherRun
  let msg ← published.manager.net.getLast?
  let (sh, watching) ← watchRun
  let (before, after) ← forwardedBy sh msg
  let msg' ← after.net.2.getLast?
  let (ret, r, polled) ← pollEvent inbox sh (some Cell.blank) (watching.withNet [msg'])
  pure { p, published, msg, sh, watching, before, after, msg', ret, r, polled }

theorem getLast?_sendMsg {parent : LocationId} {msg : Msg} {s s' : Lib (List Msg)}
    (h : sendMsg (leafOutbox parent) msg s = some (.success, s')) :
    s'.manager.net.getLast? = some msg := by
  simp only [sendMsg, FTBM.send, Option.bind_eq_bind, Option.bind_eq_some_iff, Option.pure_def,
    Option.some.injEq, Prod.mk.injEq] at h
  obtain ⟨⟨ret, manager⟩, hsend, rfl, rfl⟩ := h
  split at hsend
  · cases hsend
  · simp only [leafOutbox, outbox, if_true, Option.some.injEq, Prod.mk.injEq] at hsend
    obtain ⟨-, rfl⟩ := hsend
    simp

/-- The event of the client passes an agent, and a second client polls it: it gets the handle of the
publisher. -/
theorem handle_survives_simple : ∃ (handle : ClientHandle) (s s' : Lib (List Msg)) (p : EventHandle)
    (msg msg' : Msg) (sh : SubscribeHandle) (u u' : Lib (List Msg)) (r : ReceiveEvent)
    (q : EventHandle),
    publisherRun = some (handle, s, p, s') ∧ s'.manager.net.getLast? = some msg ∧
      Agent.Forwards msg msg' ∧ watchRun = some (sh, u) ∧
      pollEvent inbox sh (some Cell.blank) (u.withNet [msg']) = some (.success, some r, u') ∧
      SameHandle inbox p q r := by
  have hany : deliveryRun.any (fun d => decide (d.msg'.msgType = .notify ∧
      d.after.net.2 = d.before.net.2 ++ [d.msg'] ∧ d.ret = .success ∧ d.r.isSome = true ∧
      d.polled.handled = [d.msg'])) = true := by
    decide +kernel
  obtain ⟨d, hd, hx⟩ := (Option.any_eq_true _ _).1 hany
  obtain ⟨hnotify, hsent, hret, hr, hhandled⟩ := of_decide_eq_true hx
  simp only [deliveryRun, Option.bind_eq_bind, Option.bind_eq_some_iff, Option.pure_def,
    Option.some.injEq] at hd
  obtain ⟨⟨handle, s, p, s'⟩, hpub, msg, hmsg, ⟨sh, u⟩, hwatch, ⟨a, a'⟩, hfwd, msg', hmsg',
    ⟨ret, r, u'⟩, hpoll, rfl⟩ := hd
  obtain ⟨r, rfl⟩ := Option.isSome_iff_exists.1 hr
  obtain rfl : ret = .success := hret
  have hreceived : Received inbox u' r := .poll [msg'] (running_watchRun hwatch) hpoll
  have hrun := hpub
  simp only [publisherRun] at hrun
  split at hrun
  · rename_i hconnect
    split at hrun
    · rename_i hpublish
      cases hrun
      obtain ⟨m, t, hm, hsend, hall⟩ := handle_survives hconnect hpublish
      obtain rfl : m = msg := Option.some.inj ((getLast?_sendMsg hsend).symm.trans hmsg)
      obtain ⟨⟨m', hmem, -, hcopy⟩, hsame⟩ := hall inbox hreceived
      obtain rfl : m' = msg' := List.mem_singleton.1 (hhandled ▸ hmem)
      obtain ⟨b, hb, hab⟩ := Option.map_eq_some_iff.1 hfwd
      cases hab
      have hforwards : Agent.Forwards m m' :=
        ⟨hm, hnotify, _, outbox, default, _, _, [m'], hb, hsent, List.mem_singleton_self _⟩
      obtain ⟨q, hq⟩ := hsame m' hmem hcopy (.single hforwards)
      exact ⟨handle, _, _, p, m, m', sh, u, u', r, q, hpub, hmsg, hforwards, hwatch, hpoll, hq⟩
    · cases hrun
  · cases hrun

end FTBC
