import Ftb.Client.Subscribing
import Ftb.Client.Callbacks
import Ftb.Manager.Catchers

/-!
# The masks of a client, at the client and at its agent

The client keeps its masks in two maps that are compared with `FTBU_is_equal_event`, the agent in one
set that is compared with `FTBU_is_equal_event_mask`. `Hears` is an agent that handles the messages of
a client's calls, and `Held` what they leave there. `restored_iff` says when the maps of the client
hold the same masks, `unharmed_iff` which events still reach the client after an unsubscription.
-/

open FTB FTBU FTBN FTBMI FTBCI Trace

namespace FTBC

variable {N : Type} {w : LeafNetwork N} {s s' : Lib N} {handle : ClientHandle}

/-! ## The messages of the calls -/

/-- The mask of the call. -/
def SubEvent.mask : SubEvent → Event
  | .polling mask => mask
  | .callback mask _ _ => mask
  | .cancel mask => mask

/-- The type of the message of the call. -/
def SubEvent.msgType : SubEvent → MsgType
  | .polling _ => .regSubscription
  | .callback _ _ _ => .regSubscription
  | .cancel _ => .subscriptionCancel

/-- The message of a call of the client. -/
def SubEvent.IsMsg (id : Id) (e : SubEvent) (msg : Msg) : Prop :=
  msg.msgType = e.msgType ∧ msg.src = id ∧ msg.event = e.mask

/-- Every call of a run sent its message with success. -/
theorem Subscribed.sent {id : Id} {calls : List (SubCall N)} {handles : List SubscribeHandle}
    (h : Subscribed w handle id calls handles s) : ∀ d ∈ calls, ∃ msg t t',
      d.event.IsMsg id msg ∧ sendMsg w msg t = some (.success, t') := by
  induction h with
  | connect => simp
  | @polling calls handles s s' subscribeHandle str sh hr hcall ih =>
    obtain ⟨jobid, ty, len, -, -, ht⟩ := hr.traced
    obtain ⟨event, hout, -, -, msg, t, htype, hsrc, hevent, hsend⟩ :=
      subscribeWith_success local_addToPollingMap ht.now hcall
    cases hout
    rw [(replay_style _ calls).2] at hsrc
    rw [List.forall_mem_append, List.forall_mem_singleton]
    exact ⟨ih, msg, t, _, ⟨htype, hsrc, hevent⟩, hsend⟩
  | @callback calls handles s s' subscribeHandle str callback arg sh hr hcall ih =>
    obtain ⟨jobid, ty, len, -, -, ht⟩ := hr.traced
    obtain ⟨event, hout, -, -, msg, t, htype, hsrc, hevent, hsend⟩ :=
      subscribeWith_success (local_addToCallbackMap callback arg) ht.now hcall
    cases hout
    rw [(replay_style _ calls).2] at hsrc
    rw [List.forall_mem_append, List.forall_mem_singleton]
    exact ⟨ih, msg, t, _, ⟨htype, hsrc, hevent⟩, hsend⟩
  | @unsubscribe calls handles s s' k sh sh' hr hk hcall ih =>
    obtain ⟨jobid, ty, len, -, hhandles, ht⟩ := hr.traced
    have hsh : sh.clientHandle = handle := hhandles sh (List.mem_of_getElem? hk)
    have hnow := ht.now
    rw [← hsh] at hnow
    obtain ⟨-, -, -, msg, t, htype, hsrc, hevent, hsend⟩ := unsubscribe_success hnow hcall
    rw [(replay_style _ calls).2] at hsrc
    rw [List.forall_mem_append, List.forall_mem_singleton]
    exact ⟨ih, msg, s, t, ⟨htype, hsrc, hevent⟩, hsend⟩
  | thread _ _ ih => exact ih
  | component _ _ _ ih => exact ih

/-! ## What the messages leave at the agent -/

/-- It subscribes a mask equal to the mask. -/
def SubEvent.subscribesMask : SubEvent → Event → Bool
  | .polling m, mask => isEqualEventMask m mask
  | .callback m _ _, mask => isEqualEventMask m mask
  | .cancel _, _ => false

/-- It unsubscribes a mask equal to the mask. -/
def SubEvent.cancelsMask : SubEvent → Event → Bool
  | .cancel m, mask => isEqualEventMask m mask
  | _, _ => false

/-- The client subscribed the mask, and did not unsubscribe it since. -/
def Held (events : List SubEvent) (mask : Event) : Prop :=
  Since (fun _ e => e.subscribesMask mask = true) (fun e => e.cancelsMask mask = true) events

theorem held_concat (events : List SubEvent) (e : SubEvent) (mask : Event) :
    Held (events ++ [e]) mask ↔ e.subscribesMask mask = true ∨
      (Held events mask ∧ e.cancelsMask mask = false) := by
  unfold Held
  rw [since_concat, Bool.not_eq_true]

end FTBC

namespace Agent

open FTBM FTBC

variable {N : Type} {w : Network N}

/-- The message changes what the agent has of the component: it comes from the component, or tells that
its process is gone. -/
def concerns (id : Id) (m : Msg × LocationId) : Bool :=
  match m.1.msgType with
  | .clientReg => isEqualFtbId m.1.src id
  | .clientDereg => isEqualFtbId m.1.src id
  | .regSubscription => isEqualFtbId m.1.src id
  | .subscriptionCancel => isEqualFtbId m.1.src id
  | .cleanupConn => isEqualLocationId m.2 id.locationId
  | _ => false

/-- An agent that handles the registration of the client `id`, which it did not know, and then the
messages of its calls, and in between other messages. -/
inductive Hears (w : Network N) (id : Id) : List SubEvent → Manager (N × List Incident) → Prop
  | register {location : LocationId} {net : N} {msgs : List (Msg × LocationId)}
      {m : Msg × LocationId} {a a' : Manager (N × List Incident)} :
      (∀ m ∈ msgs, m.1.msgType ≠ .notify) → run w location net msgs = some a →
      a.info.isPeer id = false → m.1.msgType = .clientReg → m.1.src = id →
      turn w a m = some a' → Hears w id [] a'
  | event {events : List SubEvent} {e : SubEvent} {m : Msg × LocationId}
      {a a' : Manager (N × List Incident)} : Hears w id events a → e.IsMsg id m.1 →
      turn w a m = some a' → Hears w id (events ++ [e]) a'
  | other {events : List SubEvent} {m : Msg × LocationId} {a a' : Manager (N × List Incident)} :
      Hears w id events a → m.1.msgType ≠ .notify → concerns id m = false →
      turn w a m = some a' → Hears w id events a'

/-- Only attachments. -/
def Attaches (incidents : List Incident) : Prop := ∀ x ∈ incidents, ∃ i, x = .attach i

theorem registered_attaches {hist rest : List Incident} (hrest : Attaches rest) {i : Id}
    (h : Registered hist i) : Registered (hist ++ rest) i := by
  induction rest using List.reverseRecOn with
  | nil => rwa [List.append_nil]
  | append_singleton rest x ih =>
    obtain ⟨j, rfl⟩ := hrest x (by simp)
    rw [← List.append_assoc, registered_concat]
    exact .inr ⟨ih fun y hy => hrest y (List.mem_append_left _ hy), rfl⟩

theorem holds_attaches {hist rest : List Incident} (hrest : Attaches rest) (i : Id) (m : Event) :
    Holds (hist ++ rest) i m ↔ Holds hist i m := by
  induction rest using List.reverseRecOn with
  | nil => rw [List.append_nil]
  | append_singleton rest x ih =>
    obtain ⟨j, rfl⟩ := hrest x (by simp)
    rw [← List.append_assoc, holds_concat, ih fun y hy => hrest y (List.mem_append_left _ hy)]
    simp [Incident.subscribes, Incident.removes, Incident.cancels]

theorem log_utilReconnect (a : Manager (N × List Incident)) :
    ∃ rest, (utilReconnect (logged w) a).net.2 = a.net.2 ++ rest ∧ Attaches rest := by
  rw [utilReconnect_eq, log_sendAll]
  refine ⟨_, rfl, ?_⟩
  split <;> simp [Attaches]

/-- The agent drops something, with or without a reconnection after it. -/
theorem log_dropped {a a' : Manager (N × List Incident)} {info : NodeInfo} {c : Prop}
    (h : a' = a ∧ c ∨ ∃ net, Traffic (logged w) a.net net ∧
      (a' = ⟨info, net⟩ ∨ a' = utilReconnect (logged w) ⟨info, net⟩)) :
    ∃ rest, a'.net.2 = a.net.2 ++ rest ∧ Attaches rest := by
  have hnil : Attaches [] := by simp [Attaches]
  rcases h with ⟨rfl, -⟩ | ⟨net, hn, rfl | rfl⟩
  · exact ⟨[], (List.append_nil _).symm, hnil⟩
  · exact ⟨[], by rw [List.append_nil]; exact log_of_traffic w hn, hnil⟩
  · obtain ⟨rest, hrest, ha⟩ := @log_utilReconnect _ w ⟨info, net⟩
    refine ⟨rest, ?_, ha⟩
    rw [hrest]
    exact congrArg (· ++ rest) (log_of_traffic w hn)

/-- A turn writes down what the message tells, and the parents the agent attaches to. -/
theorem log_turn {a a' : Manager (N × List Incident)} {m : Msg × LocationId}
    (h : turn w a m = some a') (hs : Sim a.info a.net.2) (hm : m.1.msgType ≠ .notify) :
    ∃ rest, a'.net.2 = a.net.2 ++ incidents m.1 m.2 ++ rest ∧ Attaches rest := by
  have hnil : Attaches [] := by simp [Attaches]
  obtain ⟨msg, src⟩ := m
  obtain ⟨info, net⟩ := a
  unfold turn progressLoop at h
  unfold incidents at h ⊢
  cases ht : msg.msgType with
  | notify => exact absurd ht hm
  | clientReg =>
    simp only [ht, Option.some.injEq, clientRegister_eq, hs.ready, if_true] at h
    exact ⟨[], by rw [← h, log_sendAll, List.append_nil], hnil⟩
  | clientDereg =>
    simp only [ht, Option.some.injEq] at h
    have hcases := clientDeregister_cases (logged w) msg.src
      ⟨info, net.1, net.2 ++ [.deregister msg.src]⟩
    rw [h] at hcases
    exact log_dropped hcases
  | cleanupConn =>
    simp only [ht, Option.some.injEq] at h
    have hcases := cleanupConnection_cases (logged w) src
      ⟨info, net.1, net.2 ++ [.cleanup src]⟩
    rw [h] at hcases
    exact log_dropped hcases
  | regSubscription =>
    simp only [ht, Option.some.injEq, registerSubscription_eq, hs.ready, if_true] at h
    exact ⟨[], by rw [← h, log_sendAll, List.append_nil], hnil⟩
  | subscriptionCancel =>
    simp only [ht, Option.some.injEq, cancelSubscription_eq, hs.ready, if_true] at h
    exact ⟨[], by rw [← h, log_sendAll, List.append_nil], hnil⟩
  | regPublishableEvent =>
    simp only [ht, Option.some.injEq] at h
    exact ⟨[], by simp [← h], hnil⟩
  | publishableEventRegCancel =>
    simp only [ht, Option.some.injEq] at h
    exact ⟨[], by simp [← h], hnil⟩
  | unknown t =>
    simp only [ht, Option.some.injEq] at h
    exact ⟨[], by simp [← h], hnil⟩

theorem other_incidents (hist : List Incident) {id : Id} {m : Msg × LocationId}
    (h : concerns id m = false) :
    (Registered (hist ++ incidents m.1 m.2) id ↔ Registered hist id) ∧
      ∀ mask, Holds (hist ++ incidents m.1 m.2) id mask ↔ Holds hist id mask := by
  unfold concerns at h
  unfold incidents
  cases ht : m.1.msgType <;> simp only [ht] at h ⊢ <;>
    simp [registered_concat, holds_concat, Incident.adds, Incident.removes, Incident.subscribes,
      Incident.cancels, h]

/-- What the agent has of a client whose calls it handled. -/
structure Heard (s : NodeInfo) (hist : List Incident) (id : Id) (events : List SubEvent) : Prop where
  sim : Sim s hist
  registered : Registered hist id
  holds : ∀ m, Holds hist id m ↔ Held events m

theorem Heard.attaches {s' : NodeInfo} {hist rest : List Incident} {id : Id}
    {events : List SubEvent} (hr : Registered hist id) (hh : ∀ m, Holds hist id m ↔ Held events m)
    (hs : Sim s' (hist ++ rest)) (ha : Attaches rest) : Heard s' (hist ++ rest) id events :=
  ⟨hs, registered_attaches ha hr, fun m => (holds_attaches ha id m).trans (hh m)⟩

/-- An agent that heard the calls of a client holds the masks that they leave. -/
theorem Hears.heard {id : Id} {events : List SubEvent} {a : Manager (N × List Incident)}
    (h : Hears w id events a) : Heard a.info a.net.2 id events := by
  induction h with
  | @register location net msgs m a a' hmsgs hrun hpeer ht hsrc hturn =>
    obtain ⟨b, hb, hsim⟩ := Sim.foldlM_turn w msgs hmsgs (sim_init w location net)
    obtain rfl : b = a := Option.some.inj (hb.symm.trans hrun)
    have hm : m.1.msgType ≠ .notify := by simp [ht]
    obtain ⟨c, hc, hsim'⟩ := hsim.turn w m hm
    obtain rfl : c = a' := Option.some.inj (hc.symm.trans hturn)
    obtain ⟨rest, hlog, ha⟩ := log_turn hturn hsim hm
    rw [hlog] at hsim' ⊢
    have hinc : incidents m.1 m.2 = [.register id] := by simp [incidents, ht, hsrc]
    rw [hinc] at hsim' ⊢
    have hself : isEqualFtbId id id = true := KeyEq.refl id
    refine .attaches ?_ (fun mask => ?_) hsim' ha
    · rw [registered_concat]
      exact .inl hself
    · -- nothing was listed for the client, which was not a peer
      have hno : ¬Holds b.net.2 id mask := by
        rw [← hsim.listed, hsim.inv.listed_of_not_isPeer hpeer mask]
        decide
      rw [holds_concat]
      simp [hno, Incident.subscribes, Held]
  | @event events e m a a' _ hmsg hturn ih =>
    obtain ⟨ht, hsrc, hevent⟩ := hmsg
    have hm : m.1.msgType ≠ .notify := by
      rw [ht]
      cases e <;> simp [SubEvent.msgType]
    obtain ⟨c, hc, hsim'⟩ := ih.sim.turn w m hm
    obtain rfl : c = a' := Option.some.inj (hc.symm.trans hturn)
    obtain ⟨rest, hlog, ha⟩ := log_turn hturn ih.sim hm
    rw [hlog] at hsim' ⊢
    have hself : isEqualFtbId id id = true := KeyEq.refl id
    cases e with
    | polling mask | callback mask f arg =>
      have hinc : incidents m.1 m.2 = [.subscribe id mask] := by
        simp only [SubEvent.msgType, SubEvent.mask] at ht hevent
        simp [incidents, ht, hsrc, hevent]
      rw [hinc] at hsim' ⊢
      refine .attaches ?_ (fun m' => ?_) hsim' ha
      · rw [registered_concat]
        exact .inr ⟨ih.registered, rfl⟩
      · rw [holds_concat, held_concat, ih.holds]
        simp [Incident.subscribes, Incident.removes, Incident.cancels, ih.registered, hself,
          SubEvent.subscribesMask, SubEvent.cancelsMask]
    | cancel mask =>
      have hinc : incidents m.1 m.2 = [.cancel id mask] := by
        simp only [SubEvent.msgType, SubEvent.mask] at ht hevent
        simp [incidents, ht, hsrc, hevent]
      rw [hinc] at hsim' ⊢
      refine .attaches ?_ (fun m' => ?_) hsim' ha
      · rw [registered_concat]
        exact .inr ⟨ih.registered, rfl⟩
      · rw [holds_concat, held_concat, ih.holds]
        simp [Incident.subscribes, Incident.removes, Incident.cancels, hself,
          SubEvent.subscribesMask, SubEvent.cancelsMask]
  | @other events m a a' _ hm hother hturn ih =>
    obtain ⟨c, hc, hsim'⟩ := ih.sim.turn w m hm
    obtain rfl : c = a' := Option.some.inj (hc.symm.trans hturn)
    obtain ⟨rest, hlog, ha⟩ := log_turn hturn ih.sim hm
    rw [hlog] at hsim' ⊢
    obtain ⟨hr, hh⟩ := other_incidents a.net.2 hother
    exact .attaches (hr.2 ih.registered) (fun mask => (hh mask).trans (ih.holds mask)) hsim' ha

/-- An agent that registered the client can hear any calls. -/
theorem Hears.exists {id : Id} {a : Manager (N × List Incident)} (h : Hears w id [] a)
    (events : List SubEvent) : ∃ a', Hears w id events a' := by
  induction events using List.reverseRecOn with
  | nil => exact ⟨a, h⟩
  | append_singleton events e ih =>
    obtain ⟨b, hb⟩ := ih
    let msg : Msg := ⟨e.msgType, id, default, e.mask⟩
    have hm : msg.msgType ≠ .notify := by
      cases e <;> simp [msg, SubEvent.msgType]
    obtain ⟨c, hc, -⟩ := hb.heard.sim.turn w (msg, default) hm
    exact ⟨c, .event hb ⟨rfl, rfl, rfl⟩ hc⟩

/-- An agent that starts and hears the registration of a client. -/
theorem hears_outbox (id : Id) : ∃ a, Hears FTBN.outbox id [] a := by
  let reg : Msg := ⟨.clientReg, id, default, default⟩
  have hm : reg.msgType ≠ .notify := by simp [reg]
  obtain ⟨a, ha, -⟩ := (sim_init FTBN.outbox default []).turn FTBN.outbox (reg, default) hm
  have hnone : ∀ m ∈ ([] : List (Msg × LocationId)), m.1.msgType ≠ .notify := fun _ hm =>
    absurd hm List.not_mem_nil
  exact ⟨a, .register hnone rfl rfl rfl rfl ha⟩

/-- The set that the agent keeps for the client. -/
theorem Heard.set {s : NodeInfo} {hist : List Incident} {id : Id} {events : List SubEvent}
    (h : Heard s hist id events) : ∃ comp, s.peers.find? id = some comp ∧
      ∀ m, comp.catchEventSet.contains m = true ↔ Held events m := by
  obtain ⟨comp, hf⟩ := NodeInfo.find?_of_isPeer ((h.sim.isPeer id).2 h.registered)
  refine ⟨comp, hf, fun m => ?_⟩
  rw [h.sim.inv.set_of_find? hf, h.sim.listed, h.holds]

end Agent

namespace FTBC

variable {N : Type} {w : LeafNetwork N} {s s' : Lib N} {handle : ClientHandle}

/-! ## The maps of the client -/

/-- `FTBCI_util_reconnect` sends the mask for the client. -/
def Resends (c : ClientInfo) (mask : Event) : Prop := ∃ x ∈ c.masks, isEqualEventMask x mask = true

/-- The entry of the call goes into a map, or its mask is there already; an unsubscription finds
masks that are equal as masks only. -/
def SubEvent.FitsMaps (c : ClientInfo) : SubEvent → Prop
  | .polling mask => (∀ x ∈ c.pollingMasks, isEqualEvent x mask = false) ∨ Resends c mask
  | .callback mask _ _ =>
    (∀ x ∈ c.callbackEntries, isEqualEvent x.mask mask = false) ∨ Resends c mask
  | .cancel mask => ∀ x ∈ c.masks, isEqualEvent x mask = true → isEqualEventMask x mask = true

theorem mem_masks_polling {c : ClientInfo} {map : PollingMap} (hmap : c.pollingMap = some map)
    (mask x : Event) : x ∈ ((SubEvent.polling mask).apply c).masks ↔
      x ∈ c.masks ∨ ((∀ y ∈ c.pollingMasks, isEqualEvent y mask = false) ∧ x = mask) := by
  have hold : c.pollingMasks = map.nodes := by simp [ClientInfo.pollingMasks, hmap]
  have hnew : ((SubEvent.polling mask).apply c).pollingMasks = (map.insert mask).nodes := by
    simp [ClientInfo.pollingMasks, SubEvent.apply, utilAddToPollingMap, hmap]
  simp only [ClientInfo.masks, List.mem_append, hold, hnew, entries_polling]
  rw [KeyList.mem_insert_iff, or_right_comm]

theorem mem_masks_callback {c : ClientInfo} {map : CallbackMap} (hmap : c.callbackMap = some map)
    (mask : Event) (f arg : Nat) (x : Event) : x ∈ ((SubEvent.callback mask f arg).apply c).masks ↔
      x ∈ c.masks ∨ ((∀ y ∈ c.callbackEntries, isEqualEvent y.mask mask = false) ∧ x = mask) := by
  have hpolling : ((SubEvent.callback mask f arg).apply c).pollingMasks = c.pollingMasks := rfl
  simp only [ClientInfo.masks, List.mem_append, List.mem_map, hpolling,
    mem_entries_callback hmap mask f arg, or_assoc]
  refine or_congr_right ?_
  constructor
  · rintro ⟨y, hy | ⟨hnone, rfl⟩, rfl⟩
    · exact .inl ⟨y, hy, rfl⟩
    · exact .inr ⟨hnone, rfl⟩
  · rintro (⟨y, hy, rfl⟩ | ⟨hnone, rfl⟩)
    · exact ⟨y, .inl hy, rfl⟩
    · exact ⟨_, .inr ⟨hnone, rfl⟩, rfl⟩

theorem mem_masks_cancel (c : ClientInfo) (mask x : Event) :
    x ∈ ((SubEvent.cancel mask).apply c).masks ↔ x ∈ c.masks ∧ isEqualEvent x mask = false := by
  have hpolling : ∀ y, y ∈ ((SubEvent.cancel mask).apply c).pollingMasks ↔
      y ∈ c.pollingMasks ∧ isEqualEvent y mask = false := by
    intro y
    cases hmap : c.pollingMap with
    | none => simp [ClientInfo.pollingMasks, SubEvent.apply, utilRemoveFromSubscriptionMap, hmap]
    | some map =>
      simp [ClientInfo.pollingMasks, SubEvent.apply, utilRemoveFromSubscriptionMap, hmap,
        KeyList.mem_erase]
  simp only [ClientInfo.masks, List.mem_append, List.mem_map, hpolling, mem_entries_cancel]
  constructor
  · rintro (h | ⟨y, ⟨hy, hne⟩, rfl⟩)
    · exact ⟨.inl h.1, h.2⟩
    · exact ⟨.inr ⟨y, hy, rfl⟩, hne⟩
  · rintro ⟨h | ⟨y, hy, rfl⟩, hne⟩
    · exact .inl ⟨h, hne⟩
    · exact .inr ⟨y, ⟨hy, hne⟩, rfl⟩

theorem resends_add {c c' : ClientInfo} {p : Prop} {mask : Event}
    (h : ∀ x, x ∈ c'.masks ↔ x ∈ c.masks ∨ (p ∧ x = mask)) (m : Event) :
    Resends c' m ↔ Resends c m ∨ (p ∧ isEqualEventMask mask m = true) := by
  simp only [Resends, h, or_and_right, exists_or, and_assoc]
  refine or_congr_right ⟨?_, fun ⟨hp, hx⟩ => ⟨mask, hp, rfl, hx⟩⟩
  rintro ⟨x, hp, rfl, hx⟩
  exact ⟨hp, hx⟩

/-- A subscription keeps the agreement when its mask goes into the map or is sent already. -/
theorem agree_add {c c' : ClientInfo} {events : List SubEvent} {p : Prop} {mask : Event}
    (hagree : ∀ m, Resends c m ↔ Held events m)
    (h : ∀ x, x ∈ c'.masks ↔ x ∈ c.masks ∨ (p ∧ x = mask)) :
    (∀ m, Resends c' m ↔ isEqualEventMask mask m = true ∨ Held events m) ↔
      p ∨ Resends c mask := by
  have hself : isEqualEventMask mask mask = true := KeyEq.refl mask
  simp only [resends_add h, ← hagree]
  constructor
  · intro hall
    rcases (hall mask).2 (.inl hself) with hr | ⟨hp, -⟩
    · exact .inr hr
    · exact .inl hp
  · rintro (hp | hr) m
    · rw [and_iff_right hp, or_comm]
    · refine ⟨fun hm => hm.elim .inr fun hm => .inl hm.2, fun hm => ?_⟩
      rcases hm with hm | hm
      · obtain ⟨x, hx, heq⟩ := hr
        exact .inl ⟨x, hx, KeyEq.trans heq hm⟩
      · exact .inl hm

/-- An unsubscription keeps the agreement when the masks it takes out are equal as masks. -/
theorem agree_cancel {c : ClientInfo} {events : List SubEvent} (mask : Event)
    (hagree : ∀ m, Resends c m ↔ Held events m) :
    (∀ m, Resends ((SubEvent.cancel mask).apply c) m ↔
        Held events m ∧ isEqualEventMask mask m = false) ↔
      ∀ x ∈ c.masks, isEqualEvent x mask = true → isEqualEventMask x mask = true := by
  simp only [← hagree, Resends, mem_masks_cancel]
  constructor
  · intro hall x hx heq
    by_contra hne
    rw [Bool.not_eq_true, KeyEq.comm isEqualEventMask] at hne
    -- a mask of the class that the agent keeps is lost here
    obtain ⟨y, ⟨-, hy⟩, hyx⟩ := (hall x).2 ⟨⟨x, hx, KeyEq.refl x⟩, hne⟩
    have hym : isEqualEvent y mask = true := KeyEq.trans (isEqualEvent_of_mask hyx) heq
    rw [hy] at hym
    cases hym
  · intro hfits m
    constructor
    · rintro ⟨x, ⟨hx, hne⟩, hm⟩
      refine ⟨⟨x, hx, hm⟩, ?_⟩
      by_contra hmask
      rw [Bool.not_eq_false] at hmask
      have hxm : isEqualEvent x mask = true :=
        isEqualEvent_of_mask (KeyEq.trans hm (KeyEq.symm hmask))
      rw [hne] at hxm
      cases hxm
    · rintro ⟨⟨x, hx, hm⟩, hne⟩
      refine ⟨x, ⟨hx, ?_⟩, hm⟩
      by_contra hxm
      rw [Bool.not_eq_false] at hxm
      have hmask : isEqualEventMask mask m = true := KeyEq.trans (KeyEq.symm (hfits x hx hxm)) hm
      rw [hne] at hmask
      cases hmask

/-- The client has the maps of its style. -/
def HasMaps (c : ClientInfo) (e : SubEvent) : Prop :=
  match e with
  | .polling _ => c.pollingMap.isSome = true
  | .callback _ _ _ => c.callbackMap.isSome = true
  | .cancel _ => True

/-- **One call keeps the agreement exactly when it fits.** -/
theorem agree_apply {c : ClientInfo} {events : List SubEvent} {e : SubEvent} (hmaps : HasMaps c e)
    (hagree : ∀ m, Resends c m ↔ Held events m) :
    (∀ m, Resends (e.apply c) m ↔ Held (events ++ [e]) m) ↔ e.FitsMaps c := by
  simp only [held_concat]
  cases e with
  | polling mask =>
    obtain ⟨map, hmap⟩ := Option.isSome_iff_exists.1 hmaps
    simp only [SubEvent.subscribesMask, SubEvent.cancelsMask, and_true]
    exact agree_add hagree (mem_masks_polling hmap mask)
  | callback mask f arg =>
    obtain ⟨map, hmap⟩ := Option.isSome_iff_exists.1 hmaps
    simp only [SubEvent.subscribesMask, SubEvent.cancelsMask, and_true]
    exact agree_add hagree (mem_masks_callback hmap mask f arg)
  | cancel mask =>
    simp only [SubEvent.subscribesMask, SubEvent.cancelsMask, Bool.false_eq_true, false_or]
    exact agree_cancel mask hagree

theorem pollingMap_isSome (id : Id) (jobid : CStr) (ty : UInt8) (len : Int)
    (calls : List (SubCall N)) :
    (replay (newClientInfo id jobid ty len) calls).pollingMap.isSome =
      (newClientInfo id jobid ty len).polls := by
  induction calls using List.reverseRecOn with
  | nil =>
    simp only [replay, newClientInfo, ClientInfo.polls, List.map_nil, List.foldl_nil]
    split <;> simp_all
  | append_singleton calls d ih =>
    rw [replay_concat, ← ih]
    cases d.event with
    | polling mask => exact Option.isSome_map
    | callback mask f arg => rfl
    | cancel mask => exact Option.isSome_map

theorem hasMaps_replay {id : Id} {jobid : CStr} {ty : UInt8} {len : Int} (calls : List (SubCall N))
    {e : SubEvent} (h : e.Allowed (newClientInfo id jobid ty len)) :
    HasMaps (replay (newClientInfo id jobid ty len) calls) e := by
  cases e with
  | polling mask => exact (pollingMap_isSome id jobid ty len calls).trans h
  | callback mask f arg => exact (callbackMap_isSome id jobid ty len calls).trans h
  | cancel mask => trivial

/-! ## Client and agent agree -/

/-- An agent that handled the messages of the calls has for the client the masks that
`FTBCI_util_reconnect` sends for it. -/
def Restored {NA : Type} (wA : Network NA) (handle : ClientHandle) (id : Id)
    (calls : List (SubCall N)) (s : Lib N) : Prop :=
  ∀ a, Agent.Hears wA id (calls.map SubCall.event) a → ∃ c comp,
    lookupClientInfo handle s = some (.ok c) ∧ a.info.peers.find? id = some comp ∧
      ∀ m, Resends c m ↔ comp.catchEventSet.contains m = true

theorem resends_core {c c' : ClientInfo} (h : c'.core = c.core) (m : Event) :
    Resends c' m ↔ Resends c m := by
  have hmasks : c'.masks = c.masks := eq_of_core (fun _ => rfl) h
  rw [Resends, hmasks, Resends]

theorem SubEvent.fitsMaps_core {c c' : ClientInfo} (h : c'.core = c.core) (e : SubEvent) :
    e.FitsMaps c' ↔ e.FitsMaps c := by
  have hmasks : c'.masks = c.masks := eq_of_core (fun _ => rfl) h
  have hpolling : c'.pollingMasks = c.pollingMasks := eq_of_core (fun _ => rfl) h
  have hentries : c'.callbackEntries = c.callbackEntries := eq_of_core (fun _ => rfl) h
  cases e <;> simp only [FitsMaps, Resends, hmasks, hpolling, hentries]

/-- The agreement is one of the masks of the client, wherever it is looked up. -/
theorem restored_iff_agree {NA : Type} {wA : Network NA} {id : Id} {calls : List (SubCall N)}
    {c₀ : ClientInfo} {a₀ : Manager (NA × List Agent.Incident)} (ha : Agent.Hears wA id [] a₀)
    (hs : Has handle c₀ s) : Restored wA handle id calls s ↔
      ∀ m, Resends c₀ m ↔ Held (calls.map SubCall.event) m := by
  obtain ⟨c, hl, hcore⟩ := hs
  constructor
  · intro hr m
    obtain ⟨a, hhears⟩ := ha.exists (calls.map SubCall.event)
    obtain ⟨c', comp, hl', hf, hset⟩ := hr a hhears
    rw [hl] at hl'
    cases hl'
    obtain ⟨comp', hf', hset'⟩ := hhears.heard.set
    rw [hf] at hf'
    cases hf'
    rw [← resends_core hcore, hset, hset']
  · intro hagree a hhears
    obtain ⟨comp, hf, hset⟩ := hhears.heard.set
    exact ⟨c, comp, hl, hf, fun m => by rw [resends_core hcore, hagree, hset]⟩

/-- **The masks agree in every state of a run exactly when every call fits the maps of the client.** -/
theorem restored_iff {NA : Type} {wA : Network NA} {id : Id} {calls : List (SubCall N)}
    {handles : List SubscribeHandle} {a₀ : Manager (NA × List Agent.Incident)}
    (hr : Subscribed w handle id calls handles s) (ha : Agent.Hears wA id [] a₀) :
    (Restored wA handle id calls s ∧ ∀ pre d post, calls = pre ++ d :: post →
        Restored wA handle id (pre ++ [d]) d.after) ↔
      ∀ d ∈ calls, ∃ c, lookupClientInfo handle d.before = some (.ok c) ∧ d.event.FitsMaps c := by
  obtain ⟨jobid, ty, len, -, -, ht⟩ := hr.traced
  let c₀ := newClientInfo id jobid ty len
  -- what the agreement of a prefix says of the replayed client
  let Agree : List (SubCall N) → Prop := fun pre =>
    ∀ m, Resends (replay c₀ pre) m ↔ Held (pre.map SubCall.event) m
  have hnil : Agree [] := by
    intro m
    have hnone : (replay c₀ ([] : List (SubCall N))).masks = [] := by
      simp only [replay, c₀, newClientInfo, ClientInfo.masks, ClientInfo.pollingMasks,
        ClientInfo.callbackEntries, List.map_nil, List.foldl_nil]
      split <;> split <;> rfl
    simp [Resends, hnone, Held]
  have hstep : ∀ pre d post, calls = pre ++ d :: post → Agree pre →
      (Agree (pre ++ [d]) ↔ d.event.FitsMaps (replay c₀ pre)) := by
    intro pre d post heq hpre
    have hd := (ht.steps pre d post heq).2.2
    have h := agree_apply (hasMaps_replay pre hd) hpre
    simp only [Agree, replay_concat, List.map_append, List.map_cons, List.map_nil]
    exact h
  have hfits : ∀ pre d post, calls = pre ++ d :: post →
      ((∃ c, lookupClientInfo handle d.before = some (.ok c) ∧ d.event.FitsMaps c) ↔
        d.event.FitsMaps (replay c₀ pre)) := by
    intro pre d post heq
    obtain ⟨c, hl, hcore⟩ := (ht.steps pre d post heq).1
    rw [← d.event.fitsMaps_core hcore]
    constructor
    · rintro ⟨c', hl', hf⟩
      rw [hl] at hl'
      cases hl'
      exact hf
    · exact fun hf => ⟨c, hl, hf⟩
  constructor
  · rintro ⟨-, hall⟩ d hd
    obtain ⟨pre, post, heq⟩ := List.append_of_mem hd
    have hagree : ∀ pre d post, calls = pre ++ d :: post → Agree (pre ++ [d]) := fun pre d post heq =>
      (restored_iff_agree ha (ht.steps pre d post heq).2.1).1 (hall pre d post heq)
    have hpre : Agree pre := by
      rcases List.eq_nil_or_concat pre with rfl | ⟨pre, x, rfl⟩
      · exact hnil
      · rw [List.concat_eq_append] at heq ⊢
        exact hagree pre x (d :: post) (by simpa using heq)
    exact (hfits pre d post heq).2 ((hstep pre d post heq hpre).1 (hagree pre d post heq))
  · intro hall
    have hagree : ∀ pre post, calls = pre ++ post → Agree pre := by
      intro pre
      induction pre using List.reverseRecOn with
      | nil => exact fun _ _ => hnil
      | append_singleton pre d ih =>
        intro post heq
        have heq' : calls = pre ++ d :: post := by simpa using heq
        have hd := hall d (by rw [heq']; simp)
        exact (hstep pre d post heq' (ih _ heq')).2 ((hfits pre d post heq').1 hd)
    refine ⟨(restored_iff_agree ha ht.now).2 (hagree calls [] (by simp)), fun pre d post heq => ?_⟩
    exact (restored_iff_agree ha (ht.steps pre d post heq).2.1).2 (hagree _ post (by simpa using heq))

/-! ### Two masks of one class -/

/-- A client that polls, and an agent with process id 1. -/
def pollerRun (steps : List SubStep) : Option (ClientHandle × Id × SubState (List Msg)) :=
  subRun (leafOutbox { (default : LocationId) with pid := 1 }) []
    { eventSpace := "FTB.FTB_EXAMPLES.POLLER".toList, clientName := "poller".toList
      clientJobid := [], clientSubscriptionStyle := "FTB_SUBSCRIPTION_POLLING".toList
      clientPollingQueueLen := 0 }
    steps

instance (c : ClientInfo) (mask : Event) : Decidable (Resends c mask) :=
  inferInstanceAs (Decidable (∃ x ∈ c.masks, _ = true))

instance (c : ClientInfo) : ∀ e : SubEvent, Decidable (e.FitsMaps c)
  | .polling _ => inferInstanceAs (Decidable ((∀ x ∈ c.pollingMasks, _ = false) ∨ _))
  | .callback _ _ _ => inferInstanceAs (Decidable ((∀ x ∈ c.callbackEntries, _ = false) ∨ _))
  | .cancel _ => inferInstanceAs (Decidable (∀ x ∈ c.masks, _ = true → _ = true))

/-- Every call finds its client, and fits the maps. -/
def allFit (r : ClientHandle × Id × SubState (List Msg)) : Bool :=
  r.2.2.1.all fun d =>
    match lookupClientInfo r.1 d.before with
    | some (.ok c) => decide (d.event.FitsMaps c)
    | _ => false

/-- Two masks of different classes, and the first is unsubscribed: the masks agree after every
call. -/
theorem restored_iff_poller : ∃ handle id x a₀,
    pollerRun [.polling "host_name=a".toList, .polling "severity=fatal".toList, .unsubscribe 0] =
        some (handle, id, x) ∧
      Agent.Hears FTBN.outbox id [] a₀ ∧
      (∀ d ∈ x.1, ∃ c, lookupClientInfo handle d.before = some (.ok c) ∧ d.event.FitsMaps c) ∧
      Restored FTBN.outbox handle id x.1 x.2.2 ∧
      ∀ pre d post, x.1 = pre ++ d :: post → Restored FTBN.outbox handle id (pre ++ [d]) d.after := by
  have hany : (pollerRun [.polling "host_name=a".toList, .polling "severity=fatal".toList,
      .unsubscribe 0]).any allFit = true := by
    decide +kernel
  obtain ⟨⟨handle, id, x⟩, hrun, hx⟩ := (Option.any_eq_true _ _).1 hany
  obtain ⟨a₀, ha⟩ := Agent.hears_outbox id
  have hfits : ∀ d ∈ x.1, ∃ c,
      lookupClientInfo handle d.before = some (.ok c) ∧ d.event.FitsMaps c := by
    intro d hd
    have hd' := List.all_eq_true.1 hx d hd
    split at hd'
    · rename_i c hl
      exact ⟨c, hl, of_decide_eq_true hd'⟩
    · cases hd'
  exact ⟨handle, id, x, a₀, hrun, ha, hfits, (restored_iff (subRun_subscribed hrun) ha).2 hfits⟩

/-- Of two subscriptions made, the client has no mask for the second. -/
def missesSecond (r : ClientHandle × Id × SubState (List Msg)) : Bool :=
  match r.2.2.1.map SubCall.event, lookupClientInfo r.1 r.2.2.2.2 with
  | [_, .polling mask], some (.ok c) => c.masks.all fun x => !isEqualEventMask x mask
  | _, _ => false

/-- After subscriptions to the events of two hosts, the client would resend the first mask only. -/
theorem secondHost_notRestored : ∃ handle id x,
    pollerRun [.polling "host_name=a".toList, .polling "host_name=b".toList] =
        some (handle, id, x) ∧
      ¬Restored FTBN.outbox handle id x.1 x.2.2 := by
  have hany : (pollerRun [.polling "host_name=a".toList, .polling "host_name=b".toList]).any
      missesSecond = true := by
    decide +kernel
  obtain ⟨⟨handle, id, x⟩, hrun, hx⟩ := (Option.any_eq_true _ _).1 hany
  refine ⟨handle, id, x, hrun, fun hrestored => ?_⟩
  simp only [missesSecond] at hx
  split at hx
  · rename_i e mask c hevents hl
    obtain ⟨a₀, ha⟩ := Agent.hears_outbox id
    have hagree := (restored_iff_agree ha (.of_lookup hl)).1 hrestored mask
    have hself : isEqualEventMask mask mask = true := KeyEq.refl mask
    have hheld : Held (x.1.map SubCall.event) mask := by
      rw [hevents]
      exact (held_concat [e] _ mask).2 (.inl hself)
    obtain ⟨y, hy, heq⟩ := hagree.2 hheld
    have hne := List.all_eq_true.1 hx y hy
    rw [heq] at hne
    cases hne
  · cases hx

/-! ## One unsubscription -/

/-- The component is in the list that `FTBM_Get_catcher_comp_list` returns for the event. -/
def Caught (s : NodeInfo) (id : Id) (e : Event) : Prop :=
  ∃ l, FTBM.getCatcherCompList e s = .ok l ∧ ∃ i, some i ∈ l.list ∧ isEqualFtbId i id = true

theorem caught_iff {info : NodeInfo} {hist : List Agent.Incident} {id : Id} {events : List SubEvent}
    (h : Agent.Heard info hist id events) (e : Event) :
    Caught info id e ↔ ∃ m, matchMask e m = true ∧ Held events m := by
  obtain ⟨l, hl, hc⟩ := h.sim.catchers e
  obtain ⟨ids, hlist, -, -, hids⟩ := hc.ids
  have hmem : (∃ x ∈ ids, isEqualFtbId x id = true) ↔ ∃ m, matchMask e m = true ∧ Held events m := by
    rw [hids, and_iff_right h.registered]
    simp only [h.holds]
  rw [← hmem]
  constructor
  · rintro ⟨l', hl', i, hi, heq⟩
    rw [hl] at hl'
    cases hl'
    rw [hlist, List.mem_map] at hi
    obtain ⟨x, hx, hxi⟩ := hi
    cases hxi
    exact ⟨i, hx, heq⟩
  · rintro ⟨x, hx, heq⟩
    exact ⟨l, hl, x, by rw [hlist]; exact List.mem_map_of_mem hx, heq⟩

/-- A client with two valid handles unsubscribes `h`, and its agent handled the messages of all its
calls. -/
structure Unsubscribed {NA : Type} (w : LeafNetwork N) (wA : Network NA) (id : Id)
    (calls : List (SubCall N)) (handles : List SubscribeHandle) (s : Lib N)
    (h h' : SubscribeHandle) (a : Manager (NA × List Agent.Incident)) : Prop where
  run : ∃ handle, Subscribed w handle id calls handles s
  handles : ∃ i j : Nat, i ≠ j ∧ handles[i]? = some h ∧ handles[j]? = some h'
  valid : h.valid ≠ 0 ∧ h'.valid ≠ 0
  success : ∃ out s', unsubscribe w h s = some (.success, out, s')
  heard : Agent.Hears wA id (calls.map SubCall.event ++ [.cancel h.subscriptionEvent]) a

/-- **The client still gets an event of the other handle exactly when the event matches a mask that
the client holds** and that is not equal to the one it unsubscribed. -/
theorem unharmed_iff {NA : Type} {wA : Network NA} {id : Id} {calls : List (SubCall N)}
    {handles : List SubscribeHandle} {h h' : SubscribeHandle}
    {a : Manager (NA × List Agent.Incident)}
    (hu : Unsubscribed w wA id calls handles s h h' a) (e : Event) :
    (matchMask e h'.subscriptionEvent = true → Caught a.info id e) ↔
      (matchMask e h'.subscriptionEvent = true → ∃ m, matchMask e m = true ∧
        isEqualEventMask h.subscriptionEvent m = false ∧ Held (calls.map SubCall.event) m) := by
  refine imp_congr_right fun _ => ?_
  rw [caught_iff hu.heard.heard]
  refine exists_congr fun m => and_congr_right fun _ => ?_
  rw [held_concat]
  simp only [SubEvent.subscribesMask, SubEvent.cancelsMask, Bool.false_eq_true, false_or]
  exact and_comm

/-! ### Two handles of one mask -/

/-- An event of the host. -/
def eventOn (hostname : CStr) : Event := { eventOf "simple".toList with hostname := hostname }

/-- A client that polls with two handles can unsubscribe the first one. -/
theorem exists_unsubscribed {str str' : CStr} {handle : ClientHandle} {id : Id}
    {x : SubState (List Msg)}
    (hrun : pollerRun [.polling str, .polling str'] = some (handle, id, x))
    {h h' : SubscribeHandle} (hh : x.2.1 = [h, h']) (hvalid : h.valid ≠ 0 ∧ h'.valid ≠ 0)
    {out : SubscribeHandle} {s' : Lib (List Msg)}
    (hout : unsubscribe (leafOutbox { (default : LocationId) with pid := 1 }) h x.2.2 =
      some (.success, out, s')) :
    ∃ a, Unsubscribed (leafOutbox { (default : LocationId) with pid := 1 }) FTBN.outbox id x.1 x.2.1
      x.2.2 h h' a := by
  obtain ⟨a₀, ha₀⟩ := Agent.hears_outbox id
  obtain ⟨a, ha⟩ := ha₀.exists (x.1.map SubCall.event ++ [.cancel h.subscriptionEvent])
  refine ⟨a, ⟨handle, subRun_subscribed hrun⟩, ⟨0, 1, by decide, ?_, ?_⟩, hvalid, ⟨out, s', hout⟩, ha⟩
  · rw [hh]
    rfl
  · rw [hh]
    rfl

/-- What the runs below are asked: the handles, what their masks are, and the calls. -/
def pollerTest (str str' : CStr)
    (p : SubscribeHandle → SubscribeHandle → List SubEvent → Bool) : Bool :=
  (pollerRun [.polling str, .polling str']).any fun r =>
    match r.2.2.2.1 with
    | [h, h'] => h.valid ≠ 0 && h'.valid ≠ 0 && p h h' (r.2.2.1.map SubCall.event) &&
      (unsubscribe (leafOutbox { (default : LocationId) with pid := 1 }) h r.2.2.2.2).any fun o =>
        o.1 = .success
    | _ => false

theorem exists_of_pollerTest {str str' : CStr}
    {p : SubscribeHandle → SubscribeHandle → List SubEvent → Bool}
    (h : pollerTest str str' p = true) : ∃ handle id x h h' a,
      pollerRun [.polling str, .polling str'] = some (handle, id, x) ∧
      p h h' (x.1.map SubCall.event) = true ∧
      Unsubscribed (leafOutbox { (default : LocationId) with pid := 1 }) FTBN.outbox id x.1 x.2.1
        x.2.2 h h' a := by
  obtain ⟨⟨handle, id, x⟩, hrun, hx⟩ := (Option.any_eq_true _ _).1 h
  dsimp only at hx
  split at hx
  · rename_i h h' hh
    simp only [Bool.and_eq_true, decide_eq_true_eq] at hx
    obtain ⟨⟨⟨hv, hv'⟩, hp⟩, hout⟩ := hx
    obtain ⟨⟨ret, out, s'⟩, hout, hret⟩ := (Option.any_eq_true _ _).1 hout
    obtain rfl : ret = .success := by simpa using hret
    obtain ⟨a, ha⟩ := exists_unsubscribed hrun hh ⟨hv, hv'⟩ hout
    exact ⟨handle, id, x, h, h', a, hrun, hp, ha⟩
  · cases hx

/-- The other handle has a mask of its own. -/
theorem unharmed_iff_poller : ∃ (id : Id) (x : SubState (List Msg)) (h h' : SubscribeHandle) (a : _),
    Unsubscribed (leafOutbox { (default : LocationId) with pid := 1 }) FTBN.outbox id x.1 x.2.1
        x.2.2 h h' a ∧
      ((matchMask (eventOn "b".toList) h'.subscriptionEvent = true →
          Caught a.info id (eventOn "b".toList)) ↔
        (matchMask (eventOn "b".toList) h'.subscriptionEvent = true →
          ∃ m, matchMask (eventOn "b".toList) m = true ∧
            isEqualEventMask h.subscriptionEvent m = false ∧
            Held (x.1.map SubCall.event) m)) := by
  have htest : pollerTest "host_name=a".toList "host_name=b".toList (fun _ _ _ => true) = true := by
    decide +kernel
  obtain ⟨-, id, x, h, h', a, -, -, hu⟩ := exists_of_pollerTest htest
  exact ⟨id, x, h, h', a, hu, unharmed_iff hu _⟩

/-- Both handles have the same mask: the second one gets no event any more. -/
theorem sameMask_harmed : ∃ (id : Id) (x : SubState (List Msg)) (h h' : SubscribeHandle) (a : _),
    Unsubscribed (leafOutbox { (default : LocationId) with pid := 1 }) FTBN.outbox id x.1 x.2.1
        x.2.2 h h' a ∧
      matchMask (eventOn "a".toList) h'.subscriptionEvent = true ∧
      ¬Caught a.info id (eventOn "a".toList) := by
  have htest : pollerTest "host_name=a".toList "host_name=a".toList (fun h h' events =>
      events = [.polling h.subscriptionEvent, .polling h.subscriptionEvent] &&
        matchMask (eventOn "a".toList) h'.subscriptionEvent) = true := by
    decide +kernel
  obtain ⟨-, id, x, h, h', a, -, hp, hu⟩ := exists_of_pollerTest htest
  simp only [Bool.and_eq_true, decide_eq_true_eq] at hp
  obtain ⟨hevents, hmatch⟩ := hp
  refine ⟨id, x, h, h', a, hu, hmatch, fun hcaught => ?_⟩
  obtain ⟨m, -, hheld⟩ := (caught_iff hu.heard.heard _).1 hcaught
  rw [hevents, held_concat] at hheld
  obtain hf | ⟨hheld, hne⟩ := hheld
  · cases hf
  · have hold : Held [.polling h.subscriptionEvent, .polling h.subscriptionEvent] m →
        isEqualEventMask h.subscriptionEvent m = true := by
      intro hh
      rcases (held_concat [.polling h.subscriptionEvent] _ m).1 hh with heq | ⟨hh, -⟩
      · exact heq
      · rcases (held_concat [] _ m).1 hh with heq | ⟨hh, -⟩
        · exact heq
        · simp [Held] at hh
    have heq := hold hheld
    simp only [SubEvent.cancelsMask] at hne
    rw [hne] at heq
    cases heq

end FTBC
