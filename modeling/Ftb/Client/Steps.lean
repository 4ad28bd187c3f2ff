import Mathlib.Logic.Relation
import Ftb.Client.Frame

/-!
# What the calls consist of

Every call of the API but `FTBC_Connect` and `FTBC_Disconnect` is a sequence of four kinds of steps
(`InnerStep`): it sends messages, receives messages and handles them, moves `track`, and writes to a
client without adding events to its queues. What all runs keep is proved from these steps.
-/

open FTB FTBU FTBN FTBMI FTBCI

namespace FTBCI

/-- The events in the two queues of a client. -/
def ClientInfo.queued (c : ClientInfo) : List EventInst := c.eventQueue ++ c.callbackEventQueue

end FTBCI

namespace FTBC

variable {N : Type} {w : LeafNetwork N} {s s' s'' : Lib N}

inductive InnerStep (w : LeafNetwork N) : Lib N → Lib N → Prop
  | sent {s s' : Lib N} : Sent s s' → InnerStep w s s'
  | received {s s' : Lib N} (blocking : Bool) (msg : Msg) :
      (getMsg w blocking msg s).1 = .success →
      utilHandleFTBMMsg (getMsg w blocking msg s).2.1 (getMsg w blocking msg s).2.2 = some s' →
      InnerStep w s s'
  | tracked (s : Lib N) (track : UInt8) : InnerStep w s { s with track }
  | updated (s : Lib N) (handle : ClientHandle) {f : ClientInfo → ClientInfo} :
      (∀ x ∈ s.clients, ∀ e ∈ (f x).queued, ∃ c ∈ s.clients, e ∈ c.queued) →
      InnerStep w s (s.update handle f)

/-- Any number of steps. -/
abbrev Inner (w : LeafNetwork N) : Lib N → Lib N → Prop := Relation.ReflTransGen (InnerStep w)

namespace Inner

theorem sent (h : Sent s s') : Inner w s s' := .single (.sent h)

/-- A write that leaves the queues alone. -/
theorem update (handle : ClientHandle) (f : ClientInfo → ClientInfo)
    (hf : ∀ x, (f x).queued = x.queued) (s : Lib N) : Inner w s (s.update handle f) :=
  .single (.updated s handle fun x hx e he => ⟨x, hx, by rwa [hf] at he⟩)

end Inner

theorem inner_checkLoop : ∀ {n : Nat} {s s' : Lib N} {ret : Ret},
    checkLoop w n s = some (ret, s') → Inner w s s' := by
  intro n
  induction n with
  | zero =>
    intro s s' ret h
    cases h
  | succ n ih =>
    intro s s' ret h
    simp only [checkLoop] at h
    split at h
    · rename_i hret
      rw [Option.bind_eq_bind, Option.bind_eq_some_iff] at h
      obtain ⟨t, ht, hrest⟩ := h
      exact .head (.received false default hret ht) (ih hrest)
    · rename_i hret
      cases h
      refine Inner.sent ⟨(getMsg w false default s).2.2.manager, ?_⟩
      have hd : (getMsg w false default s).2.2.delivered = s.delivered := if_neg hret
      simp only [getMsg] at hd ⊢
      rw [hd]

theorem inner_checkProgress {ret : Ret} (h : checkProgress w s = some (ret, s')) :
    Inner w s s' := by
  simp only [checkProgress] at h
  split at h
  · cases h
    exact .refl
  · simp only [Option.bind_eq_bind, Option.bind_eq_some_iff] at h
    obtain ⟨⟨r, t⟩, hloop, h⟩ := h
    have hinner := inner_checkLoop hloop
    dsimp only at h
    split at h
    · simp only [Option.bind_eq_some_iff, Option.pure_def, Option.some.injEq, Prod.mk.injEq] at h
      obtain ⟨u, hu, -, rfl⟩ := h
      exact hinner.trans (Inner.sent (sent_utilReconnect hu))
    · cases h
      exact hinner

theorem inner_subscribeWith {type : UInt8} {add : Event → ClientInfo → ClientInfo}
    (hadd : ∀ event c, (add event c).queued = c.queued)
    {subscribeHandle out : Option SubscribeHandle} {clientHandle : ClientHandle}
    {subscriptionStr : Option CStr} {ret : Ret}
    (h : subscribeWith w type add subscribeHandle clientHandle subscriptionStr s =
      some (ret, out, s')) : Inner w s s' := by
  simp only [subscribeWith] at h
  split at h
  · cases h
    exact .refl
  · split at h
    · cases h
      exact .refl
    · split at h
      · cases h
      · cases h
        exact .refl
      · split at h
        · cases h
          exact .refl
        · split at h
          · cases h
          · rename_i track event _
            split at h
            · cases h
              exact .single (.tracked s track)
            · simp only [Option.bind_eq_bind, Option.bind_eq_some_iff, Option.pure_def,
                Option.some.injEq, Prod.mk.injEq] at h
              obtain ⟨⟨r₁, t⟩, hcheck, ⟨r₂, u⟩, hsend, -, -, rfl⟩ := h
              exact .head (.tracked s track) ((inner_checkProgress hcheck).trans
                ((Inner.update _ _ (hadd event) t).trans (Inner.sent (sent_sendMsg hsend))))

theorem inner_unsubscribe {subscribeHandle out : SubscribeHandle} {ret : Ret}
    (h : unsubscribe w subscribeHandle s = some (ret, out, s')) : Inner w s s' := by
  simp only [unsubscribe] at h
  split at h
  · cases h
  · cases h
    exact .refl
  · split at h
    · cases h
      exact .refl
    · simp only [Option.bind_eq_bind, Option.bind_eq_some_iff] at h
      obtain ⟨⟨r, u⟩, hsend, h⟩ := h
      have hu : Inner w s u := Inner.sent (sent_sendMsg hsend)
      dsimp only at h
      split at h
      · cases h
        exact hu
      · simp only [Option.bind_eq_some_iff, Option.pure_def, Option.some.injEq,
          Prod.mk.injEq] at h
        obtain ⟨⟨r₂, t⟩, hcheck, -, -, rfl⟩ := h
        have hqueued : ∀ c, (utilRemoveFromSubscriptionMap subscribeHandle.subscriptionEvent c).queued =
            c.queued := fun _ => rfl
        exact hu.trans ((Inner.update _ _ hqueued u).trans (inner_checkProgress hcheck))

theorem inner_publish {clientHandle : ClientHandle} {eventName : CStr}
    {properties : Option EventProperties} {eventHandle out : Option EventHandle} {ret : Ret}
    (h : publish w clientHandle eventName properties eventHandle s = some (ret, out, s')) :
    Inner w s s' := by
  simp only [publish] at h
  split at h
  · cases h
    exact .refl
  · split at h
    · cases h
      exact .refl
    · split at h
      · cases h
        exact .refl
      · rw [Option.bind_eq_bind, Option.bind_eq_some_iff] at h
        obtain ⟨⟨r, t⟩, hcheck, h⟩ := h
        have hcheck := inner_checkProgress hcheck
        dsimp only at h
        split at h
        · cases h
        · cases h
          exact hcheck
        · split at h
          · cases h
            exact hcheck
          · split at h
            · cases h
              exact hcheck
            · simp only [Option.bind_eq_some_iff, Option.pure_def, Option.some.injEq,
                Prod.mk.injEq] at h
              obtain ⟨⟨r₂, u⟩, hsend, -, -, rfl⟩ := h
              have hqueued : ∀ c : ClientInfo, { c with seqnum := c.seqnum + 1 }.queued = c.queued :=
                fun _ => rfl
              exact hcheck.trans
                ((Inner.update _ _ hqueued t).trans (Inner.sent (sent_sendMsg hsend)))

/-- `FTBC_Poll_event` fills its argument from an event of the queue, which it takes out. -/
theorem pollQueue_spec {mask : Event} {bytes : Cell.Mem Field} {c c' : ClientInfo}
    {r : ReceiveEvent} (h : pollQueue mask bytes c = some (some (r, c'))) :
    (∃ e ∈ c.eventQueue, matchMask e.eventInst mask = true ∧ receiveEvent e bytes = some r) ∧
      ∀ e ∈ c'.queued, e ∈ c.queued := by
  simp only [pollQueue] at h
  split at h
  · split at h
    · cases h
    · rename_i e hf
      simp only [Option.bind_eq_bind, Option.bind_eq_some_iff, Option.pure_def, Option.some.injEq,
        Prod.mk.injEq] at h
      obtain ⟨r', hr, rfl, rfl⟩ := h
      have hmatch := List.find?_some (p := fun e : EventInst => matchMask e.eventInst mask) hf
      refine ⟨⟨e, List.mem_of_find?_eq_some hf, hmatch, hr⟩, fun x hx => ?_⟩
      simp only [ClientInfo.queued, List.mem_append] at hx ⊢
      exact hx.imp_left List.mem_of_mem_eraseP
  · cases h

theorem mem_clients_of_lookup {handle : ClientHandle} {c : ClientInfo}
    (h : lookupClientInfo handle s = some (.ok c)) : c ∈ s.clients := by
  simp only [lookupClientInfo] at h
  split at h
  · cases h
  · rename_i map hm
    split at h
    · cases h
    · cases h
    · rename_i x hf
      cases h
      simp only [findClient] at hf
      split at hf
      · cases hf
      · rename_i y hy
        split at hf
        · cases hf
        · cases hf
          simp only [Lib.clients, hm, Option.map_some, Option.getD_some]
          exact List.mem_of_find?_eq_some hy

/-- A lookup that fails is an error. -/
theorem lookup_error {handle : ClientHandle} {ret : Ret}
    (h : lookupClientInfo handle s = some (.error ret)) : ret ≠ .success := by
  simp only [lookupClientInfo] at h
  split at h
  · cases h
    nofun
  · split at h <;> cases h
    nofun

/-- What `FTBC_Poll_event` returns comes from a client that the process has by then. -/
theorem inner_pollLoop {subscribeHandle : SubscribeHandle} {bytes : Cell.Mem Field} :
    ∀ {z : Nat} {s s' : Lib N} {ret : Ret} {out : Option ReceiveEvent},
      pollLoop w subscribeHandle bytes z s = some (ret, out, s') →
      Inner w s s' ∧ ∀ r, out = some r → ∃ t, Inner w s t ∧ Inner w t s' ∧
        ∃ c ∈ t.clients, ∃ e ∈ c.eventQueue, receiveEvent e bytes = some r := by
  intro z
  induction z with
  | zero =>
    intro s s' ret out h
    cases h
    exact ⟨.refl, nofun⟩
  | succ z ih =>
    intro s s' ret out h
    simp only [pollLoop, Option.bind_eq_bind, Option.bind_eq_some_iff] at h
    obtain ⟨⟨r, t⟩, hcheck, h⟩ := h
    have hcheck := inner_checkProgress hcheck
    dsimp only at h
    split at h
    · rename_i c hl
      rw [Option.bind_eq_some_iff] at h
      obtain ⟨found, hqueue, h⟩ := h
      split at h
      · obtain ⟨hrest, hout⟩ := ih h
        refine ⟨hcheck.trans hrest, fun r hr => ?_⟩
        obtain ⟨u, htu, hus, hu⟩ := hout r hr
        exact ⟨u, hcheck.trans htu, hus, hu⟩
      · cases h
        obtain ⟨⟨e, he, -, hr⟩, hqueued⟩ := pollQueue_spec hqueue
        have hc := mem_clients_of_lookup hl
        have htaken : ∀ c', (∀ e ∈ c'.queued, e ∈ c.queued) →
            Inner w t (t.update subscribeHandle.clientHandle fun _ => c') := fun c' hc' =>
          .single (.updated t _ fun _ _ e he => ⟨c, hc, hc' e he⟩)
        refine ⟨hcheck.trans (htaken _ hqueued), fun r' hr' => ?_⟩
        cases hr'
        exact ⟨t, hcheck, htaken _ hqueued, c, hc, e, he, hr⟩
    · cases h

theorem inner_pollEvent {subscribeHandle : SubscribeHandle} {bytes : Option (Cell.Mem Field)}
    {ret : Ret} {out : Option ReceiveEvent}
    (h : pollEvent w subscribeHandle bytes s = some (ret, out, s')) :
    Inner w s s' ∧ ∀ r, out = some r → ∃ t, Inner w s t ∧ Inner w t s' ∧
      ∃ c ∈ t.clients, ∃ e ∈ c.eventQueue, ∃ m, receiveEvent e m = some r := by
  simp only [pollEvent] at h
  split at h
  · cases h
    exact ⟨.refl, nofun⟩
  · split at h
    · cases h
      exact ⟨.refl, nofun⟩
    · split at h
      · cases h
      · cases h
        exact ⟨.refl, nofun⟩
      · split at h
        · cases h
          exact ⟨.refl, nofun⟩
        · obtain ⟨hinner, hout⟩ := inner_pollLoop h
          refine ⟨hinner, fun r hr => ?_⟩
          obtain ⟨t, hst, hts, c, hc, e, he, hr⟩ := hout r hr
          exact ⟨t, hst, hts, c, hc, e, he, _, hr⟩

theorem inner_getEventHandle {r : ReceiveEvent} {eventHandle out : EventHandle} {ret : Ret}
    (h : getEventHandle w r eventHandle s = some (ret, out, s')) : Inner w s s' := by
  simp only [getEventHandle] at h
  split at h
  · cases h
  · cases h
    exact .refl
  · simp only [Option.bind_eq_bind, Option.bind_eq_some_iff, Option.pure_def, Option.some.injEq,
      Prod.mk.injEq] at h
    obtain ⟨_, -, _, -, _, -, ⟨r₂, t⟩, hcheck, -, -, rfl⟩ := h
    exact inner_checkProgress hcheck

/-- Every call but `FTBC_Connect` and `FTBC_Disconnect` is a sequence of steps. -/
theorem inner_call {call : ApiCall} (h : call.run w s = some s')
    (hc : ∀ cinfo extension handle, call ≠ .connect cinfo extension handle)
    (hd : ∀ handle, call ≠ .disconnect handle) : Inner w s s' := by
  cases call with
  | connect cinfo extension handle => exact absurd rfl (hc cinfo extension handle)
  | disconnect handle => exact absurd rfl (hd handle)
  | subscribeWithPolling subscribeHandle handle str =>
    obtain ⟨⟨_, _, _⟩, hr, rfl⟩ := Option.map_eq_some_iff.1 h
    have hadd : ∀ event c, (utilAddToPollingMap event c).queued = c.queued := fun _ _ => rfl
    exact inner_subscribeWith hadd hr
  | subscribeWithCallback subscribeHandle handle str callback arg =>
    obtain ⟨⟨_, _, _⟩, hr, rfl⟩ := Option.map_eq_some_iff.1 h
    have hadd : ∀ event c, (utilAddToCallbackMap callback arg event c).queued = c.queued :=
      fun _ _ => rfl
    exact inner_subscribeWith hadd hr
  | unsubscribe subscribeHandle =>
    obtain ⟨⟨_, _, _⟩, hr, rfl⟩ := Option.map_eq_some_iff.1 h
    exact inner_unsubscribe hr
  | publish handle eventName properties eventHandle =>
    obtain ⟨⟨_, _, _⟩, hr, rfl⟩ := Option.map_eq_some_iff.1 h
    exact inner_publish hr
  | pollEvent subscribeHandle bytes =>
    obtain ⟨⟨_, _, _⟩, hr, rfl⟩ := Option.map_eq_some_iff.1 h
    exact (inner_pollEvent hr).1
  | getEventHandle r eventHandle =>
    obtain ⟨⟨_, _, _⟩, hr, rfl⟩ := Option.map_eq_some_iff.1 h
    exact inner_getEventHandle hr
  | compareEventHandles h₁ h₂ =>
    obtain ⟨⟨_, _⟩, hr, rfl⟩ := Option.map_eq_some_iff.1 h
    simp only [compareEventHandles, Option.bind_eq_bind, Option.bind_eq_some_iff, Option.pure_def,
      Option.some.injEq, Prod.mk.injEq] at hr
    obtain ⟨⟨r, t⟩, hcheck, -, rfl⟩ := hr
    exact inner_checkProgress hcheck

/-! ## `FTBCI_Check_progress` returns -/

/-- The process has clients, and none that an error exit of `FTBC_Connect` freed. -/
structure Sound (s : Lib N) : Prop where
  leaf : s.manager.info.leaf = true
  map : ∃ map, s.clientInfoMap = some map ∧ ∀ c ∈ map.nodes, c.freed = false

theorem Sound.progress (h : Sound s) (hp : Progress s s')
    (hleaf : s'.manager.info.leaf = true) : Sound s' := by
  refine ⟨hleaf, ?_⟩
  obtain ⟨map, hm, hfreed⟩ := h.map
  obtain ⟨map', hm', hcores⟩ := hp.map_some hm
  refine ⟨map', hm', fun c' hc' => ?_⟩
  have hmem : c'.core ∈ map.nodes.map ClientInfo.core := by
    rw [← hcores]
    exact List.mem_map_of_mem hc'
  obtain ⟨c, hc, hcore⟩ := List.mem_map.1 hmem
  have heq : c'.freed = c.freed := eq_of_core (fun _ => rfl) hcore.symm
  rw [heq]
  exact hfreed c hc

theorem sound_getMsg (hs : Sound s) (blocking : Bool) (msg : Msg) :
    Sound (getMsg w blocking msg s).2.2 := by
  refine hs.progress (progress_getMsg blocking msg s) ?_
  simp only [getMsg, FTBM.get]
  split
  · exact hs.leaf
  · split
    · exact hs.leaf
    · split
      · exact FTBM.leaf_utilReconnect hs.leaf
      · exact hs.leaf

theorem handle_returns (hs : Sound s) (msg : Msg) :
    ∃ s', utilHandleFTBMMsg msg s = some s' ∧ Sound s' := by
  obtain ⟨map, hm, hfreed⟩ := hs.map
  have hfind : ∀ handle, findClient map handle ≠ none := by
    intro handle h
    simp only [findClient] at h
    split at h
    · cases h
    · rename_i c hf
      split at h
      · rename_i hc
        rw [hfreed c (List.mem_of_find?_eq_some hf)] at hc
        cases hc
      · cases h
  have hsome : (utilHandleFTBMMsg msg s).isSome = true := by
    simp only [utilHandleFTBMMsg, hm]
    split
    · rfl
    · cases hf : findClient map (convertClientidToClienthandle msg.dst.clientId) with
      | none => exact absurd hf (hfind _)
      | some found => cases found <;> rfl
  obtain ⟨s', hs'⟩ := Option.isSome_iff_exists.1 hsome
  refine ⟨s', hs', hs.progress (progress_handle hs') ?_⟩
  rw [handle_manager hs']
  exact hs.leaf

theorem checkLoop_returns : ∀ {n : Nat} {s : Lib N}, Sound s → w.waiting s.manager.net < n →
    ∃ ret s', checkLoop w n s = some (ret, s') ∧ Sound s' := by
  intro n
  induction n with
  | zero =>
    intro s _ h
    omega
  | succ n ih =>
    intro s hs hn
    have hget := sound_getMsg (w := w) hs false default
    simp only [checkLoop]
    split
    · rename_i hret
      have hlt := getMsg_waiting hret
      obtain ⟨t, ht, hsound⟩ := handle_returns hget (getMsg w false default s).2.1
      have hm : t.manager = (getMsg w false default s).2.2.manager := handle_manager ht
      obtain ⟨ret, s', hrest, hs'⟩ := ih hsound (by rw [hm]; omega)
      refine ⟨ret, s', ?_, hs'⟩
      rw [ht]
      exact hrest
    · exact ⟨_, _, rfl, hget⟩

theorem sendMsg_returns (hs : Sound s) (msg : Msg) :
    ∃ ret s', sendMsg w msg s = some (ret, s') ∧ Sound s' := by
  have hsend := FTBM.send_leaf (w := w.toNetwork) hs.leaf msg
  refine ⟨_, _, by rw [sendMsg, hsend]; rfl, ?_⟩
  exact ⟨FTBM.leaf_send hsend hs.leaf, hs.map⟩

theorem resendMasks_returns : ∀ (masks : List Event) (msg : Msg) {s : Lib N}, Sound s →
    ∃ msg' s', resendMasks w masks msg s = some (msg', s') ∧ Sound s' := by
  intro masks
  induction masks with
  | nil => exact fun msg s hs => ⟨msg, s, rfl, hs⟩
  | cons mask masks ih =>
    intro msg s hs
    obtain ⟨ret, t, hsend, ht⟩ := sendMsg_returns (w := w) hs { msg with event := mask }
    obtain ⟨msg', s', hrest, hs'⟩ := ih { msg with event := mask } ht
    refine ⟨msg', s', ?_, hs'⟩
    rw [resendMasks, List.foldlM_cons]
    simp only [hsend]
    exact hrest

theorem resendClients_returns : ∀ {cs : List ClientInfo}, (∀ c ∈ cs, c.freed = false) →
    ∀ (msg : Msg) {s : Lib N}, Sound s → ∃ msg' s',
      cs.foldlM (fun (msg, s) c => resendClient w c msg s) (msg, s) = some (msg', s') := by
  intro cs
  induction cs with
  | nil => exact fun _ msg s _ => ⟨msg, s, rfl⟩
  | cons c cs ih =>
    intro hfreed msg s hs
    obtain ⟨ret, t, hsend, ht⟩ := sendMsg_returns (w := w) hs
      { msg with msgType := .clientReg, src := c.id, dst := parentDst msg.dst s.manager }
    obtain ⟨msg', u, hmasks, hu⟩ := resendMasks_returns (w := w) c.masks
      { { msg with msgType := .clientReg, src := c.id, dst := parentDst msg.dst s.manager } with
        msgType := .regSubscription } ht
    obtain ⟨msg'', s', hrest⟩ := ih (fun x hx => hfreed x (List.mem_cons_of_mem _ hx)) msg' hu
    refine ⟨msg'', s', ?_⟩
    have hc : resendClient w c msg s = some (msg', u) := by
      simp only [resendClient, hfreed c List.mem_cons_self, Bool.false_eq_true, if_false, hsend]
      exact hmasks
    rw [List.foldlM_cons]
    simp only [hc]
    exact hrest

/-- `FTBCI_Check_progress` returns in a process whose clients are all there. -/
theorem checkProgress_returns (hs : Sound s) : ∃ ret s', checkProgress w s = some (ret, s') := by
  unfold checkProgress
  split
  · exact ⟨_, _, rfl⟩
  · obtain ⟨ret, t, hloop, ht⟩ := checkLoop_returns (w := w) hs (Nat.lt_succ_self _)
    obtain ⟨map, hm, hfreed⟩ := ht.map
    obtain ⟨msg, s', hfold⟩ := resendClients_returns (w := w) hfreed default ht
    have hreconnect : FTBCI.utilReconnect w t = some s' := by
      simp only [FTBCI.utilReconnect, hm, hfold]
      rfl
    simp only [hloop]
    by_cases hret : ret = .errNetworkGeneral
    · refine ⟨ret, s', ?_⟩
      simp only [Option.bind_eq_bind, Option.bind_some, if_pos hret, hreconnect]
      rfl
    · refine ⟨ret, t, ?_⟩
      simp only [Option.bind_eq_bind, Option.bind_some, if_neg hret]
      rfl

end FTBC
