import Ftb.Client.Subscribing

/-!
# Subscription calls that fail

What a call of `FTBC_Subscribe_with_polling`, `FTBC_Subscribe_with_callback` or `FTBC_Unsubscribe`
leaves behind when it does not return `FTB_SUCCESS`. The two that subscribe write the handle and the
map before they send the registration, and `FTBC_Unsubscribe` marks the handle before it sends the
cancellation; none of them takes that back when the message is not sent. So a call that fails keeps
what was there if and only if it fails before that, or finds there what it writes (`failed_calls`).
-/

open FTB FTBU FTBN FTBMI FTBC

namespace FTBCI

variable {N : Type} {w : LeafNetwork N} {s s' : Lib N} {handle : ClientHandle} {c : ClientInfo}
  {event : Event}

/-- `polling_map` and `callback_map` of a client. -/
def ClientInfo.maps (c : ClientInfo) : Option PollingMap × Option CallbackMap :=
  (c.pollingMap, c.callbackMap)

/-- The maps of the client that `FTBCI_LOOKUP_CLIENT_INFO` finds. -/
def mapsOf (handle : ClientHandle) (s : Lib N) :
    Option (Except Ret (Option PollingMap × Option CallbackMap)) :=
  (lookupClientInfo handle s).map fun found => found.map ClientInfo.maps

/-- A call that fails leaves the caller's handle and the client's maps as they were. -/
def KeepsOnFailure {H : Type} (ret : Ret) (before after : H) (handle : ClientHandle)
    (s s' : Lib N) : Prop :=
  ret ≠ .success → after = before ∧ mapsOf handle s' = mapsOf handle s

theorem mapsOf_of_lookup (hl : lookupClientInfo handle s = some (.ok c)) :
    mapsOf handle s = some (.ok c.maps) := by
  rw [mapsOf, hl]
  rfl

theorem mapsOf_sent (h : Sent s s') : mapsOf handle s' = mapsOf handle s := by
  simp only [mapsOf, lookupClientInfo, h.clientInfoMap]

theorem maps_of_core {d : ClientInfo} (h : d.core = c.core) : d.maps = c.maps :=
  eq_of_core (f := ClientInfo.maps) (fun _ => rfl) h

/-! ## Calls that subscribe -/

/-- The mask is in `polling_map`. -/
def Polls (event : Event) (c : ClientInfo) : Prop :=
  ∀ map, c.pollingMap = some map → map.contains event = true

/-- The mask is in `callback_map`. -/
def Notifies (event : Event) (c : ClientInfo) : Prop :=
  ∀ map, c.callbackMap = some map → map.contains event = true

/-- The call comes as far as its registration. -/
structure Registers (type : UInt8) (subscribeHandle : Option SubscribeHandle)
    (clientHandle : ClientHandle) (subscriptionStr : Option CStr) (s : Lib N) (old : SubscribeHandle)
    (c : ClientInfo) (track : UInt8) (event : Event) : Prop where
  handle : subscribeHandle = some old
  valid : clientHandle.valid = 1
  lookup : lookupClientInfo clientHandle s = some (.ok c)
  supported : (c.subscriptionType &&& type == 0) = false
  parsed : parseSubscriptionString subscriptionStr s.track default = some (.success, track, event)

/-- The message of a subscription. -/
def subscriptionMsg (msgType : MsgType) (event : Event) (c : ClientInfo) (s : Lib N) : Msg :=
  { msgType, src := c.id, dst := parentDst default s.manager, event }

/-- `FTBM_Send` takes the message. -/
def Sends (w : LeafNetwork N) (msg : Msg) (s : Lib N) : Prop :=
  ∃ u, sendMsg w msg s = some (.success, u)

/-- A call that comes as far as its registration sends it, or finds the handle and the map as it leaves
them. `FTBCI_Check_progress` comes before. -/
def SubscribesWell (w : LeafNetwork N) (type : UInt8) (present : Event → ClientInfo → Prop)
    (subscribeHandle : Option SubscribeHandle) (clientHandle : ClientHandle)
    (subscriptionStr : Option CStr) (s : Lib N) : Prop :=
  ∀ old c track event,
    Registers type subscribeHandle clientHandle subscriptionStr s old c track event →
    (∃ r t, checkProgress w { s with track } = some (r, t) ∧
        Sends w (subscriptionMsg .regSubscription event c t) t) ∨
      old = ⟨clientHandle, event, type, 1⟩ ∧ present event c

/-- A send does not look at the clients. -/
theorem sendMsg_update {msg : Msg} {f : ClientInfo → ClientInfo} {ret : Ret} {u : Lib N}
    (h : sendMsg w msg (s.update handle f) = some (ret, u)) : ∃ v, sendMsg w msg s = some (ret, v) := by
  simp only [sendMsg, Option.bind_eq_bind, Option.bind_eq_some_iff, Option.pure_def,
    Option.some.injEq, Prod.mk.injEq] at h ⊢
  obtain ⟨⟨r, a⟩, ha, rfl, -⟩ := h
  exact ⟨_, ⟨r, a⟩, ha, rfl, rfl⟩

section
variable {type : UInt8} {add : Event → ClientInfo → ClientInfo}
  {subscribeHandle out : Option SubscribeHandle} {clientHandle : ClientHandle}
  {subscriptionStr : Option CStr} {ret : Ret}

/-- A call ends before it writes anything, or it writes, and its result is that of `FTBM_Send`. -/
theorem subscribeWith_cases (h : subscribeWith w type add subscribeHandle clientHandle
    subscriptionStr s = some (ret, out, s')) :
    (out = subscribeHandle ∧ mapsOf clientHandle s' = mapsOf clientHandle s ∧
        ∀ old c track event,
          ¬Registers type subscribeHandle clientHandle subscriptionStr s old c track event) ∨
      ∃ old c track event r t,
        Registers type subscribeHandle clientHandle subscriptionStr s old c track event ∧
        out = some ⟨clientHandle, event, type, 1⟩ ∧
        checkProgress w { s with track } = some (r, t) ∧
        sendMsg w (subscriptionMsg .regSubscription event c t)
          (t.update clientHandle (add event)) = some (ret, s') := by
  simp only [subscribeWith] at h
  split at h
  · cases h
    exact .inl ⟨rfl, rfl, fun _ _ _ _ hr => by cases hr.handle⟩
  · rename_i old
    split at h
    · rename_i hvalid
      cases h
      exact .inl ⟨rfl, rfl, fun _ _ _ _ hr => hvalid hr.valid⟩
    · rename_i hvalid
      split at h
      · cases h
      · rename_i hl
        cases h
        exact .inl ⟨rfl, rfl, fun _ _ _ _ hr => by cases hl.symm.trans hr.lookup⟩
      · rename_i c hl
        split at h
        · rename_i htype
          cases h
          refine .inl ⟨rfl, rfl, fun _ _ _ _ hr => ?_⟩
          cases hl.symm.trans hr.lookup
          exact absurd (hr.supported.symm.trans htype) (by decide)
        · rename_i htype
          split at h
          · cases h
          · rename_i r track event hparse
            split at h
            · rename_i hfail
              cases h
              refine .inl ⟨rfl, rfl, fun _ _ _ _ hr => ?_⟩
              cases hparse.symm.trans hr.parsed
              exact hfail rfl
            · rename_i hok
              simp only [Option.bind_eq_bind, Option.bind_eq_some_iff, Option.pure_def,
                Option.some.injEq, Prod.mk.injEq] at h
              obtain ⟨⟨r₁, t⟩, hcheck, ⟨r₂, u⟩, hsend, rfl, rfl, rfl⟩ := h
              rw [not_not.1 hok] at hparse
              exact .inr ⟨old, c, track, event, r₁, t, ⟨rfl, not_not.1 hvalid, hl,
                Bool.eq_false_iff.2 htype, hparse⟩, rfl, hcheck, hsend⟩

theorem subscribeWith_keeps {present : Event → ClientInfo → Prop}
    (hadd : ∀ event, Local (add event))
    (hmaps : ∀ event (c d : ClientInfo), c.maps = d.maps → (add event c).maps = (add event d).maps)
    (hpresent : ∀ event c, (add event c).maps = c.maps ↔ present event c)
    (h : subscribeWith w type add subscribeHandle clientHandle subscriptionStr s =
      some (ret, out, s')) :
    KeepsOnFailure ret subscribeHandle out clientHandle s s' ↔
      SubscribesWell w type present subscribeHandle clientHandle subscriptionStr s := by
  rcases subscribeWith_cases h with ⟨hout, hkeep, hno⟩ |
    ⟨old, c, track, event, r, t, hr, hout, hcheck, hsend⟩
  · exact iff_of_true (fun _ => ⟨hout, hkeep⟩) fun old c track event hr =>
      absurd hr (hno old c track event)
  · -- what the call leaves in the maps
    obtain ⟨d, hd, hcore⟩ := (progress_checkProgress hcheck).lookup
      (show lookupClientInfo clientHandle { s with track } = some (.ok c) from hr.lookup)
    have hleft : mapsOf clientHandle s' = some (.ok (add event c).maps) := by
      rw [mapsOf_sent (sent_sendMsg hsend), mapsOf_of_lookup (lookup_update (hadd event) hd),
        hmaps event d c (maps_of_core hcore)]
    have hfound : mapsOf clientHandle s = some (.ok c.maps) := mapsOf_of_lookup hr.lookup
    constructor
    · intro hkeeps old' c' track' event' hr'
      cases hr.handle.symm.trans hr'.handle
      cases hr.lookup.symm.trans hr'.lookup
      cases hr.parsed.symm.trans hr'.parsed
      by_cases hret : ret = .success
      · obtain ⟨v, hv⟩ := sendMsg_update hsend
        exact .inl ⟨r, t, hcheck, v, hret ▸ hv⟩
      · obtain ⟨hold, hkeep⟩ := hkeeps hret
        rw [hleft, hfound] at hkeep
        rw [hout, hr.handle] at hold
        cases hold
        exact .inr ⟨rfl, (hpresent event c).1 (Except.ok.inj (Option.some.inj hkeep))⟩
    · intro hwell hret
      rcases hwell old c track event hr with ⟨r', t', hcheck', v, hv⟩ | ⟨rfl, hp⟩
      · cases hcheck.symm.trans hcheck'
        obtain ⟨v', hv'⟩ := sendMsg_update hsend
        cases hv.symm.trans hv'
        exact absurd rfl hret
      · rw [hleft, hfound, (hpresent event c).2 hp]
        exact ⟨hout.trans hr.handle.symm, rfl⟩

end

/-- A mask that is there is not inserted again. -/
theorem insert_eq_iff {V : Type} {key : V → Event} (map : Option (KeyList key isEqualEvent)) (v : V) :
    (map.map fun m => m.insert v) = map ↔ ∀ m, map = some m → m.contains (key v) = true := by
  cases map with
  | none => simp
  | some m =>
    rw [Option.map_some, Option.some.injEq]
    constructor
    · intro h m' hm
      cases hm
      have hin := (KeyList.find?_insert_isSome' m v (key v)).2 (.inr (KeyEq.refl _))
      rw [h] at hin
      rwa [KeyList.contains_eq_isSome]
    · exact fun h => KeyList.insert_of_contains (h m rfl)

theorem maps_utilAddToPollingMap (event : Event) (c : ClientInfo) :
    (utilAddToPollingMap event c).maps = c.maps ↔ Polls event c := by
  rw [ClientInfo.maps, ClientInfo.maps, Prod.mk.injEq]
  exact (and_iff_left rfl).trans (insert_eq_iff c.pollingMap event)

theorem maps_utilAddToCallbackMap (callback arg : Nat) (event : Event) (c : ClientInfo) :
    (utilAddToCallbackMap callback arg event c).maps = c.maps ↔ Notifies event c := by
  rw [ClientInfo.maps, ClientInfo.maps, Prod.mk.injEq]
  exact (and_iff_right rfl).trans (insert_eq_iff c.callbackMap ⟨event, callback, arg⟩)

/-! ## `FTBC_Unsubscribe` -/

/-- A call that comes as far as its cancellation sends it. -/
def UnsubscribesWell (w : LeafNetwork N) (subscribeHandle : SubscribeHandle) (s : Lib N) : Prop :=
  ∀ c, lookupClientInfo subscribeHandle.clientHandle s = some (.ok c) → subscribeHandle.valid ≠ 0 →
    Sends w (subscriptionMsg .subscriptionCancel subscribeHandle.subscriptionEvent c s) s

theorem unsubscribe_keeps {subscribeHandle out : SubscribeHandle} {ret : Ret}
    (h : unsubscribe w subscribeHandle s = some (ret, out, s')) :
    KeepsOnFailure ret subscribeHandle out subscribeHandle.clientHandle s s' ↔
      UnsubscribesWell w subscribeHandle s := by
  simp only [unsubscribe] at h
  split at h
  · cases h
  · rename_i hl
    cases h
    exact iff_of_true (fun _ => ⟨rfl, rfl⟩) fun _ hl' => by cases hl.symm.trans hl'
  · rename_i c hl
    split at h
    · rename_i hvalid
      cases h
      exact iff_of_true (fun _ => ⟨rfl, rfl⟩) fun _ _ hv => absurd (beq_iff_eq.1 hvalid) hv
    · rename_i hvalid
      have hvalid' : subscribeHandle.valid ≠ 0 := fun hv => hvalid (beq_iff_eq.2 hv)
      simp only [Option.bind_eq_bind, Option.bind_eq_some_iff] at h
      obtain ⟨⟨r, u⟩, hsend, h⟩ := h
      by_cases hr : r = .success
      · rw [if_neg (not_not.2 hr)] at h
        simp only [Option.bind_eq_some_iff, Option.pure_def, Option.some.injEq, Prod.mk.injEq] at h
        obtain ⟨-, -, rfl, -⟩ := h
        refine iff_of_true (fun hret => absurd hr hret) fun c' hl' _ => ?_
        cases hl.symm.trans hl'
        exact ⟨u, hr ▸ hsend⟩
      · rw [if_pos hr] at h
        cases h
        refine iff_of_false (fun hkeeps => ?_) fun hwell => ?_
        · exact hvalid' (congrArg SubscribeHandle.valid (hkeeps hr).1).symm
        · obtain ⟨v, hv⟩ := hwell c hl hvalid'
          cases hsend.symm.trans hv
          exact hr rfl

/-- **Calls that fail.** Whatever they return, the two calls that subscribe keep handle and maps when
they fail if and only if they do not fail in `FTBM_Send` after a write, and `FTBC_Unsubscribe` does if
and only if it does not fail there. -/
theorem failed_calls (w : LeafNetwork N) (s : Lib N) :
    (∀ subscribeHandle clientHandle subscriptionStr ret out s',
      subscribeWithPolling w subscribeHandle clientHandle subscriptionStr s = some (ret, out, s') →
        (KeepsOnFailure ret subscribeHandle out clientHandle s s' ↔
          SubscribesWell w subscriptionPolling Polls subscribeHandle clientHandle subscriptionStr
            s)) ∧
      (∀ subscribeHandle clientHandle subscriptionStr callback arg ret out s',
        subscribeWithCallback w subscribeHandle clientHandle subscriptionStr callback arg s =
            some (ret, out, s') →
          (KeepsOnFailure ret subscribeHandle out clientHandle s s' ↔
            SubscribesWell w subscriptionNotify Notifies subscribeHandle clientHandle subscriptionStr
              s)) ∧
      ∀ subscribeHandle ret out s',
        unsubscribe w subscribeHandle s = some (ret, out, s') →
          (KeepsOnFailure ret subscribeHandle out subscribeHandle.clientHandle s s' ↔
            UnsubscribesWell w subscribeHandle s) := by
  refine ⟨?_, ?_, ?_⟩
  · intro subscribeHandle clientHandle subscriptionStr ret out s' h
    refine subscribeWith_keeps local_addToPollingMap ?_ maps_utilAddToPollingMap h
    intro event c d hcd
    simp only [ClientInfo.maps, Prod.mk.injEq] at hcd
    simp only [ClientInfo.maps, utilAddToPollingMap, hcd]
  · intro subscribeHandle clientHandle subscriptionStr callback arg ret out s' h
    refine subscribeWith_keeps (local_addToCallbackMap callback arg) ?_
      (maps_utilAddToCallbackMap callback arg) h
    intro event c d hcd
    simp only [ClientInfo.maps, Prod.mk.injEq] at hcd
    simp only [ClientInfo.maps, utilAddToCallbackMap, hcd]
  · exact fun subscribeHandle ret out s' h => unsubscribe_keeps h

section

/-- A layer with one agent, which takes messages as long as the link is up. -/
private def oneLink : LeafNetwork Bool where
  sendMsg _ up := (if up then .success else .errNetworkGeneral, up)
  connect _ _ up := (.success, { (default : LocationId) with pid := 1 }, up)
  disconnectPeer _ up := (.success, up)
  init up := (default, up)
  recvMsg _ up := (.noMsg, default, up)
  finalize up := up
  waiting _ := 0
  waiting_lt h := by cases h

/-- A client with both kinds of subscription. -/
private def linkedClient : Option (Lib Bool) :=
  (ApiCall.connect
    { eventSpace := "FTB.FTB_EXAMPLES.WATCHDOG".toList, clientName := "watchdog".toList
      clientJobid := [], clientSubscriptionStyle := "FTB_SUBSCRIPTION_BOTH".toList
      clientPollingQueueLen := 0 }
    0 (some default)).run oneLink (Lib.initial true)

private def linkedHandle : ClientHandle :=
  ⟨1, ⟨"FTB".toList, "FTB_EXAMPLES".toList, "WATCHDOG".toList, "watchdog".toList, 0⟩⟩

/-- The call fails, and leaves another handle. -/
private theorem not_keeps {H : Type} [DecidableEq H] {before : H} {s : Lib Bool}
    {call : Lib Bool → Option (Ret × H × Lib Bool)} (hs : linkedClient = some s)
    (h : (linkedClient.bind fun s => (call (s.withNet false)).map fun r =>
      decide (r.1 ≠ .success ∧ r.2.1 ≠ before)) = some true) :
    ∃ ret out s', call (s.withNet false) = some (ret, out, s') ∧
      ¬KeepsOnFailure ret before out linkedHandle (s.withNet false) s' := by
  rw [hs] at h
  obtain ⟨⟨ret, out, s'⟩, hcall, hr⟩ := Option.map_eq_some_iff.1 h
  obtain ⟨hret, hout⟩ := of_decide_eq_true hr
  exact ⟨ret, out, s', hcall, fun hkeeps => hout (hkeeps hret).1⟩

/-- While the link is down, a mask is subscribed to, and a handle is cancelled. -/
theorem failed_calls_lost : ∃ s, linkedClient = some s ∧
    (∃ ret out s', subscribeWithPolling oneLink (some default) linkedHandle (some [])
        (s.withNet false) = some (ret, out, s') ∧
      ¬KeepsOnFailure ret (some default) out linkedHandle (s.withNet false) s') ∧
    (∃ ret out s', subscribeWithCallback oneLink (some default) linkedHandle (some []) 0 0
        (s.withNet false) = some (ret, out, s') ∧
      ¬KeepsOnFailure ret (some default) out linkedHandle (s.withNet false) s') ∧
    ∃ ret out s', unsubscribe oneLink ⟨linkedHandle, default, subscriptionPolling, 1⟩
        (s.withNet false) = some (ret, out, s') ∧
      ¬KeepsOnFailure ret ⟨linkedHandle, default, subscriptionPolling, 1⟩ out linkedHandle
        (s.withNet false) s' := by
  have hconn : linkedClient.isSome = true := by decide
  obtain ⟨s, hs⟩ := Option.isSome_iff_exists.1 hconn
  exact ⟨s, hs, not_keeps hs (by decide), not_keeps hs (by decide), not_keeps hs (by decide)⟩

/-- A mask is subscribed to, and once more while the link is down: that call fails, and leaves handle
and maps as they were. -/
theorem failed_calls_again : ∃ s sh s₁ ret out s₂, linkedClient = some s ∧
    subscribeWithPolling oneLink (some default) linkedHandle (some []) s =
      some (.success, some sh, s₁) ∧
    subscribeWithPolling oneLink (some sh) linkedHandle (some []) (s₁.withNet false) =
      some (ret, out, s₂) ∧
    ret = .errNetworkGeneral ∧ out = some sh ∧
    mapsOf linkedHandle s₂ = mapsOf linkedHandle (s₁.withNet false) ∧
    SubscribesWell oneLink subscriptionPolling Polls (some sh) linkedHandle (some [])
      (s₁.withNet false) := by
  have hany : (linkedClient.bind fun s =>
      (subscribeWithPolling oneLink (some default) linkedHandle (some []) s).bind fun r =>
      (subscribeWithPolling oneLink r.2.1 linkedHandle (some []) (r.2.2.withNet false)).map fun r' =>
      decide (r.1 = .success ∧ r.2.1.isSome = true ∧ r'.1 = .errNetworkGeneral ∧ r'.2.1 = r.2.1 ∧
        mapsOf linkedHandle r'.2.2 = mapsOf linkedHandle (r.2.2.withNet false))) = some true := by
    decide
  obtain ⟨s, hs, hany⟩ := Option.bind_eq_some_iff.1 hany
  obtain ⟨⟨ret₁, out₁, s₁⟩, hfirst, hany⟩ := Option.bind_eq_some_iff.1 hany
  obtain ⟨⟨ret, out, s₂⟩, hsecond, hx⟩ := Option.map_eq_some_iff.1 hany
  obtain ⟨hret₁, hsome, hret, hout, hmaps⟩ := of_decide_eq_true hx
  obtain ⟨sh, rfl⟩ := Option.isSome_iff_exists.1 hsome
  obtain rfl : ret₁ = .success := hret₁
  exact ⟨s, sh, s₁, ret, out, s₂, hs, hfirst, hsecond, hret, hout, hmaps,
    ((failed_calls oneLink (s₁.withNet false)).1 _ _ _ _ _ _ hsecond).1 fun _ => ⟨hout, hmaps⟩⟩

end

end FTBCI
