import Ftb.Client.Subscribing

/-!
# Which callbacks are made

`callback_map` has one entry for a class of masks that `FTBU_is_equal_event` does not tell apart:
the first that was subscribed since an unsubscription of the class (`Kept`). An event reaches a
callback when it matches the mask of such an entry, and so do the events in front of it in the queue
(`served_iff`), which a live callback handle alone does not give.
-/

open FTB FTBU FTBN FTBMI FTBCI Trace

namespace FTBC

variable {N : Type} {w : LeafNetwork N} {s s' : Lib N} {handle : ClientHandle}

/-! ## The callback map as a history -/

/-- It subscribes a callback for the class of the mask. -/
def SubEvent.callsBack : SubEvent → Event → Bool
  | .callback m _ _, mask => isEqualEvent m mask
  | _, _ => false

/-- It unsubscribes the class of the mask. -/
def SubEvent.cancels : SubEvent → Event → Bool
  | .cancel m, mask => isEqualEvent m mask
  | _, _ => false

/-- A callback was subscribed for the class of the mask, which was not unsubscribed since. -/
def ClassHeld (calls : List (SubCall N)) (mask : Event) : Prop :=
  Since (fun _ d => d.event.callsBack mask = true) (fun d => d.event.cancels mask = true) calls

/-- The callback was the first one subscribed for its class since the class was unsubscribed. -/
def Kept (calls : List (SubCall N)) (x : CallbackEntry) : Prop :=
  Since (fun pre d => d.event = .callback x.mask x.callback x.arg ∧ ¬ClassHeld pre x.mask)
    (fun d => d.event.cancels x.mask = true) calls

theorem classHeld_concat (calls : List (SubCall N)) (d : SubCall N) (mask : Event) :
    ClassHeld (calls ++ [d]) mask ↔ d.event.callsBack mask = true ∨
      (ClassHeld calls mask ∧ ¬d.event.cancels mask = true) :=
  since_concat calls d

theorem kept_concat (calls : List (SubCall N)) (d : SubCall N) (x : CallbackEntry) :
    Kept (calls ++ [d]) x ↔
      (d.event = .callback x.mask x.callback x.arg ∧ ¬ClassHeld calls x.mask) ∨
        (Kept calls x ∧ ¬d.event.cancels x.mask = true) :=
  since_concat calls d

theorem entries_polling (c : ClientInfo) (mask : Event) :
    ((SubEvent.polling mask).apply c).callbackEntries = c.callbackEntries := rfl

theorem mem_entries_callback {c : ClientInfo} {map : CallbackMap} (hmap : c.callbackMap = some map)
    (mask : Event) (f arg : Nat) (x : CallbackEntry) :
    x ∈ ((SubEvent.callback mask f arg).apply c).callbackEntries ↔ x ∈ c.callbackEntries ∨
      ((∀ y ∈ c.callbackEntries, isEqualEvent y.mask mask = false) ∧ x = ⟨mask, f, arg⟩) := by
  have hold : c.callbackEntries = map.nodes := by simp [ClientInfo.callbackEntries, hmap]
  have hnew : ((SubEvent.callback mask f arg).apply c).callbackEntries =
      (map.insert ⟨mask, f, arg⟩).nodes := by
    simp [ClientInfo.callbackEntries, SubEvent.apply, utilAddToCallbackMap, hmap]
  rw [hold, hnew]
  exact KeyList.mem_insert_iff

theorem mem_entries_cancel (c : ClientInfo) (mask : Event) (x : CallbackEntry) :
    x ∈ ((SubEvent.cancel mask).apply c).callbackEntries ↔
      x ∈ c.callbackEntries ∧ isEqualEvent x.mask mask = false := by
  cases hmap : c.callbackMap with
  | none =>
    simp [ClientInfo.callbackEntries, SubEvent.apply, utilRemoveFromSubscriptionMap, hmap]
  | some map =>
    simp [ClientInfo.callbackEntries, SubEvent.apply, utilRemoveFromSubscriptionMap, hmap,
      KeyList.mem_erase]

/-- The style of a client says whether it has a callback map. -/
theorem callbackMap_isSome (id : Id) (jobid : CStr) (ty : UInt8) (len : Int)
    (calls : List (SubCall N)) :
    (replay (newClientInfo id jobid ty len) calls).callbackMap.isSome =
      (newClientInfo id jobid ty len).notifies := by
  induction calls using List.reverseRecOn with
  | nil =>
    simp only [replay, newClientInfo, ClientInfo.notifies, List.map_nil, List.foldl_nil]
    split <;> simp_all
  | append_singleton calls d ih =>
    rw [replay_concat, ← ih]
    cases d.event with
    | polling mask => rfl
    | callback mask f arg => exact Option.isSome_map
    | cancel mask => exact Option.isSome_map

/-- The entries of the map are the callbacks that were kept, and every class that is held has one. -/
theorem entries_iff {id : Id} {jobid : CStr} {ty : UInt8} {len : Int} (calls : List (SubCall N))
    (hallowed : ∀ d ∈ calls, d.event.Allowed (newClientInfo id jobid ty len)) :
    (∀ x, x ∈ (replay (newClientInfo id jobid ty len) calls).callbackEntries ↔ Kept calls x) ∧
      ∀ mask, (∃ x ∈ (replay (newClientInfo id jobid ty len) calls).callbackEntries,
        isEqualEvent x.mask mask = true) ↔ ClassHeld calls mask := by
  induction calls using List.reverseRecOn with
  | nil =>
    have hnil : (replay (newClientInfo id jobid ty len) ([] : List (SubCall N))).callbackEntries =
        [] := by
      simp only [replay, newClientInfo, ClientInfo.callbackEntries, List.map_nil, List.foldl_nil]
      split <;> rfl
    exact ⟨fun x => by simp [hnil, Kept], fun m => by simp [hnil, ClassHeld]⟩
  | append_singleton calls d ih =>
    obtain ⟨hkept, hheld⟩ := ih fun x hx => hallowed x (List.mem_append_left _ hx)
    have hd := hallowed d (by simp)
    have hmap := callbackMap_isSome id jobid ty len calls
    rw [replay_concat]
    simp only [kept_concat, classHeld_concat]
    cases he : d.event with
    | polling mask =>
      simp only [entries_polling, SubEvent.callsBack, SubEvent.cancels, Bool.false_eq_true,
        not_false_eq_true, and_true, false_or, reduceCtorEq, false_and]
      exact ⟨hkept, hheld⟩
    | callback mask f arg =>
      rw [he] at hd
      rw [show (newClientInfo id jobid ty len).notifies = true from hd] at hmap
      obtain ⟨map, hmap⟩ := Option.isSome_iff_exists.1 hmap
      simp only [mem_entries_callback hmap, SubEvent.callsBack, SubEvent.cancels]
      have hnone : (∀ y ∈ (replay (newClientInfo id jobid ty len) calls).callbackEntries,
          isEqualEvent y.mask mask = false) ↔ ¬ClassHeld calls mask := by
        rw [← hheld]
        simp
      refine ⟨fun x => ?_, fun m => ?_⟩
      · rw [hnone, hkept x]
        constructor
        · rintro (hx | ⟨hnew, rfl⟩)
          · exact .inr ⟨hx, by simp⟩
          · exact .inl ⟨rfl, hnew⟩
        · rintro (⟨hx, hnew⟩ | ⟨hx, -⟩)
          · cases hx
            exact .inr ⟨hnew, rfl⟩
          · exact .inl hx
      · rw [hnone]
        constructor
        · rintro ⟨x, hx | ⟨-, rfl⟩, heq⟩
          · exact .inr ⟨(hheld m).1 ⟨x, hx, heq⟩, by simp⟩
          · exact .inl heq
        · rintro (heq | ⟨hm, -⟩)
          · -- the new callback is there, or an older one of its class
            by_cases hc : ClassHeld calls mask
            · obtain ⟨x, hx, hxm⟩ := (hheld mask).2 hc
              exact ⟨x, .inl hx, KeyEq.trans hxm heq⟩
            · exact ⟨_, .inr ⟨hc, rfl⟩, heq⟩
          · obtain ⟨x, hx, hxm⟩ := (hheld m).2 hm
            exact ⟨x, .inl hx, hxm⟩
    | cancel mask =>
      simp only [mem_entries_cancel, SubEvent.callsBack, SubEvent.cancels]
      refine ⟨fun x => ?_, fun m => ?_⟩
      · rw [hkept x, KeyEq.comm isEqualEvent mask x.mask]
        simp
      · constructor
        · rintro ⟨x, ⟨hx, hne⟩, heq⟩
          refine .inr ⟨(hheld m).1 ⟨x, hx, heq⟩, ?_⟩
          rw [KeyEq.comm isEqualEvent, ← KeyEq.congr_left heq, hne]
          decide
        · rintro (hf | ⟨hm, hne⟩)
          · cases hf
          · obtain ⟨x, hx, heq⟩ := (hheld m).2 hm
            refine ⟨x, ⟨hx, ?_⟩, heq⟩
            rw [KeyEq.congr_left heq, KeyEq.comm isEqualEvent]
            simpa using hne

/-! ## Delivery -/

/-- A callback handle of the client that was not unsubscribed has a mask that the event matches. -/
def Live (handles : List SubscribeHandle) (e : Event) : Prop :=
  ∃ sh ∈ handles, sh.valid ≠ 0 ∧ sh.subscriptionType = subscriptionNotify ∧
    matchMask e sh.subscriptionEvent = true

/-- Turns of the component thread: the callbacks that it runs, and the client after them. -/
def callbackTurns : Nat → ClientInfo → Option (List (CallbackEntry × ReceiveEvent) × ClientInfo)
  | 0, c => some ([], c)
  | n + 1, c => do
    let (o, c) ← callbackComponent c
    let (given, c) ← callbackTurns n c
    pure (o.toList ++ given, c)

/-- A notification of the event puts it on the callback queue of the client. The component thread then
handles the events in front of it, and its next turn runs with the event a callback that was subscribed
with a mask that it matches. -/
def Served (handle : ClientHandle) (calls : List (SubCall N)) (e : Event) (s : Lib N) : Prop :=
  ∀ msg : Msg, msg.msgType = .notify → msg.event = e → msg.dst.clientId = handle.clientId →
    ∃ c c' s', lookupClientInfo handle s = some (.ok c) ∧ utilHandleFTBMMsg msg s = some s' ∧
      lookupClientInfo handle s' = some (.ok c') ∧
      c'.callbackEventQueue = c.callbackEventQueue ++ [⟨e, msg.src⟩] ∧
      ∃ given c₁ x r c₂, callbackTurns c.callbackEventQueue.length c' = some (given, c₁) ∧
        callbackComponent c₁ = some (some (x, r), c₂) ∧
        receiveEvent ⟨e, msg.src⟩ Cell.blank = some r ∧
        matchMask e x.mask = true ∧ ∃ d ∈ calls, d.event = .callback x.mask x.callback x.arg

/-- The event space of the event fits into the array of the receiver. -/
def Fits (e : Event) : Prop :=
  (concatenateStrings e.region e.compCat e.comp).length < maxEventspace

/-- The event fits, and matches the mask of a callback that was the first of its class. -/
def CalledFor (calls : List (SubCall N)) (e : Event) : Prop :=
  Fits e ∧ ∃ x, Kept calls x ∧ matchMask e x.mask = true

/-- The component thread can call back with the event: it fits, and an entry of the map matches. -/
def Callable (c : ClientInfo) (e : Event) : Prop :=
  Fits e ∧ ∃ x ∈ c.callbackEntries, matchMask e x.mask = true

instance (e : Event) : Decidable (Fits e) := inferInstanceAs (Decidable (List.length _ < _))

instance (c : ClientInfo) (e : Event) : Decidable (Callable c e) :=
  inferInstanceAs (Decidable (_ ∧ _))

instance (handles : List SubscribeHandle) (e : Event) : Decidable (Live handles e) :=
  inferInstanceAs (Decidable (∃ sh ∈ handles, _))

/-- The events in the callback queue of the client. -/
def callbackQueue (handle : ClientHandle) (s : Lib N) : List EventInst :=
  match lookupClientInfo handle s with
  | some (.ok c) => c.callbackEventQueue
  | _ => []

theorem Kept.mem {calls : List (SubCall N)} {x : CallbackEntry} (h : Kept calls x) :
    ∃ d ∈ calls, d.event = .callback x.mask x.callback x.arg := by
  obtain ⟨pre, d, post, rfl, ⟨hd, -⟩, -⟩ := h
  exact ⟨d, by simp, hd⟩

/-- The entries in the map of the client are the callbacks that were kept. -/
theorem Subscribed.entries {id : Id} {calls : List (SubCall N)} {handles : List SubscribeHandle}
    (hr : Subscribed w handle id calls handles s) : ∃ c, lookupClientInfo handle s = some (.ok c) ∧
      (∀ x, x ∈ c.callbackEntries ↔ Kept calls x) ∧ ∀ x ∈ c.callbackEntries, c.notifies = true := by
  obtain ⟨jobid, ty, len, -, -, htraced⟩ := hr.traced
  have hallowed : ∀ d ∈ calls, d.event.Allowed (newClientInfo id jobid ty len) := by
    intro d hd
    obtain ⟨pre, post, heq⟩ := List.append_of_mem hd
    exact (htraced.steps pre d post heq).2.2
  obtain ⟨hentries, -⟩ := entries_iff calls hallowed
  obtain ⟨c, hl, hcore⟩ := htraced.now
  have hce : c.callbackEntries = (replay (newClientInfo id jobid ty len) calls).callbackEntries :=
    eq_of_core (fun _ => rfl) hcore
  have hkept : ∀ x, x ∈ c.callbackEntries ↔ Kept calls x := fun x => by rw [hce]; exact hentries x
  refine ⟨c, hl, hkept, fun x hx => ?_⟩
  obtain ⟨d, hd, he⟩ := ((hkept x).1 hx).mem
  have ha := hallowed d hd
  rw [he] at ha
  have hty : c.subscriptionType = ty :=
    (eq_of_core (fun _ => rfl) hcore).trans (replay_style _ calls).1
  rw [ClientInfo.notifies, hty]
  exact ha

theorem Subscribed.calledFor_iff {id : Id} {calls : List (SubCall N)}
    {handles : List SubscribeHandle} (hr : Subscribed w handle id calls handles s) {c : ClientInfo}
    (hl : lookupClientInfo handle s = some (.ok c)) (e : Event) :
    CalledFor calls e ↔ Callable c e := by
  obtain ⟨c', hl', hkept, -⟩ := hr.entries
  rw [hl] at hl'
  cases hl'
  simp only [CalledFor, Callable, hkept]

theorem callbackEntries_receive (entry : EventInst) (c : ClientInfo) :
    (receive entry c).callbackEntries = c.callbackEntries :=
  eq_of_core (fun _ => rfl) (core_receive entry c)

/-- An event that arrives does not change what can be called back. -/
theorem callable_receive (entry : EventInst) (c : ClientInfo) (e : Event) :
    Callable (receive entry c) e ↔ Callable c e := by
  rw [Callable, callbackEntries_receive, Callable]

/-- What `FTBCI_util_handle_FTBM_msg` does with a notification for the client. -/
theorem handle_notify {c : ClientInfo} (msg : Msg) (hl : lookupClientInfo handle s = some (.ok c))
    (ht : msg.msgType = .notify) (hd : msg.dst.clientId = handle.clientId) :
    ∃ s', utilHandleFTBMMsg msg s = some s' ∧
      lookupClientInfo handle s' = some (.ok (receive ⟨msg.event, msg.src⟩ c)) := by
  let dst := convertClientidToClienthandle msg.dst.clientId
  have hdst : ∀ t : Lib N, lookupClientInfo dst t = lookupClientInfo handle t := fun t =>
    lookup_congr (fun x => by simp only [isEqualClienthandle, dst, convertClientidToClienthandle, hd]) t
  have hl' : lookupClientInfo dst { s with handled := s.handled ++ [msg] } = some (.ok c) :=
    (hdst s).trans hl
  obtain ⟨map, hm, hf⟩ := lookup_iff.1 hl'
  have hm : s.clientInfoMap = some map := hm
  refine ⟨_, ?_, (hdst _).symm.trans (lookup_update (local_receive ⟨msg.event, msg.src⟩) hl')⟩
  unfold utilHandleFTBMMsg
  rw [if_neg (not_not_intro ht)]
  simp only [hm]
  simp only [dst] at hf
  rw [hf]

theorem receive_queue (entry : EventInst) (c : ClientInfo) :
    (receive entry c).callbackEventQueue = c.callbackEventQueue ++
      (if (c.notifies && c.callbackEntries.any fun x => matchMask entry.eventInst x.mask) = true then
        [entry] else []) := by
  unfold receive
  split
  · rfl
  · unfold utilPushToCompPollingList
    split
    · split <;> simp
    · simp

/-- A turn with the event at the front runs a callback exactly when an entry matches and the event
fits. Otherwise it does what it must not: it writes past the end of the array, or releases an event that
is released already or still linked. -/
theorem callbackComponent_isSome {entry : EventInst} {rest : List EventInst} {c : ClientInfo}
    (hq : c.callbackEventQueue = entry :: rest) :
    (callbackComponent c).isSome = true ↔ Callable c entry.eventInst := by
  simp only [callbackComponent, Callable, hq]
  cases hf : c.callbackEntries.find? fun x => matchMask entry.eventInst x.mask with
  | none =>
    have hnone := List.find?_eq_none.1 hf
    simp only [Option.isSome_none, Bool.false_eq_true, false_iff, not_and]
    rintro - ⟨x, hx, hm⟩
    exact hnone x hx hm
  | some y =>
    have hym := List.find?_some (p := fun x : CallbackEntry => matchMask entry.eventInst x.mask) hf
    rw [and_iff_left ⟨y, List.mem_of_find?_eq_some hf, hym⟩]
    unfold receiveEvent Fits
    dsimp only
    split
    · rename_i hlong
      simp [hlong]
    · rename_i hshort
      simp only [Nat.not_le] at hshort
      simp [hshort]

/-- Such a turn takes the event off the queue, and the entry whose callback it runs matches. -/
theorem callbackComponent_front {entry : EventInst} {rest : List EventInst} {c c' : ClientInfo}
    {o : Option (CallbackEntry × ReceiveEvent)} (hq : c.callbackEventQueue = entry :: rest)
    (h : callbackComponent c = some (o, c')) :
    c' = { c with callbackEventQueue := rest } ∧ ∃ x r, o = some (x, r) ∧ x ∈ c.callbackEntries ∧
      matchMask entry.eventInst x.mask = true ∧ receiveEvent entry Cell.blank = some r := by
  simp only [callbackComponent, hq] at h
  split at h
  · cases h
  · rename_i y hf
    simp only [Option.bind_eq_bind, Option.bind_eq_some_iff, Option.pure_def, Option.some.injEq,
      Prod.mk.injEq] at h
    obtain ⟨r, hr, rfl, rfl⟩ := h
    have hym := List.find?_some (p := fun x : CallbackEntry => matchMask entry.eventInst x.mask) hf
    exact ⟨rfl, y, r, rfl, List.mem_of_find?_eq_some hf, hym, hr⟩

/-- The thread gets through the events in front exactly when it can call back each of them. -/
theorem callbackTurns_front : ∀ (front : List EventInst) {rest : List EventInst} {c : ClientInfo},
    c.callbackEventQueue = front ++ rest →
    ((callbackTurns front.length c).isSome = true ↔ ∀ q ∈ front, Callable c q.eventInst) ∧
    ∀ given c₁, callbackTurns front.length c = some (given, c₁) →
      c₁ = { c with callbackEventQueue := rest } := by
  intro front
  induction front with
  | nil =>
    intro rest c hq
    refine ⟨by simp [callbackTurns], fun given c₁ h => ?_⟩
    obtain ⟨-, rfl⟩ := h
    rw [← show c.callbackEventQueue = rest from hq]
  | cons entry front ih =>
    intro rest c hq
    have hone := callbackComponent_isSome hq
    simp only [List.length_cons, callbackTurns, List.forall_mem_cons, ← hone]
    cases hc : callbackComponent c with
    | none => simp
    | some p =>
      obtain ⟨o, c'⟩ := p
      obtain ⟨rfl, -⟩ := callbackComponent_front hq hc
      obtain ⟨hall, hend⟩ := ih (c := { c with callbackEventQueue := front ++ rest }) rfl
      refine ⟨?_, fun given c₁ h => ?_⟩
      · simp only [Option.isSome_some, true_and, Option.bind_eq_bind, Option.bind_some,
          Option.pure_def, Option.isSome_bind, Option.any_true]
        exact hall
      · simp only [Option.bind_eq_bind, Option.bind_some, Option.bind_eq_some_iff, Option.pure_def,
          Option.some.injEq, Prod.mk.injEq] at h
        obtain ⟨⟨_, _⟩, hrest, -, rfl⟩ := h
        exact hend _ _ hrest

/-- **An event with a live callback handle is served exactly when it is called for, and so are the
events in front of it**: each matches the mask of a callback that was the first of its class since the
class was unsubscribed, and fits the receiver's array. -/
theorem served_iff {id : Id} {calls : List (SubCall N)} {handles : List SubscribeHandle}
    (hr : Subscribed w handle id calls handles s) (e : Event) :
    (Live handles e → Served handle calls e s) ↔
      (Live handles e → CalledFor calls e ∧
        ∀ q ∈ callbackQueue handle s, CalledFor calls q.eventInst) := by
  obtain ⟨c, hl, hkept, hnotifies⟩ := hr.entries
  have hcalled := hr.calledFor_iff hl
  have hqueue : callbackQueue handle s = c.callbackEventQueue := by rw [callbackQueue, hl]
  refine imp_congr_right fun _ => ⟨fun hs => ?_, fun hk => ?_⟩
  · let dst : Id := { (default : Id) with clientId := handle.clientId }
    let msg : Msg := ⟨.notify, default, dst, e⟩
    obtain ⟨c₀, c', s', hl₀, hh, hl', hq, given, c₁, x, r, c₂, hfront, hturn, -⟩ := hs msg rfl rfl rfl
    obtain ⟨s₂, hh₂, hl₂⟩ := handle_notify msg hl rfl rfl
    rw [hh] at hh₂
    cases hh₂
    rw [hl'] at hl₂
    cases hl₂
    rw [hl] at hl₀
    cases hl₀
    obtain ⟨hall, hend⟩ := callbackTurns_front _ hq
    obtain rfl := hend _ _ hfront
    have hlast := (callbackComponent_isSome rfl).1 (Option.isSome_of_eq_some hturn)
    have hfirst := hall.1 (Option.isSome_of_eq_some hfront)
    rw [hqueue]
    refine ⟨(hcalled e).2 ?_, fun q hq => (hcalled _).2 ?_⟩
    · exact (callable_receive ⟨e, default⟩ c e).1 hlast
    · exact (callable_receive ⟨e, default⟩ c _).1 (hfirst q hq)
  · obtain ⟨he, hfront⟩ := hk
    rw [hqueue] at hfront
    simp only [hcalled] at he hfront
    rintro msg ht rfl hd
    obtain ⟨s', hh, hl'⟩ := handle_notify msg hl ht hd
    have hany : (c.notifies && c.callbackEntries.any fun x => matchMask msg.event x.mask) = true := by
      obtain ⟨x, hx, hm⟩ := he.2
      rw [hnotifies x hx, Bool.true_and]
      exact List.any_eq_true.2 ⟨x, hx, hm⟩
    have hq : (receive ⟨msg.event, msg.src⟩ c).callbackEventQueue =
        c.callbackEventQueue ++ [⟨msg.event, msg.src⟩] := by rw [receive_queue, if_pos hany]
    obtain ⟨hall, hend⟩ := callbackTurns_front _ hq
    obtain ⟨⟨given, c₁⟩, hgiven⟩ := Option.isSome_iff_exists.1
      (hall.2 fun q hq => (callable_receive _ c _).2 (hfront q hq))
    obtain rfl := hend _ _ hgiven
    have hlast : (callbackComponent { receive ⟨msg.event, msg.src⟩ c with
        callbackEventQueue := [⟨msg.event, msg.src⟩] }).isSome = true :=
      (callbackComponent_isSome rfl).2 ((callable_receive ⟨msg.event, msg.src⟩ c _).2 he)
    obtain ⟨⟨o, c₂⟩, hturn⟩ := Option.isSome_iff_exists.1 hlast
    obtain ⟨-, y, r, rfl, hy, hym, hr⟩ := callbackComponent_front rfl hturn
    have hy' : y ∈ c.callbackEntries := callbackEntries_receive ⟨msg.event, msg.src⟩ c ▸ hy
    exact ⟨c, _, s', hl, hh, hl', hq, given, _, y, r, c₂, hgiven, hturn, hr, hym,
      ((hkept y).1 hy').mem⟩

/-! ### Two subscriptions of one class -/

def monitorId : Id :=
  { (default : Id) with clientId := ⟨"FTB".toList, "FTB_EXAMPLES".toList, "MONITOR".toList,
      "monitor".toList, 0⟩ }

/-- A client with callbacks, and an agent that sends it notifications of the events, one after the
other. -/
def monitorRun (events : List Event) (steps : List SubStep) :
    Option (ClientHandle × Id × SubState (List (Ret × Msg))) :=
  subRun scripted (events.map fun e => (.success, ⟨.notify, default, monitorId, e⟩))
    { eventSpace := "FTB.FTB_EXAMPLES.MONITOR".toList, clientName := "monitor".toList
      clientJobid := [], clientSubscriptionStyle := "FTB_SUBSCRIPTION_NOTIFY".toList
      clientPollingQueueLen := 0 }
    steps

/-- An event of a client. -/
def eventOf (clientName : CStr) : Event where
  region := "FTB".toList
  compCat := "FTB_EXAMPLES".toList
  comp := "SIMPLE".toList
  eventName := "SIMPLE_EVENT".toList
  severity := "info".toList
  clientJobid := []
  clientName := clientName
  hostname := []

def subscribeClient (clientName : CStr) : SubStep :=
  .callback ("client_name=".toList ++ clientName) 0 0

/-- The number of events in the callback queue of the client. -/
def callbackQueueLength (handle : ClientHandle) (s : Lib (List (Ret × Msg))) : Option Nat :=
  match lookupClientInfo handle s with
  | some (.ok c) => some c.callbackEventQueue.length
  | _ => none

/-- Whether the event and those in front of it can be called back. -/
def callableBy (handle : ClientHandle) (e : Event) (s : Lib (List (Ret × Msg))) : Bool :=
  match lookupClientInfo handle s with
  | some (.ok c) => decide (Callable c e) && c.callbackEventQueue.all fun q => Callable c q.eventInst
  | _ => false

theorem callableBy_iff {w : LeafNetwork (List (Ret × Msg))} {id : Id}
    {calls : List (SubCall (List (Ret × Msg)))} {handles : List SubscribeHandle}
    {s : Lib (List (Ret × Msg))} (hr : Subscribed w handle id calls handles s) (e : Event) :
    callableBy handle e s = true ↔
      CalledFor calls e ∧ ∀ q ∈ callbackQueue handle s, CalledFor calls q.eventInst := by
  obtain ⟨c, hl, -⟩ := hr.entries
  simp only [callableBy, callbackQueue, hl, hr.calledFor_iff hl, Bool.and_eq_true,
    decide_eq_true_eq, List.all_eq_true]

/-- An event is served with another one in front of it. -/
theorem served_iff_monitor : ∃ handle id x,
    monitorRun [eventOf "a".toList] [subscribeClient "a".toList, .thread] = some (handle, id, x) ∧
      (callbackQueue handle x.2.2).length = 1 ∧ Live x.2.1 (eventOf "a".toList) ∧
      Served handle x.1 (eventOf "a".toList) x.2.2 := by
  have hany : ((monitorRun [eventOf "a".toList] [subscribeClient "a".toList, .thread]).any fun r =>
      decide ((callbackQueue r.1 r.2.2.2.2).length = 1) &&
      decide (Live r.2.2.2.1 (eventOf "a".toList)) &&
      callableBy r.1 (eventOf "a".toList) r.2.2.2.2) = true := by
    decide +kernel
  obtain ⟨⟨handle, id, x⟩, hrun, hx⟩ := (Option.any_eq_true _ _).1 hany
  simp only [Bool.and_eq_true, decide_eq_true_eq] at hx
  obtain ⟨⟨hone, hlive⟩, hcall⟩ := hx
  have hr := subRun_subscribed hrun
  refine ⟨handle, id, x, hrun, hone, hlive, (served_iff hr _).2 (fun _ => ?_) hlive⟩
  exact (callableBy_iff hr _).1 hcall

/-- After subscriptions to the events of two clients, an event of the second one has a live callback
handle and is not put on the callback queue. -/
theorem secondClient_unserved : ∃ handle id x,
    monitorRun [] [subscribeClient "a".toList, subscribeClient "b".toList] = some (handle, id, x) ∧
      Live x.2.1 (eventOf "b".toList) ∧ ¬Served handle x.1 (eventOf "b".toList) x.2.2 := by
  have hany : ((monitorRun [] [subscribeClient "a".toList, subscribeClient "b".toList]).any fun r =>
      (r.2.2.2.1.any fun sh => sh.valid ≠ 0 && sh.subscriptionType = subscriptionNotify &&
        matchMask (eventOf "b".toList) sh.subscriptionEvent) &&
      callbackQueueLength r.1 r.2.2.2.2 = some 0 &&
      (utilHandleFTBMMsg ⟨.notify, default, { (default : Id) with clientId := r.1.clientId },
        eventOf "b".toList⟩ r.2.2.2.2).any fun s => callbackQueueLength r.1 s = some 0) = true := by
    decide +kernel
  obtain ⟨⟨handle, id, x⟩, hrun, hx⟩ := (Option.any_eq_true _ _).1 hany
  simp only [Bool.and_eq_true, decide_eq_true_eq] at hx
  obtain ⟨⟨hlive, hbefore⟩, hafter⟩ := hx
  refine ⟨handle, id, x, hrun, ?_, fun hserved => ?_⟩
  · obtain ⟨sh, hmem, hsh⟩ := List.any_eq_true.1 hlive
    simp only [Bool.and_eq_true, decide_eq_true_eq] at hsh
    exact ⟨sh, hmem, hsh.1.1, hsh.1.2, hsh.2⟩
  · obtain ⟨s', hs', hlen⟩ := (Option.any_eq_true _ _).1 hafter
    obtain ⟨c, c', s₂, hl, hh, hl', hqueue, -⟩ := hserved
      ⟨.notify, default, { (default : Id) with clientId := handle.clientId }, eventOf "b".toList⟩
      rfl rfl rfl
    rw [hs'] at hh
    cases hh
    simp only [callbackQueueLength, hl, hl', Option.some.injEq, decide_eq_true_eq] at hbefore hlen
    have := congrArg List.length hqueue
    rw [List.length_append, hbefore, hlen] at this
    cases this

/-- The subscription that an event waits for is cancelled. The event behind it matches another one, and
is not served. -/
theorem oldEvent_unserved : ∃ handle id x,
    monitorRun [eventOf "a".toList] [subscribeClient "a".toList, .thread, .unsubscribe 0,
        subscribeClient "b".toList] = some (handle, id, x) ∧
      CalledFor x.1 (eventOf "b".toList) ∧ ¬Served handle x.1 (eventOf "b".toList) x.2.2 := by
  have hany : ((monitorRun [eventOf "a".toList] [subscribeClient "a".toList, .thread,
      .unsubscribe 0, subscribeClient "b".toList]).any fun r =>
      decide (Live r.2.2.2.1 (eventOf "b".toList)) &&
      (!callableBy r.1 (eventOf "b".toList) r.2.2.2.2) &&
      (lookupClientInfo r.1 r.2.2.2.2).any fun c => match c with
        | .ok c => decide (Callable c (eventOf "b".toList))
        | .error _ => false) = true := by
    decide +kernel
  obtain ⟨⟨handle, id, x⟩, hrun, hx⟩ := (Option.any_eq_true _ _).1 hany
  simp only [Bool.and_eq_true, decide_eq_true_eq, Bool.not_eq_true'] at hx
  obtain ⟨⟨hlive, hno⟩, hcall⟩ := hx
  have hr := subRun_subscribed hrun
  obtain ⟨c, hl, -⟩ := hr.entries
  simp only [hl, Option.any_some, decide_eq_true_eq] at hcall
  refine ⟨handle, id, x, hrun, (hr.calledFor_iff hl _).2 hcall, fun hserved => ?_⟩
  have hall := (callableBy_iff hr _).2 ((served_iff hr _).1 (fun _ => hserved) hlive)
  rw [hno] at hall
  cases hall

end FTBC
