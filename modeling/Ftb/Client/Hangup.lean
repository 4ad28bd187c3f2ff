import Ftb.Lib.Trace
import Ftb.Client.Ops

/-!
# The end of a client with callbacks (`ftb_client_lib.c`)

The thread of `FTBCI_callback_component` and `FTBC_Disconnect` of its client, step by step: a step
is a section under the lock of the client, the callback between two of them, or the return of
`pthread_cond_wait`. The thread tests `finalizing` behind the wait only and its queue before the
wait only, and the signal is sent once: a thread that is not in the wait at that moment goes to
sleep when its queue is empty, and `pthread_join` waits for it.

`turn_eq`, `turn_wait`: a turn of the thread that nothing interrupts is `callbackComponent`.
-/

open FTB FTBU CStr Trace

namespace FTBCI.Hangup

/-! ## The two threads -/

/-- Where the thread of `FTBCI_callback_component` is. -/
inductive Component
  | atLock
  | waiting
  /-- The wait is over, and the thread has yet to get the lock again. -/
  | woken
  | searching
  | calling (x : CallbackEntry)
  | removing
  | moving
  | returned
  deriving DecidableEq

/-- Where `FTBC_Disconnect` is: before its section, in `pthread_join`, behind it. -/
inductive Disconnect
  | connected
  | joining
  | joined
  deriving DecidableEq

structure State where
  client : ClientInfo
  component : Component
  disconnect : Disconnect
  deriving DecidableEq

/-- What `FTBC_Connect` leaves of a client with callbacks. -/
def started (id : Id) (jobid : CStr) (subscriptionType : UInt8) (maxPollingQueueLen : Int) :
    State where
  client := FTBC.newClientInfo id jobid subscriptionType maxPollingQueueLen
  component := .atLock
  disconnect := .connected

/-- `pthread_cond_signal`. -/
def Component.signal : Component → Component
  | .waiting => .woken
  | t => t

/-- The test of the queue, with the lock: the thread waits, or goes on without the lock. -/
def testQueue (c : ClientInfo) : Component :=
  if c.callbackEventQueue = [] then .waiting else .searching

/-- A mask of `callback_map` matches. -/
def matched (entry : EventInst) (c : ClientInfo) : Bool :=
  c.callbackEntries.any fun x => matchMask entry.eventInst x.mask

inductive Act
  /-- The last section of `FTBCI_util_handle_FTBM_msg`. -/
  | arrive (entry : EventInst)
  | subscribeWithCallback (event : Event) (callback arg : Nat)
  | unsubscribe (event : Event)
  /-- The section at the top of the loop of the thread. -/
  | enter
  /-- The wait returns without a signal. -/
  | wake
  /-- The rest of the section, once the wait is over. -/
  | reenter
  | search
  | callback
  | remove
  | move
  /-- `FTBC_Disconnect` up to `pthread_join`. -/
  | disconnect
  | join
  deriving DecidableEq

/-- The step `a`; no value where it is not enabled, or undefined. From `disconnect` on the polling
queue is freed, and from `join` on the client. -/
def step : Act → State → Option State
  | .arrive entry, s =>
    if s.disconnect = .joined then none
    else if s.client.notifies && matched entry s.client then
      some { s with client := receive entry s.client, component := s.component.signal }
    else if s.client.finalizing && s.client.polls then none
    else some { s with client := receive entry s.client }
  | .subscribeWithCallback event callback arg, s =>
    if s.disconnect = .joined then none
    else some { s with client := utilAddToCallbackMap callback arg event s.client }
  | .unsubscribe event, s =>
    if s.disconnect = .joined then none
    else some { s with client := utilRemoveFromSubscriptionMap event s.client }
  | .enter, s =>
    if s.component = .atLock then some { s with component := testQueue s.client } else none
  | .wake, s => if s.component = .waiting then some { s with component := .woken } else none
  | .reenter, s =>
    if s.component = .woken then
      if s.client.finalizing then some { s with component := .returned }
      else some { s with component := testQueue s.client }
    else none
  | .search, s =>
    if s.component = .searching then
      match s.client.callbackEventQueue with
      | [] => none
      | entry :: _ =>
        match s.client.callbackEntries.find? fun x => matchMask entry.eventInst x.mask with
        | none => some { s with component := .moving }
        | some x => some { s with component := .calling x }
    else none
  | .callback, s =>
    match s.component with
    | .calling _ => some { s with component := .removing }
    | _ => none
  | .remove, s =>
    if s.component = .removing then
      some { s with
        client := { s.client with callbackEventQueue := s.client.callbackEventQueue.tail }
        component := .atLock }
    else none
  | .move, s =>
    if s.component = .moving then
      match s.client.callbackEventQueue with
      | [] => none
      | entry :: rest =>
        -- `free(node)` frees the event once more where there is no polling queue
        if s.client.finalizing || !s.client.polls then none
        else some { s with
          client := utilPushToCompPollingList entry { s.client with callbackEventQueue := rest }
          component := .atLock }
    else none
  | .disconnect, s =>
    if s.disconnect = .connected then
      some { s with
        client := { s.client with finalizing := true }
        component := s.component.signal
        disconnect := .joining }
    else none
  | .join, s =>
    if s.disconnect = .joining ∧ s.component = .returned then some { s with disconnect := .joined }
    else none

def run (acts : List Act) (s : State) : Option State := acts.foldlM (fun s a => step a s) s

/-- The thread sleeps with `finalizing` set and no signal on the way, and `pthread_join` waits for
it. -/
def Hung (s : State) : Prop :=
  s.component = .waiting ∧ s.client.finalizing = true ∧ s.disconnect = .joining

instance (s : State) : Decidable (Hung s) :=
  inferInstanceAs (Decidable (_ ∧ _ ∧ _))

/-- The thread is in a turn of its loop, and does not move an event. -/
def Component.inTurn : Component → Bool
  | .atLock => true
  | .searching => true
  | .calling _ => true
  | .removing => true
  | _ => false

/-- If the step is the section of `FTBC_Disconnect`, the thread is in `pthread_cond_wait`. -/
def SignalsWait (a : Act) (s : State) : Prop :=
  a = .disconnect → s.component = .waiting ∨ s.component = .woken

instance (a : Act) (s : State) : Decidable (SignalsWait a s) :=
  inferInstanceAs (Decidable (_ → _))

theorem run_cons (a : Act) (acts : List Act) (s : State) :
    run (a :: acts) s = (step a s).bind (run acts) := rfl

theorem run_append (acts acts' : List Act) (s : State) :
    run (acts ++ acts') s = (run acts s).bind (run acts') := by
  unfold run
  rw [List.foldlM_append]
  rfl

/-! ## What a step does -/

/-- The ways of a step. -/
inductive Stepped (s : State) : Act → State → Prop
  | queued (entry : EventInst) (hq : (s.client.notifies && matched entry s.client) = true) :
      Stepped s (.arrive entry)
        { s with client := receive entry s.client, component := s.component.signal }
  | kept (entry : EventInst) (hq : (s.client.notifies && matched entry s.client) = false) :
      Stepped s (.arrive entry) { s with client := receive entry s.client }
  | subscribed (event : Event) (callback arg : Nat) :
      Stepped s (.subscribeWithCallback event callback arg)
        { s with client := utilAddToCallbackMap callback arg event s.client }
  | unsubscribed (event : Event) :
      Stepped s (.unsubscribe event)
        { s with client := utilRemoveFromSubscriptionMap event s.client }
  | entered (hc : s.component = .atLock) :
      Stepped s .enter { s with component := testQueue s.client }
  | woken (hc : s.component = .waiting) : Stepped s .wake { s with component := .woken }
  | returned (hc : s.component = .woken) (hf : s.client.finalizing = true) :
      Stepped s .reenter { s with component := .returned }
  | reentered (hf : s.client.finalizing = false) (hc : s.component = .woken) :
      Stepped s .reenter { s with component := testQueue s.client }
  | found (x : CallbackEntry) (hc : s.component = .searching) :
      Stepped s .search { s with component := .calling x }
  | missed (hc : s.component = .searching) : Stepped s .search { s with component := .moving }
  | called (x : CallbackEntry) (hc : s.component = .calling x) :
      Stepped s .callback { s with component := .removing }
  | removed (hc : s.component = .removing) :
      Stepped s .remove { s with
        client := { s.client with callbackEventQueue := s.client.callbackEventQueue.tail }
        component := .atLock }
  | moved (entry : EventInst) (rest : List EventInst) (hc : s.component = .moving)
      (hf : s.client.finalizing = false) :
      Stepped s .move { s with
        client := utilPushToCompPollingList entry { s.client with callbackEventQueue := rest }
        component := .atLock }
  | disconnected (hd : s.disconnect = .connected) :
      Stepped s .disconnect { s with
        client := { s.client with finalizing := true }
        component := s.component.signal
        disconnect := .joining }
  | joined (hd : s.disconnect = .joining) (hc : s.component = .returned) :
      Stepped s .join { s with disconnect := .joined }

theorem step_cases {a : Act} {s s' : State} (h : step a s = some s') : Stepped s a s' := by
  cases a with
  | arrive entry =>
    simp only [step] at h
    split at h
    · cases h
    · split at h
      · rename_i hq
        cases h
        exact .queued entry hq
      · rename_i hq
        split at h
        · cases h
        · cases h
          exact .kept entry (Bool.eq_false_iff.2 hq)
  | subscribeWithCallback event callback arg =>
    simp only [step, Option.ite_none_left_eq_some, Option.some.injEq] at h
    obtain ⟨-, rfl⟩ := h
    exact .subscribed event callback arg
  | unsubscribe event =>
    simp only [step, Option.ite_none_left_eq_some, Option.some.injEq] at h
    obtain ⟨-, rfl⟩ := h
    exact .unsubscribed event
  | enter =>
    simp only [step, Option.ite_none_right_eq_some, Option.some.injEq] at h
    obtain ⟨hc, rfl⟩ := h
    exact .entered hc
  | wake =>
    simp only [step, Option.ite_none_right_eq_some, Option.some.injEq] at h
    obtain ⟨hc, rfl⟩ := h
    exact .woken hc
  | reenter =>
    simp only [step, Option.ite_none_right_eq_some] at h
    obtain ⟨hc, h⟩ := h
    split at h
    · rename_i hf
      cases h
      exact .returned hc hf
    · rename_i hf
      cases h
      exact .reentered (Bool.eq_false_iff.2 hf) hc
  | search =>
    simp only [step, Option.ite_none_right_eq_some] at h
    obtain ⟨hc, h⟩ := h
    split at h
    · cases h
    · split at h
      · cases h
        exact .missed hc
      · rename_i x _
        cases h
        exact .found x hc
  | callback =>
    simp only [step] at h
    split at h
    · rename_i x hc
      cases h
      exact .called x hc
    · cases h
  | remove =>
    simp only [step, Option.ite_none_right_eq_some, Option.some.injEq] at h
    obtain ⟨hc, rfl⟩ := h
    exact .removed hc
  | move =>
    simp only [step, Option.ite_none_right_eq_some] at h
    obtain ⟨hc, h⟩ := h
    split at h
    · cases h
    · rename_i entry rest _
      simp only [Option.ite_none_left_eq_some, Option.some.injEq, Bool.or_eq_true, not_or,
        Bool.not_eq_true] at h
      obtain ⟨⟨hf, -⟩, rfl⟩ := h
      exact .moved entry rest hc hf
  | disconnect =>
    simp only [step, Option.ite_none_right_eq_some, Option.some.injEq] at h
    obtain ⟨hd, rfl⟩ := h
    exact .disconnected hd
  | join =>
    simp only [step, Option.ite_none_right_eq_some, Option.some.injEq] at h
    obtain ⟨⟨hd, hc⟩, rfl⟩ := h
    exact .joined hd hc

/-! ## What the sections leave alone -/

theorem push_finalizing (entry : EventInst) (c : ClientInfo) :
    (utilPushToCompPollingList entry c).finalizing = c.finalizing := by
  unfold utilPushToCompPollingList
  repeat' split
  all_goals rfl

theorem receive_finalizing (entry : EventInst) (c : ClientInfo) :
    (receive entry c).finalizing = c.finalizing := by
  unfold receive
  split
  · rfl
  · exact push_finalizing entry c

/-- An arrival is added to the queue of the thread, or leaves it as it is. -/
theorem receive_callbackEventQueue (entry : EventInst) (c : ClientInfo) :
    (receive entry c).callbackEventQueue = c.callbackEventQueue ∨
      (receive entry c).callbackEventQueue = c.callbackEventQueue ++ [entry] := by
  unfold receive utilPushToCompPollingList
  repeat' split
  · exact .inr rfl
  all_goals exact .inl rfl

theorem signal_awake {t : Component} (h : t = .woken ∨ t = .returned) :
    t.signal = .woken ∨ t.signal = .returned := by
  rcases h with rfl | rfl
  · exact .inl rfl
  · exact .inr rfl

/-! ## A signal that reaches the wait -/

/-- Once `finalizing` is set, the thread has been woken. -/
def Awake (s : State) : Prop :=
  s.client.finalizing = true → s.component = .woken ∨ s.component = .returned

theorem Awake.not_hung {s : State} (h : Awake s) : ¬Hung s := by
  intro ⟨hwait, hfin, _⟩
  rcases h hfin with h | h <;> simp [hwait] at h

/-- Where the thread is elsewhere, `finalizing` is not set. -/
theorem Awake.running {s : State} (h : Awake s) (hw : s.component ≠ .woken)
    (hr : s.component ≠ .returned) : s.client.finalizing = false := by
  cases hf : s.client.finalizing with
  | false => rfl
  | true =>
    rcases h hf with h | h
    · exact absurd h hw
    · exact absurd h hr

theorem awake_of_not_finalizing {s : State} (h : s.client.finalizing = false) : Awake s := by
  intro hf
  rw [h] at hf
  cases hf

theorem awake_step (a : Act) (s s' : State) (hs : Awake s) (hgood : SignalsWait a s)
    (h : step a s = some s') : Awake s' := by
  cases step_cases h with
  | queued entry => exact fun hf => signal_awake (hs (by rwa [receive_finalizing] at hf))
  | kept entry => exact fun hf => hs (by rwa [receive_finalizing] at hf)
  | subscribed event callback arg => exact hs
  | unsubscribed event => exact hs
  | entered hc => exact awake_of_not_finalizing (hs.running (by simp [hc]) (by simp [hc]))
  | woken => exact fun _ => .inl rfl
  | returned => exact fun _ => .inr rfl
  | reentered hf => exact awake_of_not_finalizing hf
  | found x hc => exact awake_of_not_finalizing (hs.running (by simp [hc]) (by simp [hc]))
  | missed hc => exact awake_of_not_finalizing (hs.running (by simp [hc]) (by simp [hc]))
  | called x hc => exact awake_of_not_finalizing (hs.running (by simp [hc]) (by simp [hc]))
  | removed hc => exact awake_of_not_finalizing (hs.running (by simp [hc]) (by simp [hc]))
  | moved entry rest hc hf => exact awake_of_not_finalizing ((push_finalizing _ _).trans hf)
  | disconnected =>
    intro _
    rcases hgood rfl with hc | hc
    · exact .inl (by simp [hc, Component.signal])
    · exact signal_awake (.inl hc)
  | joined => exact hs

/-! ## A signal that is lost -/

/-- A thread that looks for a mask has an event. -/
def HasEvent (s : State) : Prop :=
  s.component = .searching → s.client.callbackEventQueue ≠ []

theorem testQueue_hasEvent {c : ClientInfo} (h : testQueue c = .searching) :
    c.callbackEventQueue ≠ [] := by
  intro hq
  simp [testQueue, hq] at h

theorem hasEvent_receive {c : ClientInfo} (entry : EventInst) (h : c.callbackEventQueue ≠ []) :
    (receive entry c).callbackEventQueue ≠ [] := by
  rcases receive_callbackEventQueue entry c with hq | hq <;> simp [hq, h]

theorem signal_searching {t : Component} (h : t.signal = .searching) : t = .searching := by
  cases t with
  | waiting => cases h
  | _ => exact h

theorem hasEvent_step (s : State) (a : Act) (s' : State) (hs : HasEvent s)
    (h : step a s = some s') : HasEvent s' := by
  cases step_cases h with
  | queued entry => exact fun hc => hasEvent_receive entry (hs (signal_searching hc))
  | kept entry => exact fun hc => hasEvent_receive entry (hs hc)
  | subscribed event callback arg => exact hs
  | unsubscribed event => exact hs
  | entered => exact testQueue_hasEvent
  | reentered => exact testQueue_hasEvent
  | disconnected => exact fun hc => hs (signal_searching hc)
  | joined => exact hs
  | _ =>
    -- the thread is not at the search behind the other steps
    intro hc
    cases hc

/-- Every queued event has a mask. -/
def AllMatched (c : ClientInfo) : Prop := ∀ entry ∈ c.callbackEventQueue, matched entry c = true

/-- The rest of the turn of the thread from the search on. -/
theorem run_turn {s : State} {entry : EventInst} {rest : List EventInst}
    (hc : s.component = .searching) (hq : s.client.callbackEventQueue = entry :: rest)
    (hm : matched entry s.client = true) :
    run [.search, .callback, .remove] s =
      some { s with
        client := { s.client with callbackEventQueue := rest }, component := .atLock } := by
  obtain ⟨x, hx⟩ : ∃ x, (s.client.callbackEntries.find? fun x =>
      matchMask entry.eventInst x.mask) = some x := by
    unfold matched at hm
    rw [List.any_eq_true] at hm
    exact Option.isSome_iff_exists.1 (List.find?_isSome.2 hm)
  simp [run, step, hc, hq, hx]

/-- A thread at the top of its loop empties its queue and waits. -/
theorem run_drain (s : State) (hc : s.component = .atLock) (hm : AllMatched s.client) :
    ∃ acts, run acts s =
      some { s with
        client := { s.client with callbackEventQueue := [] }, component := .waiting } := by
  induction hq : s.client.callbackEventQueue generalizing s with
  | nil =>
    refine ⟨[.enter], ?_⟩
    have htest : testQueue s.client = .waiting := by simp [testQueue, hq]
    simp [run, step, hc, htest, ← hq]
  | cons entry rest ih =>
    have htest : testQueue s.client = .searching := by simp [testQueue, hq]
    have henter : run [.enter] s = some { s with component := .searching } := by
      simp [run, step, hc, htest]
    have hturn := run_turn (s := { s with component := .searching }) rfl hq
      (hm entry (by simp [hq]))
    obtain ⟨acts, hacts⟩ := ih
      { s with client := { s.client with callbackEventQueue := rest }, component := .atLock } rfl
      (fun e he => hm e (by simp [hq, he])) rfl
    refine ⟨[.enter] ++ ([.search, .callback, .remove] ++ acts), ?_⟩
    rw [run_append, henter, Option.bind_some, run_append, hturn]
    exact hacts

/-- In a turn of its loop the thread comes back to the top. -/
theorem run_home {s : State} (hs : HasEvent s) (hm : AllMatched s.client)
    (hc : s.component.inTurn = true) :
    ∃ acts queue, run acts s =
        some { s with
          client := { s.client with callbackEventQueue := queue }, component := .atLock } ∧
      ∀ entry ∈ queue, entry ∈ s.client.callbackEventQueue := by
  revert hc
  cases hc : s.component with
  | atLock =>
    intro _
    refine ⟨[], s.client.callbackEventQueue, ?_, fun _ h => h⟩
    simp [run, ← hc]
  | searching =>
    intro _
    obtain ⟨entry, rest, hq⟩ := List.exists_cons_of_ne_nil (hs hc)
    refine ⟨_, rest, run_turn hc hq (hm entry (by simp [hq])), fun e he => ?_⟩
    simp [hq, he]
  | calling x =>
    intro _
    refine ⟨[.callback, .remove], s.client.callbackEventQueue.tail, ?_, fun _ h =>
      List.mem_of_mem_tail h⟩
    simp [run, step, hc]
  | removing =>
    intro _
    refine ⟨[.remove], s.client.callbackEventQueue.tail, ?_, fun _ h => List.mem_of_mem_tail h⟩
    simp [run, step, hc]
  | _ => simp [Component.inTurn]

/-- When the signal is sent in a turn of the thread, the thread can go to sleep for ever. -/
theorem hung_of_lost_signal {s : State} (hs : HasEvent s) (hm : AllMatched s.client)
    (hd : s.disconnect = .connected) (hc : s.component.inTurn = true) :
    ∃ acts s', run (.disconnect :: acts) s = some s' ∧ Hung s' := by
  have hsignal : s.component.signal = s.component := by
    revert hc
    cases s.component <;> simp [Component.inTurn, Component.signal]
  let t : State :=
    { s with client := { s.client with finalizing := true }, disconnect := .joining }
  have hstep : step .disconnect s = some t := by simp [step, hd, hsignal, t]
  obtain ⟨acts, queue, hacts, hqueue⟩ := run_home (s := t) hs hm hc
  let u : State :=
    { t with client := { t.client with callbackEventQueue := queue }, component := .atLock }
  obtain ⟨acts', hacts'⟩ := run_drain u rfl fun entry he => hm entry (hqueue entry he)
  have hrun : run (.disconnect :: (acts ++ acts')) s =
      some { u with
        client := { u.client with callbackEventQueue := [] }, component := .waiting } := by
    rw [run_cons, hstep, Option.bind_some, run_append, hacts]
    exact hacts'
  exact ⟨acts ++ acts', _, hrun, rfl, rfl, rfl⟩

/-! ## The turn without locks -/

/-- A turn of the thread that nothing interrupts is one step of `callbackComponent`. -/
theorem turn_eq {s : State} {x : CallbackEntry} {r : ReceiveEvent} {c : ClientInfo}
    (hc : s.component = .atLock)
    (h : callbackComponent s.client = some (some (x, r), c)) :
    run [.enter, .search, .callback, .remove] s = some { s with client := c } := by
  unfold callbackComponent at h
  split at h
  · cases h
  · rename_i entry rest hq
    split at h
    · cases h
    · rename_i x' hx
      obtain ⟨r', -, h⟩ := Option.bind_eq_some_iff.1 h
      cases h
      have htest : testQueue s.client = .searching := by simp [testQueue, hq]
      have hmask : matchMask entry.eventInst x.mask = true := by simpa using List.find?_some hx
      have hm : matched entry s.client = true :=
        List.any_eq_true.2 ⟨x, List.mem_of_find?_eq_some hx, hmask⟩
      have hturn := run_turn (s := { s with component := .searching }) rfl hq hm
      rw [run_cons, show step .enter s = some { s with component := .searching } by
        simp [step, hc, htest]]
      rw [Option.bind_some, hturn, hc]

/-- With an empty queue the thread goes to the wait. -/
theorem turn_wait {s : State} {c : ClientInfo} (hc : s.component = .atLock)
    (h : callbackComponent s.client = some (none, c)) :
    step .enter s = some { s with component := .waiting } ∧ c = s.client := by
  unfold callbackComponent at h
  split at h
  · rename_i hq
    cases h
    exact ⟨by simp [step, hc, testQueue, hq], rfl⟩
  · split at h
    · cases h
    · obtain ⟨r, -, h⟩ := Option.bind_eq_some_iff.1 h
      cases h

/-! ## Any order of the steps -/

/-- Where every signal of `FTBC_Disconnect` finds the thread in its wait, the thread never sleeps
while it is joined; and wherever one finds the thread in a turn, it can. -/
theorem disconnect_no_hang (id : Id) (jobid : CStr) (subscriptionType : UInt8)
    (maxPollingQueueLen : Int) :
    (∀ acts, EveryStep SignalsWait step acts
        (started id jobid subscriptionType maxPollingQueueLen) →
      EveryState (fun s => ¬Hung s) step acts
        (started id jobid subscriptionType maxPollingQueueLen)) ∧
    ∀ acts s, run acts (started id jobid subscriptionType maxPollingQueueLen) = some s →
      s.disconnect = .connected → s.component.inTurn = true → AllMatched s.client →
        ∃ acts' s', run (.disconnect :: acts') s = some s' ∧ Hung s' := by
  constructor
  · intro acts hacts
    have hstart : Awake (started id jobid subscriptionType maxPollingQueueLen) :=
      awake_of_not_finalizing rfl
    exact (everyState_of_everyStep awake_step hstart hacts).mono fun s hs => hs.not_hung
  · intro acts s hrun hd hc hm
    have hstart : HasEvent (started id jobid subscriptionType maxPollingQueueLen) := by
      intro h
      cases h
    have hs : HasEvent s := foldlM_invariant hasEvent_step acts hstart hrun
    exact hung_of_lost_signal hs hm hd hc

private def delivered : List Act :=
  [.subscribeWithCallback default 0 0, .enter, .arrive default, .reenter, .search, .callback, .remove,
    .enter, .disconnect, .reenter, .join]

/-- The client is disconnected while its thread waits: the thread returns, and it is joined. -/
theorem disconnect_no_hang_joined :
    EveryState (fun s => ¬Hung s) step delivered (started default [] subscriptionNotify 0) ∧
      ∃ s, run delivered (started default [] subscriptionNotify 0) = some s ∧
        s.component = .returned ∧ s.disconnect = .joined := by
  have hacts : EveryStep SignalsWait step delivered (started default [] subscriptionNotify 0) := by
    decide +kernel
  have hrun : (run delivered (started default [] subscriptionNotify 0)).any
      (fun s => decide (s.component = .returned ∧ s.disconnect = .joined)) = true := by
    decide +kernel
  obtain ⟨s, hs, hjoined⟩ := (Option.any_eq_true _ _).1 hrun
  exact ⟨(disconnect_no_hang default [] subscriptionNotify 0).1 delivered hacts, s, hs,
    of_decide_eq_true hjoined⟩

private def interrupted : List Act :=
  [.subscribeWithCallback default 0 0, .arrive default, .enter, .search, .disconnect, .callback,
    .remove, .enter]

/-- The client is disconnected while its callback runs. -/
theorem disconnect_hangs :
    ∃ s, run interrupted (started default [] subscriptionNotify 0) = some s ∧ Hung s := by
  have h : (run interrupted (started default [] subscriptionNotify 0)).any
      (fun s => decide (Hung s)) = true := by
    decide +kernel
  obtain ⟨s, hs, hh⟩ := (Option.any_eq_true _ _).1 h
  exact ⟨s, hs, of_decide_eq_true hh⟩

end FTBCI.Hangup
