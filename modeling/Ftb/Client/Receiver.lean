import Ftb.Client.Steps

/-!
# The thread that receives for the clients with callbacks

While `enable_callback` is positive, `FTBCI_Check_progress` leaves the network to the thread of
`FTBCI_callback_thread_client`. Runs of all calls of the API and of turns of that thread
(`Ran`): the thread serves the process in every state of a run (`Serving`) exactly when every
`FTBM_Get` of the thread returned `FTB_SUCCESS`. The first other result ends the thread or makes it
handle its last message again.
-/

open FTB FTBU FTBN FTBMI FTBCI

namespace FTBC

variable {N : Type} {w : LeafNetwork N} {s s' s'' : Lib N}

/-- The states of a run, oldest first, and the results of `FTBM_Get` in the callback thread. -/
inductive Ran (w : LeafNetwork N) : List (Lib N) → List Ret → Lib N → Prop
  | initial (net : N) : Ran w [Lib.initial net] [] (Lib.initial net)
  | call {states : List (Lib N)} {rets : List Ret} {s s' : Lib N} (net : N) (call : ApiCall) :
      Ran w states rets s → call.run w (s.withNet net) = some s' →
      Ran w (states ++ [s']) rets s'
  | thread {states : List (Lib N)} {rets : List Ret} {s s' : Lib N} (net : N) {ret : Ret} :
      Ran w states rets s → callbackThreadClient w (s.withNet net) = some (some ret, s') →
      Ran w (states ++ [s']) (rets ++ [ret]) s'

/-- The thread is in its loop while `FTBCI_Check_progress` relies on it, and what was handled is
what `FTBM_Get` returned with `FTB_SUCCESS`. -/
structure Serving (s : Lib N) : Prop where
  alive : s.enableCallback > 0 → ∃ msg, s.callbackThread = .receiving msg
  handled : s.handled = s.delivered

/-! ## The steps -/

/-- Neither the counter nor the thread changed, and what was received was handled. -/
structure Steady (s s' : Lib N) : Prop where
  enableCallback : s'.enableCallback = s.enableCallback
  callbackThread : s'.callbackThread = s.callbackThread
  handled : s.handled = s.delivered → s'.handled = s'.delivered

namespace Steady

theorem refl (s : Lib N) : Steady s s := ⟨rfl, rfl, id⟩

theorem trans (h : Steady s s') (h' : Steady s' s'') : Steady s s'' :=
  ⟨h'.1.trans h.1, h'.2.trans h.2, h'.3 ∘ h.3⟩

theorem sent (h : Sent s s') : Steady s s' := by
  obtain ⟨a, rfl⟩ := h
  exact ⟨rfl, rfl, id⟩

theorem update (handle : ClientHandle) (f : ClientInfo → ClientInfo) (s : Lib N) :
    Steady s (s.update handle f) := ⟨rfl, rfl, id⟩

end Steady

/-- `FTBCI_util_handle_FTBM_msg` adds its message to the history. -/
theorem handle_histories {msg : Msg} (h : utilHandleFTBMMsg msg s = some s') :
    s'.handled = s.handled ++ [msg] ∧ s'.delivered = s.delivered ∧
      s'.callbackThread = s.callbackThread := by
  simp only [utilHandleFTBMMsg] at h
  split at h
  · cases h
    exact ⟨rfl, rfl, rfl⟩
  · split at h
    · cases h
    · split at h
      · cases h
      · cases h
        exact ⟨rfl, rfl, rfl⟩
      · cases h
        exact ⟨rfl, rfl, rfl⟩

theorem getMsg_delivered (blocking : Bool) (msg : Msg) (s : Lib N) :
    (getMsg w blocking msg s).2.2.delivered =
      if (getMsg w blocking msg s).1 = .success then s.delivered ++ [(getMsg w blocking msg s).2.1]
      else s.delivered :=
  rfl

theorem steady_inner (h : Inner w s s') : Steady s s' := by
  induction h with
  | refl => exact .refl s
  | tail _ hstep ih =>
    refine ih.trans ?_
    cases hstep with
    | sent hs => exact .sent hs
    | received blocking msg hret hh =>
      obtain ⟨hhandled, hdelivered, hthread⟩ := handle_histories hh
      refine ⟨(progress_handle hh).enableCallback, hthread, fun hb => ?_⟩
      rw [hhandled, hdelivered, getMsg_delivered, if_pos hret]
      exact congrArg (· ++ _) hb
    | tracked track => exact ⟨rfl, rfl, id⟩
    | updated handle _ => exact .update handle _ _

theorem steady_checkProgress {ret : Ret} (h : checkProgress w s = some (ret, s')) :
    Steady s s' := steady_inner (inner_checkProgress h)

/-- What a call does to the counter and the thread. -/
inductive EngineStep (s : Lib N) : Lib N → Prop
  | steady {s' : Lib N} : Steady s s' → EngineStep s s'
  | started {t s' : Lib N} : Steady s t → Steady (startCallback t) s' → EngineStep s s'
  | stopped {t s' : Lib N} : Steady s t → t.enableCallback - 1 = s'.enableCallback →
      s'.callbackThread = (if t.enableCallback - 1 = 0 then .none else t.callbackThread) →
      (t.handled = t.delivered → s'.handled = s'.delivered) → EngineStep s s'

theorem steady_registerClient {c : ClientInfo} {ret : Ret}
    (h : registerClient w c s = some (ret, s')) : Steady s s' := by
  simp only [registerClient] at h
  split at h
  · cases h
  · split at h
    · cases h
    · cases h
      exact .refl s
    · simp only [Option.bind_eq_bind, Option.bind_eq_some_iff] at h
      obtain ⟨⟨r, u⟩, hsend, h⟩ := h
      have hsent := Steady.sent (sent_sendMsg hsend)
      have hu : Steady s u := ⟨hsent.1, hsent.2, hsent.3⟩
      dsimp only at h
      split at h
      · cases h
        exact hu.trans (.update _ _ u)
      · simp only [Option.bind_eq_some_iff, Option.pure_def, Option.some.injEq,
          Prod.mk.injEq] at h
        obtain ⟨⟨r₂, t⟩, hcheck, -, rfl⟩ := h
        exact hu.trans (steady_checkProgress hcheck)

theorem steady_addComponent (s : Lib N) : Steady s (addComponent w s) := by
  unfold addComponent
  split <;> exact ⟨rfl, rfl, id⟩

theorem engine_connect {cinfo : Client} {extension : UInt8} {clientHandle handle : Option ClientHandle}
    {ret : Ret} (h : connect w cinfo extension clientHandle s = some (ret, handle, s')) :
    EngineStep s s' := by
  simp only [connect] at h
  split at h
  · cases h
    exact .steady (.refl s)
  · split at h
    · cases h
      exact .steady (.refl s)
    · split at h
      · cases h
      · cases h
        exact .steady (.refl s)
      · have hadd := steady_addComponent (w := w) s
        split at h
        · cases h
          exact .steady hadd
        · split at h
          · cases h
            exact .steady hadd
          · simp only [Option.bind_eq_bind, Option.bind_eq_some_iff, Option.pure_def,
              Option.some.injEq, Prod.mk.injEq] at h
            obtain ⟨⟨r, t⟩, hreg, -, -, rfl⟩ := h
            have hreg := steady_registerClient hreg
            split at hreg
            · exact .started hadd hreg
            · exact .steady (hadd.trans hreg)

theorem engine_disconnect {clientHandle : ClientHandle} {ret : Ret}
    (h : disconnect w clientHandle s = some (ret, s')) : EngineStep s s' := by
  simp only [disconnect] at h
  split at h
  · cases h
    exact .steady (.refl s)
  · split at h
    · cases h
    · cases h
      exact .steady (.refl s)
    · rename_i c _
      simp only [Option.bind_eq_bind, Option.bind_eq_some_iff] at h
      obtain ⟨⟨r, u⟩, hsend, h⟩ := h
      have hu : Steady s u := .sent (sent_sendMsg hsend)
      dsimp only at h
      split at h
      · cases h
        exact .steady hu
      · simp only [Option.bind_eq_some_iff, Option.pure_def, Option.some.injEq,
          Prod.mk.injEq] at h
        obtain ⟨⟨r₂, t⟩, hcheck, -, rfl⟩ := h
        have hcheck := steady_checkProgress hcheck
        by_cases hn : c.notifies = true
        · refine .stopped hu ?_ ?_ fun hb => hcheck.handled ?_
          · rw [hcheck.enableCallback]
            unfold removeClient
            grind
          · rw [hcheck.callbackThread]
            unfold removeClient
            grind
          · unfold removeClient
            grind
        · refine .steady (hu.trans (Steady.trans ⟨?_, ?_, fun hb => ?_⟩ hcheck))
          · unfold removeClient
            grind
          · unfold removeClient
            grind
          · unfold removeClient
            grind

theorem engine_call {call : ApiCall} (h : call.run w s = some s') : EngineStep s s' := by
  cases call with
  | connect cinfo extension handle =>
    obtain ⟨⟨_, _, _⟩, hr, rfl⟩ := Option.map_eq_some_iff.1 h
    exact engine_connect hr
  | disconnect handle =>
    obtain ⟨⟨_, _⟩, hr, rfl⟩ := Option.map_eq_some_iff.1 h
    exact engine_disconnect hr
  | _ => exact .steady (steady_inner (inner_call h (by simp) (by simp)))

/-! ## Runs -/

/-- In every run, a thread that receives has a client with callbacks. -/
theorem enabled_of_receiving {states : List (Lib N)} {rets : List Ret} (hr : Ran w states rets s) :
    ∀ msg, s.callbackThread = .receiving msg → s.enableCallback > 0 := by
  induction hr with
  | initial net =>
    intro msg h
    cases h
  | @call states rets s s' net call _ hrun ih =>
    intro msg h
    cases engine_call hrun with
    | steady hs =>
      rw [hs.enableCallback]
      exact ih msg (hs.callbackThread.symm.trans h)
    | @started t _ ht hs =>
      have hen : t.enableCallback = s.enableCallback := ht.enableCallback
      have hth : t.callbackThread = s.callbackThread := ht.callbackThread
      rw [hs.enableCallback]
      rw [hs.callbackThread] at h
      unfold startCallback at h ⊢
      by_cases hzero : t.enableCallback = 0
      · simp [hzero]
      · simp only [beq_iff_eq, hzero, if_false] at h ⊢
        have := ih msg (hth ▸ h)
        omega
    | @stopped t _ ht hen hth =>
      have hent : t.enableCallback = s.enableCallback := ht.enableCallback
      have htht : t.callbackThread = s.callbackThread := ht.callbackThread
      rw [hth] at h
      split at h
      · cases h
      · have := ih msg (htht ▸ h)
        omega
  | @thread states rets s s' net ret _ hrun ih =>
    intro msg h
    have hen := (progress_callbackThreadClient hrun).enableCallback
    rw [hen]
    cases hth : s.callbackThread with
    | none => simp [callbackThreadClient, Lib.withNet, hth] at hrun
    | returned => simp [callbackThreadClient, Lib.withNet, hth] at hrun
    | receiving msg' => exact ih msg' hth

/-- A call keeps the thread serving. -/
theorem Serving.call (hs : Serving s) {net : N} {call : ApiCall}
    (h : call.run w (s.withNet net) = some s') : Serving s' := by
  have halive : s.enableCallback > 0 → ∃ msg, s.callbackThread = .receiving msg := hs.alive
  have hhandled : (s.withNet net).handled = (s.withNet net).delivered := hs.handled
  cases engine_call h with
  | steady ht =>
    refine ⟨fun hen => ?_, ht.handled hhandled⟩
    rw [ht.enableCallback] at hen
    rw [ht.callbackThread]
    exact halive hen
  | @started t _ ht hu =>
    have hent : t.enableCallback = s.enableCallback := ht.enableCallback
    have htht : t.callbackThread = s.callbackThread := ht.callbackThread
    refine ⟨fun hen => ?_, hu.handled ?_⟩
    · rw [hu.enableCallback] at hen
      rw [hu.callbackThread]
      unfold startCallback at hen ⊢
      by_cases hzero : t.enableCallback = 0
      · simp [hzero]
      · simp only [beq_iff_eq, hzero, if_false] at hen ⊢
        rw [htht]
        exact halive (by omega)
    · unfold startCallback
      have := ht.handled hhandled
      split <;> exact this
  | @stopped t _ ht hen hth hb =>
    have hent : t.enableCallback = s.enableCallback := ht.enableCallback
    have htht : t.callbackThread = s.callbackThread := ht.callbackThread
    refine ⟨fun hpos => ?_, hb (ht.handled hhandled)⟩
    rw [hth, if_neg (by omega), htht]
    exact halive (by omega)

/-- A turn of the thread that serves: it goes on serving exactly when `FTBM_Get` succeeded. -/
theorem Serving.thread (hs : Serving s) {net : N} {ret : Ret}
    (hreceiving : ∀ msg, s.callbackThread = .receiving msg → s.enableCallback > 0)
    (h : callbackThreadClient w (s.withNet net) = some (some ret, s')) :
    Serving s' ↔ ret = .success := by
  have hen := (progress_callbackThreadClient h).enableCallback
  cases hth : s.callbackThread with
  | none => simp [callbackThreadClient, Lib.withNet, hth] at h
  | returned => simp [callbackThreadClient, Lib.withNet, hth] at h
  | receiving msg =>
    have hpos : s'.enableCallback > 0 := by
      rw [hen]
      exact hreceiving msg hth
    have hth' : (s.withNet net).callbackThread = .receiving msg := hth
    simp only [callbackThreadClient, hth'] at h
    have hd := getMsg_delivered (w := w) true msg (s.withNet net)
    split at h
    · -- a network error: the thread returns
      rename_i hret
      simp only [Option.bind_eq_bind, Option.bind_eq_some_iff, Option.pure_def, Option.some.injEq,
        Prod.mk.injEq] at h
      obtain ⟨t, -, rfl, rfl⟩ := h
      constructor
      · intro hs'
        obtain ⟨msg', hm⟩ := hs'.alive hpos
        cases hm
      · intro hsucc
        rw [hret] at hsucc
        cases hsucc
    · simp only [Option.bind_eq_bind, Option.bind_eq_some_iff, Option.pure_def, Option.some.injEq,
        Prod.mk.injEq] at h
      obtain ⟨t, ht, rfl, rfl⟩ := h
      obtain ⟨hh, hdt, htt⟩ := handle_histories ht
      have hhandled : s.handled = s.delivered := hs.handled
      have hdel : t.delivered = (getMsg w true msg (s.withNet net)).2.2.delivered := hdt
      have hhan : t.handled = s.handled ++ [(getMsg w true msg (s.withNet net)).2.1] := hh
      constructor
      · intro hs'
        -- with another result, the old message was handled and nothing was delivered
        by_contra hret
        have heq := hs'.handled
        rw [hdel, hd, if_neg hret, hhan, hhandled] at heq
        have hlen := congrArg List.length heq
        rw [List.length_append] at hlen
        exact absurd hlen (by simp [Lib.withNet])
      · intro hret
        refine ⟨fun _ => ⟨_, htt⟩, ?_⟩
        rw [hdel, hd, if_pos hret, hhan, hhandled]
        rfl

/-- In every run, the thread serves in all states exactly when all its `FTBM_Get` calls returned
`FTB_SUCCESS`. -/
theorem serving_iff {states : List (Lib N)} {rets : List Ret} (hr : Ran w states rets s) :
    (∀ t ∈ states, Serving t) ↔ ∀ ret ∈ rets, ret = .success := by
  suffices hall : s ∈ states ∧
      ((∀ t ∈ states, Serving t) ↔ ∀ ret ∈ rets, ret = .success) from hall.2
  induction hr with
  | initial net =>
    have hs : Serving (Lib.initial net) := ⟨fun h => absurd (show (0 : Int) < 0 from h) (by decide), rfl⟩
    simpa using hs
  | @call states rets s s' net call _ hrun ih =>
    refine ⟨by simp, ?_⟩
    rw [← ih.2]
    simp only [List.mem_append, List.mem_singleton, or_imp, forall_and, forall_eq,
      and_iff_left_iff_imp]
    exact fun hall => (hall s ih.1).call hrun
  | @thread states rets s s' net ret hran hrun ih =>
    refine ⟨by simp, ?_⟩
    simp only [List.mem_append, List.mem_singleton, or_imp, forall_and, forall_eq]
    rw [← ih.2]
    refine and_congr_right fun hall => ?_
    exact (hall s ih.1).thread (enabled_of_receiving hran) hrun

/-! ### One client with callbacks -/

def watchdogConnect : ApiCall :=
  .connect
    { eventSpace := "FTB.FTB_EXAMPLES.WATCHDOG".toList, clientName := "watchdog".toList
      clientJobid := [], clientSubscriptionStyle := "FTB_SUBSCRIPTION_NOTIFY".toList
      clientPollingQueueLen := 0 }
    0 (some default)

/-- The client connects, and the thread gets one result. -/
def watchdogRun (ret : Ret) : Option (Lib (List (Ret × Msg)) × Option Ret × Lib (List (Ret × Msg))) :=
  match watchdogConnect.run scripted ((Lib.initial []).withNet []) with
  | none => none
  | some s => (callbackThreadClient scripted (s.withNet [(ret, default)])).map (s, ·)

theorem watchdogRun_ran {ret : Ret} {s s' : Lib (List (Ret × Msg))}
    (h : watchdogRun ret = some (s, some ret, s')) :
    Ran scripted [Lib.initial [], s, s'] [ret] s' := by
  simp only [watchdogRun] at h
  split at h
  · cases h
  · rename_i t ht
    obtain ⟨r, hr, hs⟩ := Option.map_eq_some_iff.1 h
    simp only [Prod.mk.injEq] at hs
    obtain ⟨rfl, rfl⟩ := hs
    exact .thread _ (.call [] _ (.initial []) ht) hr

/-- The thread serves after it got a message. -/
theorem serving_iff_watchdog : ∃ s s', watchdogRun .success = some (s, some .success, s') ∧
    ∀ t ∈ [Lib.initial [], s, s'], Serving t := by
  have hany : ((watchdogRun .success).any fun r => r.2.1 = some .success) = true := by
    decide +kernel
  obtain ⟨⟨s, ret, s'⟩, hrun, hret⟩ := (Option.any_eq_true _ _).1 hany
  obtain rfl : ret = some .success := by simpa using hret
  exact ⟨s, s', hrun, (serving_iff (watchdogRun_ran hrun)).2 (by simp)⟩

/-- After a network error, with a new parent, the thread is gone and `FTBCI_Check_progress` still
relies on it. -/
theorem networkError_stops : ∃ s s', Ran scripted [Lib.initial [], s, s'] [.errNetworkGeneral] s' ∧
    s'.manager.info.initialized = true ∧ s'.manager.info.parent.pid = 1 ∧ s'.enableCallback = 1 ∧
    s'.callbackThread = .returned ∧ ¬Serving s' := by
  have hany : ((watchdogRun .errNetworkGeneral).any fun r =>
      r.2.1 = some .errNetworkGeneral && r.2.2.manager.info.initialized &&
        r.2.2.manager.info.parent.pid = 1 && r.2.2.enableCallback = 1 &&
        r.2.2.callbackThread = .returned) = true := by
    decide +kernel
  obtain ⟨⟨s, ret, s'⟩, hrun, hs⟩ := (Option.any_eq_true _ _).1 hany
  simp only [Bool.and_eq_true, decide_eq_true_eq] at hs
  obtain ⟨⟨⟨⟨rfl, hinit⟩, hpid⟩, hen⟩, hth⟩ := hs
  refine ⟨s, s', watchdogRun_ran hrun, hinit, hpid, hen, hth, fun hserving => ?_⟩
  obtain ⟨msg, hm⟩ := hserving.alive (by rw [hen]; decide)
  rw [hth] at hm
  cases hm

end FTBC
