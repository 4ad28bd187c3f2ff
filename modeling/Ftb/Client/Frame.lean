import Ftb.Client.Ops

/-!
# What the internal steps of the client library leave alone

Sends, receptions and `FTBCI_Check_progress` run inside every call. They change the manager library,
the histories and the queues of the clients, and nothing else (`Progress`).
-/

open FTB FTBU FTBN FTBMI

namespace FTBCI

variable {N : Type} {w : LeafNetwork N} {s s' s'' : Lib N}

/-- A client without its queues. -/
def ClientInfo.core (c : ClientInfo) : ClientInfo :=
  { c with eventQueueSize := 0, eventQueue := [], callbackEventQueue := [] }

/-- What does not look at the queues is the same for clients that differ in them. -/
theorem eq_of_core {A : Type*} {f : ClientInfo → A} (hf : ∀ c, f c.core = f c) {c d : ClientInfo}
    (h : c.core = d.core) : f c = f d := by
  rw [← hf c, h, hf d]

section
variable {l l' : List ClientInfo}

theorem exists_of_cores (h : l'.map ClientInfo.core = l.map ClientInfo.core)
    {P : ClientInfo → Prop} (hP : ∀ c, P c.core ↔ P c) : (∃ c ∈ l', P c) ↔ ∃ c ∈ l, P c := by
  have hcore : ∀ k : List ClientInfo, (∃ c ∈ k.map ClientInfo.core, P c) ↔ ∃ c ∈ k, P c := by
    intro k
    simp [hP]
  rw [← hcore, h, hcore]

theorem countP_of_cores (h : l'.map ClientInfo.core = l.map ClientInfo.core)
    {p : ClientInfo → Bool} (hp : ∀ c, p c.core = p c) : l'.countP p = l.countP p := by
  have hcore : ∀ k : List ClientInfo, (k.map ClientInfo.core).countP p = k.countP p := by
    intro k
    rw [List.countP_map]
    exact congrArg (fun q => List.countP q k) (funext hp)
  rw [← hcore, h, hcore]

theorem length_of_cores (h : l'.map ClientInfo.core = l.map ClientInfo.core) :
    l'.length = l.length := by
  simpa using congrArg List.length h

end

/-- The entries of `FTBCI_client_info_map`; none where it is NULL. -/
def Lib.clients (s : Lib N) : List ClientInfo := (s.clientInfoMap.map KeyList.nodes).getD []

/-- The network layer goes on between two calls. -/
def Lib.withNet (net : N) (s : Lib N) : Lib N := { s with manager := { s.manager with net } }

/-- The counters, the keys of the clients, their maps and what was registered with them are as
before. -/
structure Progress (s s' : Lib N) : Prop where
  enableCallback : s'.enableCallback = s.enableCallback
  numComponents : s'.numComponents = s.numComponents
  track : s'.track = s.track
  clients : s'.clientInfoMap.map (fun map => map.nodes.map ClientInfo.core) =
    s.clientInfoMap.map fun map => map.nodes.map ClientInfo.core

namespace Progress

theorem refl (s : Lib N) : Progress s s := ⟨rfl, rfl, rfl, rfl⟩

theorem trans (h : Progress s s') (h' : Progress s' s'') : Progress s s'' :=
  ⟨h'.1.trans h.1, h'.2.trans h.2, h'.3.trans h.3, h'.4.trans h.4⟩

theorem map_some (h : Progress s s') {map : ClientInfoMap} (hm : s.clientInfoMap = some map) :
    ∃ map', s'.clientInfoMap = some map' ∧
      map'.nodes.map ClientInfo.core = map.nodes.map ClientInfo.core := by
  have hc := h.clients
  rw [hm, Option.map_some, Option.map_eq_some_iff] at hc
  exact hc

theorem map_none (h : Progress s s') (hm : s.clientInfoMap = none) : s'.clientInfoMap = none := by
  have hc := h.clients
  rw [hm, Option.map_none, Option.map_eq_none_iff] at hc
  exact hc

theorem symm (h : Progress s s') : Progress s' s :=
  ⟨h.1.symm, h.2.symm, h.3.symm, h.4.symm⟩

theorem cores (h : Progress s s') :
    s'.clients.map ClientInfo.core = s.clients.map ClientInfo.core := by
  cases hm : s.clientInfoMap with
  | none => simp [Lib.clients, hm, h.map_none hm]
  | some map =>
    obtain ⟨map', hm', hc⟩ := h.map_some hm
    simpa [Lib.clients, hm, hm'] using hc

theorem length (h : Progress s s') : s'.clients.length = s.clients.length :=
  length_of_cores h.cores

/-- What a predicate on clients says does not depend on their queues. -/
theorem exists_iff (h : Progress s s') {P : ClientInfo → Prop} (hP : ∀ c, P c.core ↔ P c) :
    (∃ c ∈ s'.clients, P c) ↔ ∃ c ∈ s.clients, P c :=
  exists_of_cores h.cores hP

theorem countP (h : Progress s s') {p : ClientInfo → Bool} (hp : ∀ c, p c.core = p c) :
    s'.clients.countP p = s.clients.countP p :=
  countP_of_cores h.cores hp

theorem withNet (net : N) (s : Lib N) : Progress s (s.withNet net) := ⟨rfl, rfl, rfl, rfl⟩

end Progress

/-! ## The internal steps -/

theorem core_pushToCompPollingList (entry : EventInst) (c : ClientInfo) :
    (utilPushToCompPollingList entry c).core = c.core := by
  unfold utilPushToCompPollingList
  split
  · split <;> rfl
  · rfl

theorem core_receive (entry : EventInst) (c : ClientInfo) : (receive entry c).core = c.core := by
  unfold receive
  split
  · rfl
  · exact core_pushToCompPollingList entry c

theorem progress_update {f : ClientInfo → ClientInfo} (hf : ∀ c, (f c).core = c.core)
    (handle : ClientHandle) (s : Lib N) : Progress s (s.update handle f) := by
  refine ⟨rfl, rfl, rfl, ?_⟩
  simp only [Lib.update, Option.map_map]
  cases s.clientInfoMap with
  | none => rfl
  | some map =>
    simp only [Option.map_some, Function.comp, KeyList.adjust, List.map_map, Option.some.injEq]
    refine List.map_congr_left fun c _ => ?_
    dsimp only [Function.comp]
    split
    · have hc := hf c
      simp only [ClientInfo.core, ClientInfo.mk.injEq] at hc ⊢
      tauto
    · rfl

/-- Only the manager library changed. -/
def Sent (s s' : Lib N) : Prop := ∃ manager, s' = { s with manager }

namespace Sent

theorem refl (s : Lib N) : Sent s s := ⟨s.manager, rfl⟩

theorem trans (h : Sent s s') (h' : Sent s' s'') : Sent s s'' := by
  obtain ⟨a, rfl⟩ := h
  obtain ⟨b, rfl⟩ := h'
  exact ⟨b, rfl⟩

theorem progress (h : Sent s s') : Progress s s' := by
  obtain ⟨a, rfl⟩ := h
  exact ⟨rfl, rfl, rfl, rfl⟩

theorem clientInfoMap (h : Sent s s') : s'.clientInfoMap = s.clientInfoMap := by
  obtain ⟨a, rfl⟩ := h
  rfl

end Sent

theorem sent_sendMsg {msg : Msg} {ret : Ret} (h : sendMsg w msg s = some (ret, s')) :
    Sent s s' := by
  simp only [sendMsg, Option.bind_eq_bind, Option.bind_eq_some_iff, Option.pure_def,
    Option.some.injEq, Prod.mk.injEq] at h
  obtain ⟨⟨r, a⟩, -, -, rfl⟩ := h
  exact ⟨a, rfl⟩

theorem sent_resendMasks : ∀ {masks : List Event} {msg msg' : Msg} {s s' : Lib N},
    resendMasks w masks msg s = some (msg', s') → Sent s s' := by
  intro masks
  induction masks with
  | nil =>
    intro msg msg' s s' h
    cases h
    exact .refl s
  | cons mask masks ih =>
    intro msg msg' s s' h
    simp only [resendMasks, List.foldlM_cons, Option.bind_eq_bind, Option.bind_eq_some_iff,
      Option.pure_def, Option.some.injEq] at h
    obtain ⟨⟨_, t⟩, ⟨⟨ret, u⟩, hsend, hu⟩, hrest⟩ := h
    cases hu
    exact (sent_sendMsg hsend).trans (ih hrest)

theorem sent_resendClient {c : ClientInfo} {msg msg' : Msg}
    (h : resendClient w c msg s = some (msg', s')) : Sent s s' := by
  simp only [resendClient] at h
  split at h
  · cases h
  · simp only [Option.bind_eq_bind, Option.bind_eq_some_iff] at h
    obtain ⟨⟨ret, t⟩, hsend, hmasks⟩ := h
    exact (sent_sendMsg hsend).trans (sent_resendMasks hmasks)

theorem sent_resendClients : ∀ {cs : List ClientInfo} {x y : Msg × Lib N},
    cs.foldlM (fun (msg, s) c => resendClient w c msg s) x = some y → Sent x.2 y.2 := by
  intro cs
  induction cs with
  | nil =>
    intro x y h
    cases h
    exact .refl _
  | cons c cs ih =>
    intro x y h
    rw [List.foldlM_cons, Option.bind_eq_bind, Option.bind_eq_some_iff] at h
    obtain ⟨z, hc, hrest⟩ := h
    exact (sent_resendClient hc).trans (ih hrest)

theorem sent_utilReconnect (h : utilReconnect w s = some s') : Sent s s' := by
  simp only [utilReconnect] at h
  split at h
  · cases h
  · simp only [Option.bind_eq_bind, Option.bind_eq_some_iff, Option.pure_def,
      Option.some.injEq] at h
    obtain ⟨y, hfold, rfl⟩ := h
    exact sent_resendClients hfold

theorem progress_getMsg (blocking : Bool) (msg : Msg) (s : Lib N) :
    Progress s (getMsg w blocking msg s).2.2 :=
  ⟨rfl, rfl, rfl, rfl⟩

theorem progress_handle {msg : Msg} (h : utilHandleFTBMMsg msg s = some s') : Progress s s' := by
  simp only [utilHandleFTBMMsg] at h
  split at h
  · cases h
    exact ⟨rfl, rfl, rfl, rfl⟩
  · split at h
    · cases h
    · rename_i map hm
      split at h
      · cases h
      · cases h
        exact ⟨rfl, rfl, rfl, rfl⟩
      · cases h
        exact (Progress.mk rfl rfl rfl rfl : Progress s { s with handled := s.handled ++ [msg] }).trans
          (progress_update (core_receive _) _ _)

theorem progress_checkLoop : ∀ {n : Nat} {s s' : Lib N} {ret : Ret},
    checkLoop w n s = some (ret, s') → Progress s s' := by
  intro n
  induction n with
  | zero =>
    intro s s' ret h
    cases h
  | succ n ih =>
    intro s s' ret h
    simp only [checkLoop] at h
    have hget := progress_getMsg (w := w) false default s
    split at h
    · rw [Option.bind_eq_bind, Option.bind_eq_some_iff] at h
      obtain ⟨t, ht, hrest⟩ := h
      exact hget.trans ((progress_handle ht).trans (ih hrest))
    · cases h
      exact hget

theorem progress_checkProgress {ret : Ret} (h : checkProgress w s = some (ret, s')) :
    Progress s s' := by
  simp only [checkProgress] at h
  split at h
  · cases h
    exact .refl s
  · simp only [Option.bind_eq_bind, Option.bind_eq_some_iff] at h
    obtain ⟨⟨r, t⟩, hloop, h⟩ := h
    dsimp only at h
    split at h
    · simp only [Option.bind_eq_some_iff, Option.pure_def, Option.some.injEq, Prod.mk.injEq] at h
      obtain ⟨u, hu, -, rfl⟩ := h
      exact (progress_checkLoop hloop).trans (sent_utilReconnect hu).progress
    · cases h
      exact progress_checkLoop hloop

theorem progress_callbackThreadClient {ret : Option Ret}
    (h : callbackThreadClient w s = some (ret, s')) : Progress s s' := by
  simp only [callbackThreadClient] at h
  split at h
  · cases h
    exact .refl s
  · cases h
    exact .refl s
  · rename_i msg _
    have hget := progress_getMsg (w := w) true msg s
    split at h
    · simp only [Option.bind_eq_bind, Option.bind_eq_some_iff, Option.pure_def, Option.some.injEq,
        Prod.mk.injEq] at h
      obtain ⟨t, ht, -, rfl⟩ := h
      exact hget.trans ((sent_utilReconnect ht).progress.trans ⟨rfl, rfl, rfl, rfl⟩)
    · simp only [Option.bind_eq_bind, Option.bind_eq_some_iff, Option.pure_def, Option.some.injEq,
        Prod.mk.injEq] at h
      obtain ⟨t, ht, -, rfl⟩ := h
      have hkeep : Progress (getMsg w true msg s).2.2 { (getMsg w true msg s).2.2 with
          callbackThread := .receiving (getMsg w true msg s).2.1 } := ⟨rfl, rfl, rfl, rfl⟩
      exact hget.trans (hkeep.trans (progress_handle ht))

/-! ## The bound of the loop -/

theorem getMsg_waiting (hr : (getMsg w false default s).1 = .success) :
    w.waiting (getMsg w false default s).2.2.manager.net < w.waiting s.manager.net := by
  simp only [getMsg, FTBM.get] at hr ⊢
  by_cases hi : (!s.manager.info.initialized) = true
  · rw [if_pos hi] at hr
    cases hr
  · rw [if_neg hi] at hr ⊢
    by_cases hret : (w.recvMsg false s.manager.net).1 = .success
    · rw [if_pos hret]
      exact w.waiting_lt (Prod.ext hret rfl)
    · rw [if_neg hret] at hr
      split at hr <;> contradiction

theorem handle_manager {msg : Msg} (h : utilHandleFTBMMsg msg s = some s') :
    s'.manager = s.manager := by
  simp only [utilHandleFTBMMsg] at h
  split at h
  · cases h; rfl
  · split at h
    · cases h
    · split at h
      · cases h
      · cases h; rfl
      · cases h; rfl

/-- The loop of `FTBCI_Check_progress` ends by itself: a larger bound changes nothing. -/
theorem checkLoop_bound : ∀ {n : Nat} (s : Lib N), w.waiting s.manager.net < n →
    ∀ k, checkLoop w (n + k) s = checkLoop w n s := by
  intro n
  induction n with
  | zero =>
    intro s h
    omega
  | succ n ih =>
    intro s h k
    rw [show n + 1 + k = (n + k) + 1 by omega]
    simp only [checkLoop]
    split
    · rename_i hret
      have hlt := getMsg_waiting hret
      cases hh : utilHandleFTBMMsg (getMsg w false default s).2.1 (getMsg w false default s).2.2 with
      | none => rfl
      | some t =>
        have hm : t.manager = (getMsg w false default s).2.2.manager := handle_manager hh
        have hlt' : w.waiting t.manager.net < w.waiting s.manager.net := by rw [hm]; exact hlt
        exact ih t (by omega) k
    · rfl

end FTBCI
