import Ftb.E2E.System
import Ftb.Client.Identity

/-!
# What a process does to its connection

Over a connection that loses nothing, whatever a process does comes down to three kinds of turns
(`Turn`): one of its clients sends a message, the process takes the next message and handles it, or
something changes inside only. `Turns` is any number of them, with the messages that are sent. A call of
the API sends an event only if it is an `FTBC_Publish` that returns `FTB_SUCCESS` (`turns_publish`).
-/

open FTB FTBU FTBN FTBMI FTBCI

namespace E2E

variable {here parent : LocationId} {s s' t : Lib Line} {l l' : List Msg}
  {K : ClientHandle → Event → Prop}

/-! ## Turns -/

/-- Sending the message. -/
def push (msg : Msg) (s : Lib Line) : Lib Line :=
  s.withNet { s.manager.net with up := s.manager.net.up ++ [msg] }

/-- Taking the message out of the connection, in which `down` is left. -/
def pop (msg : Msg) (down : List Msg) (s : Lib Line) : Lib Line :=
  { s.withNet { s.manager.net with down } with delivered := s.delivered ++ [msg] }

/-- The client is in the process, and does not go by the names of the agents. -/
structure Placed (here : LocationId) (c : ClientInfo) : Prop where
  loc : c.id.locationId = here
  name : FTBM.isManagerNameCase c.id = false
  handle : c.clientHandle = convertClientidToClienthandle c.id.clientId

/-- The client is called back for what the mask matches. -/
structure Serves (h : ClientHandle) (mask : Event) (c : ClientInfo) : Prop where
  handle : isEqualClienthandle c.clientHandle h = true
  notifies : c.notifies = true
  entry : ∃ x ∈ c.callbackEntries, isEqualEventMask x.mask mask = true

/-- The client `c'` is `c` later on, and no events have come. Where `K` says so, the client is called
back as before. -/
structure Later (K : ClientHandle → Event → Prop) (c c' : ClientInfo) : Prop where
  handle : c'.clientHandle = c.clientHandle
  id : c'.id = c.id
  events : c'.eventQueue.Sublist c.eventQueue
  callbacks : c'.callbackEventQueue.Sublist c.callbackEventQueue
  keeps : ∀ h mask, K h mask → Serves h mask c →
    Serves h mask c' ∧ c'.callbackEventQueue = c.callbackEventQueue

/-- Its callbacks are as before. -/
theorem Later.of_same {c c' : ClientInfo} (hhandle : c'.clientHandle = c.clientHandle)
    (hid : c'.id = c.id) (htype : c'.subscriptionType = c.subscriptionType)
    (hmap : c'.callbackMap = c.callbackMap) (hqueue : c'.callbackEventQueue = c.callbackEventQueue)
    (hevents : c'.eventQueue.Sublist c.eventQueue) : Later K c c' where
  handle := hhandle
  id := hid
  events := hevents
  callbacks := hqueue ▸ .refl _
  keeps h mask _ hs := by
    refine ⟨⟨hhandle ▸ hs.handle, ?_, ?_⟩, hqueue⟩
    · unfold ClientInfo.notifies
      rw [htype]
      exact hs.notifies
    · unfold ClientInfo.callbackEntries
      rw [hmap]
      exact hs.entry

theorem Later.refl (c : ClientInfo) : Later K c c := .of_same rfl rfl rfl rfl rfl (.refl _)

theorem Later.trans {c c' c'' : ClientInfo} (h : Later K c c') (h' : Later K c' c'') :
    Later K c c'' where
  handle := h'.handle.trans h.handle
  id := h'.id.trans h.id
  events := h'.events.trans h.events
  callbacks := h'.callbacks.trans h.callbacks
  keeps x mask hk hs := by
    obtain ⟨hs', hqueue⟩ := h.keeps x mask hk hs
    obtain ⟨hs'', hqueue'⟩ := h'.keeps x mask hk hs'
    exact ⟨hs'', hqueue'.trans hqueue⟩

/-- A client that has just connected. -/
structure Fresh (here : LocationId) (c : ClientInfo) : Prop where
  placed : Placed here c
  events : c.eventQueue = []
  callbacks : c.callbackEventQueue = []

/-- The process is connected, or has no clients yet. -/
structure Ready (here : LocationId) (s : Lib Line) : Prop where
  here : s.manager.info.initialized = true → s.manager.info.self.locationId = here
  started : s.manager.info.initialized = true → 0 < s.numComponents
  unstarted : s.manager.info.initialized = false → s.numComponents = 0 ∧ s.clientInfoMap = none ∧
    ∀ msg, s.callbackThread ≠ .receiving msg

/-- A process with clients has counted them. -/
theorem Ready.counted (hr : Ready here s) {c : ClientInfo} (hc : c ∈ s.clients) :
    s.numComponents ≠ 0 := by
  have hi : s.manager.info.initialized = true := by
    by_contra hi
    simp [Lib.clients, (hr.unstarted (Bool.eq_false_iff.2 hi)).2.1] at hc
  exact ne_of_gt (hr.started hi)

/-- A change inside. -/
structure Internal (here : LocationId) (K : ClientHandle → Event → Prop) (s s' : Lib Line) :
    Prop where
  net : s'.manager.net = s.manager.net
  handled : s'.handled = s.handled
  clients : ∀ c' ∈ s'.clients, (∃ c ∈ s.clients, Later K c c') ∨ Fresh here c'
  stays : Ready here s → ∀ c ∈ s.clients, (∃ h mask, K h mask ∧ Serves h mask c) →
    ∃ c' ∈ s'.clients, Later K c c'
  ready : Ready here s → Ready here s'

/-- The message does not take the subscription of the client back. -/
def Leaves (h : ClientHandle) (mask : Event) (msg : Msg) : Prop :=
  isEqualClienthandle (convertClientidToClienthandle msg.src.clientId) h = true →
  msg.msgType ≠ .clientDereg ∧
    (msg.msgType = .subscriptionCancel → isEqualEventMask msg.event mask = false)

/-- The message takes none of the subscriptions back. -/
def Harmless (K : ClientHandle → Event → Prop) (msg : Msg) : Prop :=
  ∀ h mask, K h mask → Leaves h mask msg

theorem Harmless.of_type {msg : Msg}
    (h : msg.msgType ≠ .clientDereg ∧ msg.msgType ≠ .subscriptionCancel) : Harmless K msg :=
  fun _ _ _ _ => ⟨h.1, fun hc => absurd hc h.2⟩

inductive Turn (here : LocationId) (K : ClientHandle → Event → Prop) :
    List Msg → Lib Line → Lib Line → Prop
  | sends {s : Lib Line} {c : ClientInfo} {msg : Msg} : c ∈ s.clients → msg.src = c.id →
      msg.msgType ≠ .cleanupConn → Harmless K msg → Turn here K [msg] s (push msg s)
  | takes {s s' : Lib Line} {msg : Msg} {down : List Msg} : s.manager.net.down = msg :: down →
      utilHandleFTBMMsg msg (pop msg down s) = some s' → Turn here K [] s s'
  | inside {s s' : Lib Line} : Internal here K s s' → Turn here K [] s s'

/-- Turns, one after the other, with the messages that are sent. -/
inductive Turns (here : LocationId) (K : ClientHandle → Event → Prop) :
    List Msg → Lib Line → Lib Line → Prop
  | refl (s : Lib Line) : Turns here K [] s s
  | tail {l l' : List Msg} {s t u : Lib Line} : Turns here K l s t → Turn here K l' t u →
      Turns here K (l ++ l') s u

namespace Turns

theorem trans {u : Lib Line} (h : Turns here K l s t) (h' : Turns here K l' t u) :
    Turns here K (l ++ l') s u := by
  induction h' with
  | refl => rwa [List.append_nil]
  | tail _ hturn ih =>
    rw [← List.append_assoc]
    exact (ih h).tail hturn

theorem single (h : Turn here K l s t) : Turns here K l s t := (refl s).tail h

theorem inside (h : Internal here K s t) : Turns here K [] s t := single (.inside h)

/-- Changes inside before and behind add no messages. -/
theorem silent_trans {u : Lib Line} (h : Turns here K [] s t) (h' : Turns here K l' t u) :
    Turns here K l' s u := h.trans h'

theorem harmless (h : Turns here K l s t) : ∀ msg ∈ l, Harmless K msg := by
  induction h with
  | refl => exact fun _ hm => absurd hm List.not_mem_nil
  | tail _ hturn ih =>
    intro msg hm
    obtain hm | hm := List.mem_append.1 hm
    · exact ih msg hm
    · cases hturn with
      | sends _ _ _ hharmless => exact List.mem_singleton.1 hm ▸ hharmless
      | takes => cases hm
      | inside => cases hm

theorem trans_silent {u : Lib Line} (h : Turns here K l s t) (h' : Turns here K [] t u) :
    Turns here K l s u := List.append_nil l ▸ h.trans h'

end Turns

/-! ## The internal steps -/

/-- A write to clients that adds no events. -/
theorem internal_update (handle : ClientHandle) {f : ClientInfo → ClientInfo}
    (hf : ∀ c ∈ s.clients, isEqualClienthandle c.clientHandle handle = true →
      Later K c { f c with clientHandle := c.clientHandle }) :
    Internal here K s (s.update handle f) := by
  refine ⟨rfl, rfl, fun c' hc' => ?_, fun _ c hc _ => ?_, fun h => ⟨h.here, h.started, fun hi => ?_⟩⟩
  · simp only [Lib.update, Lib.clients] at hc'
    cases hm : s.clientInfoMap with
    | none => simp [hm] at hc'
    | some map =>
      simp only [hm, Option.map_some, Option.getD_some] at hc'
      obtain ⟨x, hx, hxc⟩ := KeyList.mem_adjust.1 hc'
      have hmem : x ∈ s.clients := by simpa [Lib.clients, hm] using hx
      refine .inl ⟨x, hmem, ?_⟩
      split at hxc
      · rename_i he
        exact hxc ▸ hf x hmem he
      · exact hxc ▸ Later.refl x
  · cases hm : s.clientInfoMap with
    | none => simp [Lib.clients, hm] at hc
    | some map =>
      have hmem : c ∈ map.nodes := by simpa [Lib.clients, hm] using hc
      simp only [Lib.update, Lib.clients, hm, Option.map_some, Option.getD_some]
      refine ⟨_, KeyList.mem_adjust.2 ⟨c, hmem, rfl⟩, ?_⟩
      split
      · rename_i he
        exact hf c hc he
      · exact .refl c
  · obtain ⟨hnum, hmap, hthread⟩ := h.unstarted hi
    refine ⟨hnum, ?_, hthread⟩
    simp only [Lib.update, hmap, Option.map_none]

/-- A send of a client is a turn where the process is connected, and nothing otherwise. -/
theorem sendMsg_line (msg : Msg) (s : Lib Line) :
    sendMsg (line here parent) msg s = some (
      if s.manager.info.initialized then (.success, push msg s) else (.errGeneral, s)) := by
  unfold sendMsg FTBM.send
  cases hi : s.manager.info.initialized <;> rfl

/-- What a send with its result comes to. -/
theorem turns_sendMsg {msg : Msg} {ret : Ret} (h : sendMsg (line here parent) msg s = some (ret, s'))
    {c : ClientInfo} (hc : c ∈ s.clients) (hsrc : msg.src = c.id) (ht : msg.msgType ≠ .cleanupConn)
    (hharmless : Harmless K msg) :
    (ret = .success ∧ Turns here K [msg] s s') ∨ (ret ≠ .success ∧ s' = s) := by
  rw [sendMsg_line] at h
  split at h
  · cases h
    exact .inl ⟨rfl, .single (.sends hc hsrc ht hharmless)⟩
  · cases h
    exact .inr ⟨by decide, rfl⟩

theorem getMsg_line (blocking : Bool) (msg : Msg) (s : Lib Line) :
    getMsg (line here parent) blocking msg s =
      if s.manager.info.initialized then
        match s.manager.net.down with
        | [] => (.noMsg, msg, s)
        | m :: down => (.success, m, pop m down s)
      else (.errGeneral, msg, s) := by
  unfold getMsg FTBM.get line
  cases hi : s.manager.info.initialized with
  | false => rfl
  | true =>
    cases hd : s.manager.net.down with
    | nil => simp [hd]
    | cons m down =>
      simp [hd]
      rfl

theorem turns_checkLoop : ∀ {n : Nat} {s s' : Lib Line} {ret : Ret},
    checkLoop (line here parent) n s = some (ret, s') →
    Turns here K [] s s' ∧ s'.manager.info = s.manager.info ∧ ret ≠ .errNetworkGeneral := by
  intro n
  induction n with
  | zero =>
    intro s s' ret h
    cases h
  | succ n ih =>
    intro s s' ret h
    simp only [checkLoop, getMsg_line] at h
    cases hi : s.manager.info.initialized with
    | false =>
      rw [hi] at h
      cases h
      exact ⟨.refl s, rfl, by simp⟩
    | true =>
      rw [hi] at h
      cases hd : s.manager.net.down with
      | nil =>
        rw [hd] at h
        cases h
        exact ⟨.refl s, rfl, by simp⟩
      | cons m down =>
        simp only [hd, if_true, Option.bind_eq_bind, Option.bind_eq_some_iff] at h
        obtain ⟨t, ht, hrest⟩ := h
        obtain ⟨hturns, hinfo, hret⟩ := ih hrest
        have hm : t.manager.info = (pop m down s).manager.info := by rw [handle_manager ht]
        exact ⟨(Turns.single (.takes hd ht)).silent_trans hturns, hinfo.trans hm, hret⟩

theorem progressed {ret : Ret} (h : checkProgress (line here parent) s = some (ret, s')) :
    Turns here K [] s s' ∧ s'.manager.info = s.manager.info := by
  simp only [checkProgress] at h
  split at h
  · cases h
    exact ⟨.refl s, rfl⟩
  · simp only [Option.bind_eq_bind, Option.bind_eq_some_iff] at h
    obtain ⟨⟨r, t⟩, hloop, h⟩ := h
    obtain ⟨hturns, hinfo, hret⟩ := turns_checkLoop (K := K) hloop
    rw [if_neg hret] at h
    cases h
    exact ⟨hturns, hinfo⟩

theorem turns_checkProgress {ret : Ret} (h : checkProgress (line here parent) s = some (ret, s')) :
    Turns here K [] s s' := (progressed h).1

/-- The thread that receives, when a message has come. -/
theorem turns_callbackThreadClient (hr : Ready here s) (hd : s.manager.net.down ≠ []) {ret : Option Ret}
    (h : callbackThreadClient (line here parent) s = some (ret, s')) : Turns here K [] s s' := by
  simp only [callbackThreadClient] at h
  split at h
  · cases h
    exact .refl s
  · cases h
    exact .refl s
  · rename_i msg hthread
    have hi : s.manager.info.initialized = true := by
      by_contra hn
      exact (hr.unstarted (Bool.eq_false_iff.2 hn)).2.2 msg hthread
    obtain ⟨m, down, hdown⟩ := List.exists_cons_of_ne_nil hd
    rw [getMsg_line, hi, if_pos rfl, hdown] at h
    simp only [reduceCtorEq, if_false, Option.bind_eq_bind, Option.bind_eq_some_iff, Option.pure_def,
      Option.some.injEq, Prod.mk.injEq] at h
    obtain ⟨t, ht, -, rfl⟩ := h
    -- the thread keeps the message in its variable
    have hkeep : Internal here K s { s with callbackThread := .receiving m } :=
      ⟨rfl, rfl, fun c hc => .inl ⟨c, hc, .refl c⟩, fun _ c hc _ => ⟨c, hc, .refl c⟩, fun _ =>
        ⟨hr.here, hr.started, fun hn => absurd hi (Bool.eq_false_iff.1 hn)⟩⟩
    exact (Turns.inside hkeep).silent_trans (.single (.takes hdown ht))

end E2E
