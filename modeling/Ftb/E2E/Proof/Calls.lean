import Ftb.E2E.Proof.Process

/-!
# What the calls of the API do to the connection

Each call in turns (`Turns`), with what it may send: only `FTBC_Publish` sends events, one for each time
that it returns `FTB_SUCCESS` (`turns_publish`), and `FTBC_Poll_event` takes the event that it returns
out of the queue of the client at one moment (`turns_pollEvent`).
-/

open FTB FTBU FTBN FTBMI FTBCI FTBC

namespace E2E

variable {here parent : LocationId} {s s' t : Lib Line} {l l' : List Msg}
  {K : ClientHandle → Event → Prop}

/-! ## Clients -/

theorem exists_update {p : ClientInfo → Prop} (handle : ClientHandle) {f : ClientInfo → ClientInfo}
    (hp : ∀ c, p c → p { f c with clientHandle := c.clientHandle }) (h : ∃ c ∈ s.clients, p c) :
    ∃ c ∈ (s.update handle f).clients, p c := by
  obtain ⟨c, hc, hpc⟩ := h
  simp only [Lib.clients] at hc
  cases hm : s.clientInfoMap with
  | none => simp [hm] at hc
  | some map =>
    simp only [hm, Option.map_some, Option.getD_some] at hc
    simp only [Lib.update, Lib.clients, hm, Option.map_some, Option.getD_some]
    refine ⟨_, KeyList.mem_adjust.2 ⟨c, hc, rfl⟩, ?_⟩
    split
    · exact hp c hpc
    · exact hpc

theorem exists_progress (h : Progress s s') {id : Id} (hc : ∃ c ∈ s.clients, c.id = id) :
    ∃ c ∈ s'.clients, c.id = id :=
  (h.exists_iff fun _ => Iff.rfl).2 hc

theorem handle_of_lookup {handle : ClientHandle} {c : ClientInfo}
    (h : lookupClientInfo handle s = some (.ok c)) :
    isEqualClienthandle c.clientHandle handle = true := by
  obtain ⟨map, -, hf⟩ := lookup_iff.1 h
  exact (findClient_some hf).2.2

/-- A write to the client that was found. -/
theorem internal_write {handle : ClientHandle} {c c' : ClientInfo}
    (hl : lookupClientInfo handle s = some (.ok c)) (hc : Later K c c') :
    Internal here K s (s.update handle fun _ => c') := by
  refine internal_update _ fun x hx he => ?_
  obtain ⟨map, hm, hf⟩ := lookup_iff.1 hl
  obtain ⟨hmem, -, hce⟩ := findClient_some hf
  have hxm : x ∈ map.nodes := by simpa [Lib.clients, hm] using hx
  obtain rfl : x = c := map.eq_of_mem hxm hmem (KeyEq.trans he (KeyEq.symm hce))
  exact ⟨rfl, hc.id, hc.events, hc.callbacks, fun h mask hk hs =>
    ⟨⟨hs.handle, (hc.keeps h mask hk hs).1.notifies, (hc.keeps h mask hk hs).1.entry⟩,
      (hc.keeps h mask hk hs).2⟩⟩

theorem internal_track (s : Lib Line) (track : UInt8) : Internal here K s { s with track } :=
  ⟨rfl, rfl, fun c hc => .inl ⟨c, hc, .refl c⟩, fun _ c hc _ => ⟨c, hc, .refl c⟩,
    fun h => ⟨h.here, h.started, h.unstarted⟩⟩

/-! ## Subscriptions -/

/-- No event is sent. -/
def Silent (l : List Msg) : Prop := ∀ m ∈ l, m.msgType ≠ .notify

theorem Silent.nil : Silent [] := fun _ hm => nomatch hm

theorem Silent.single {msg : Msg} (h : msg.msgType ≠ .notify) : Silent [msg] := fun _ hm =>
  List.mem_singleton.1 hm ▸ h

/-- A subscription with a callback is added. -/
theorem later_add (callback arg : Nat) (event : Event) (c : ClientInfo) :
    Later K c { utilAddToCallbackMap callback arg event c with clientHandle := c.clientHandle } := by
  refine ⟨rfl, rfl, .refl _, .refl _, fun h mask _ hs => ⟨⟨hs.handle, hs.notifies, ?_⟩, rfl⟩⟩
  obtain ⟨x, hx, hmask⟩ := hs.entry
  refine ⟨x, ?_, hmask⟩
  cases hm : c.callbackMap with
  | none => simp [ClientInfo.callbackEntries, hm] at hx
  | some map =>
    have hx : x ∈ map.nodes := by simpa [ClientInfo.callbackEntries, hm] using hx
    simpa [ClientInfo.callbackEntries, utilAddToCallbackMap, hm] using
      KeyList.mem_insert_iff.2 (.inl hx)

theorem turns_subscribeWith {type : UInt8} {add : Event → ClientInfo → ClientInfo}
    (hadd : ∀ event c, Later K c { add event c with clientHandle := c.clientHandle })
    {subscribeHandle out : Option SubscribeHandle} {clientHandle : ClientHandle}
    {subscriptionStr : Option CStr} {ret : Ret}
    (h : subscribeWith (line here parent) type add subscribeHandle clientHandle subscriptionStr s =
      some (ret, out, s')) : ∃ l, Silent l ∧ Turns here K l s s' := by
  simp only [subscribeWith] at h
  split at h
  · cases h
    exact ⟨[], .nil, .refl s⟩
  · split at h
    · cases h
      exact ⟨[], .nil, .refl s⟩
    · split at h
      · cases h
      · cases h
        exact ⟨[], .nil, .refl s⟩
      · rename_i c hl
        split at h
        · cases h
          exact ⟨[], .nil, .refl s⟩
        · split at h
          · cases h
          · rename_i track event _
            have htrack : Turns here K [] s { s with track } := .inside (internal_track s track)
            split at h
            · cases h
              exact ⟨[], .nil, htrack⟩
            · simp only [Option.bind_eq_bind, Option.bind_eq_some_iff, Option.pure_def,
                Option.some.injEq, Prod.mk.injEq] at h
              obtain ⟨⟨r₁, t⟩, hcheck, ⟨r₂, u⟩, hsend, -, -, rfl⟩ := h
              have hbefore := (htrack.silent_trans (turns_checkProgress hcheck)).silent_trans
                (.inside (internal_update clientHandle fun x _ _ => hadd event x))
              have hid : ∃ x ∈ t.clients, x.id = c.id :=
                exists_progress (s := { s with track }) (progress_checkProgress hcheck)
                  ⟨c, mem_clients_of_lookup hl, rfl⟩
              obtain ⟨x, hx, hxid⟩ := exists_update (f := add event) clientHandle
                (fun x hxid => (hadd event x).id.trans hxid) hid
              obtain ⟨-, hturns⟩ | ⟨-, hsame⟩ := turns_sendMsg (K := K) hsend hx hxid.symm (by simp)
                (.of_type (by simp))
              · refine ⟨_, ?_, hbefore.silent_trans hturns⟩
                exact .single (by simp)
              · exact ⟨[], .nil, hsame ▸ hbefore⟩

/-- A subscription is cancelled that is none of those that are kept. -/
theorem later_remove {event : Event} {c : ClientInfo}
    (hk : ∀ h mask, K h mask → Serves h mask c → isEqualEvent event mask = false) :
    Later K c { utilRemoveFromSubscriptionMap event c with clientHandle := c.clientHandle } := by
  refine ⟨rfl, rfl, .refl _, .refl _, fun h mask hkeep hs => ⟨⟨hs.handle, hs.notifies, ?_⟩, rfl⟩⟩
  obtain ⟨x, hx, hmask⟩ := hs.entry
  refine ⟨x, ?_, hmask⟩
  cases hm : c.callbackMap with
  | none => simp [ClientInfo.callbackEntries, hm] at hx
  | some map =>
    have hx : x ∈ map.nodes := by simpa [ClientInfo.callbackEntries, hm] using hx
    have hother : isEqualEvent x.mask event = false := by
      refine Bool.eq_false_iff.2 fun he => Bool.eq_false_iff.1 (hk h mask hkeep hs) ?_
      exact KeyEq.trans (KeyEq.symm he) (isEqualEvent_of_mask hmask)
    simpa [ClientInfo.callbackEntries, utilRemoveFromSubscriptionMap, hm] using
      KeyList.mem_erase.2 ⟨hx, hother⟩

theorem turns_unsubscribe (hs : ∀ c ∈ s.clients, Placed here c)
    {subscribeHandle out : SubscribeHandle} {ret : Ret}
    (hk : ∀ h mask, K h mask → isEqualClienthandle subscribeHandle.clientHandle h = true →
      isEqualEvent subscribeHandle.subscriptionEvent mask = false)
    (h : unsubscribe (line here parent) subscribeHandle s = some (ret, out, s')) :
    ∃ l, Silent l ∧ Turns here K l s s' := by
  simp only [unsubscribe] at h
  split at h
  · cases h
  · cases h
    exact ⟨[], .nil, .refl s⟩
  · rename_i c hl
    split at h
    · cases h
      exact ⟨[], .nil, .refl s⟩
    · simp only [Option.bind_eq_bind, Option.bind_eq_some_iff] at h
      obtain ⟨⟨r, u⟩, hsend, h⟩ := h
      dsimp only at h
      have hharmless : Harmless K ⟨.subscriptionCancel, c.id, parentDst default s.manager,
          subscribeHandle.subscriptionEvent⟩ := by
        intro h mask hkeep he
        refine ⟨by simp, fun _ => Bool.eq_false_iff.2 fun hmask => ?_⟩
        rw [← (hs c (mem_clients_of_lookup hl)).handle] at he
        have hother := hk h mask hkeep (KeyEq.trans (KeyEq.symm (handle_of_lookup hl)) he)
        exact Bool.eq_false_iff.1 hother (isEqualEvent_of_mask hmask)
      obtain ⟨rfl, hturns⟩ | ⟨hr, hsame⟩ :=
        turns_sendMsg hsend (mem_clients_of_lookup hl) rfl (by simp) hharmless
      · rw [if_neg (not_not.2 rfl)] at h
        simp only [Option.bind_eq_some_iff, Option.pure_def, Option.some.injEq,
          Prod.mk.injEq] at h
        obtain ⟨⟨r₂, t⟩, hcheck, -, -, rfl⟩ := h
        have hremove : Internal here K u (u.update subscribeHandle.clientHandle
            (utilRemoveFromSubscriptionMap subscribeHandle.subscriptionEvent)) :=
          internal_update _ fun x _ hx => later_remove fun h mask hkeep hs =>
            hk h mask hkeep (KeyEq.trans (KeyEq.symm hx) hs.handle)
        refine ⟨_, ?_,
          hturns.trans_silent ((Turns.inside hremove).silent_trans (turns_checkProgress hcheck))⟩
        exact .single (by simp)
      · rw [if_pos hr] at h
        cases h
        subst hsame
        exact ⟨[], .nil, .refl s'⟩

/-! ## Events -/

/-- **`FTBC_Publish` sends the event of the handle that it returns with `FTB_SUCCESS`**, and nothing
else. -/
theorem turns_publish {handle : ClientHandle} {eventName : CStr} {properties : Option EventProperties}
    {eventHandle out : Option EventHandle} {ret : Ret}
    (h : publish (line here parent) handle eventName properties eventHandle s = some (ret, out, s')) :
    (ret ≠ .success ∧ Turns here K [] s s') ∨
    ∃ msg c t, ret = .success ∧ out = some (publishedHandle msg) ∧ msg.msgType = .notify ∧
      c ∈ t.clients ∧ isEqualClienthandle c.clientHandle handle = true ∧ msg.src = c.id ∧
      Turns here K [] s t ∧ Turns here K [msg] t s' := by
  simp only [publish] at h
  split at h
  · cases h
    exact .inl ⟨by decide, .refl s⟩
  · split at h
    · cases h
      exact .inl ⟨by decide, .refl s⟩
    · split at h
      · cases h
        exact .inl ⟨by decide, .refl s⟩
      · rw [Option.bind_eq_bind, Option.bind_eq_some_iff] at h
        obtain ⟨⟨r, t⟩, hcheck, h⟩ := h
        have hcheck := turns_checkProgress (K := K) hcheck
        dsimp only at h
        split at h
        · cases h
        · rename_i ret' hl
          cases h
          exact .inl ⟨lookup_error hl, hcheck⟩
        · rename_i c hl
          split at h
          · cases h
            exact .inl ⟨by decide, hcheck⟩
          · split at h
            · cases h
              exact .inl ⟨by decide, hcheck⟩
            · simp only [Option.bind_eq_some_iff, Option.pure_def, Option.some.injEq,
                Prod.mk.injEq] at h
              obtain ⟨⟨r₂, u⟩, hsend, rfl, rfl, rfl⟩ := h
              have hcount : Internal here K t
                  (t.update handle fun c => { c with seqnum := c.seqnum + 1 }) :=
                internal_update _ fun x _ _ => .of_same rfl rfl rfl rfl rfl (.refl _)
              obtain ⟨x, hx, hxid, hxhandle⟩ := exists_update
                (f := fun c => { c with seqnum := c.seqnum + 1 })
                (p := fun x => x.id = c.id ∧ x.clientHandle = c.clientHandle) handle
                (fun x hx => hx) ⟨c, mem_clients_of_lookup hl, rfl, rfl⟩
              have hbefore := hcheck.silent_trans (.inside hcount)
              obtain ⟨rfl, hturns⟩ | ⟨hr, hsame⟩ := turns_sendMsg (K := K) hsend hx hxid.symm (by simp)
                (.of_type (by simp))
              · refine .inr ⟨_, x, _, rfl, rfl, rfl, hx, ?_, hxid.symm, hbefore, hturns⟩
                rw [hxhandle]
                exact handle_of_lookup hl
              · exact .inl ⟨hr, hsame ▸ hbefore⟩

/-- The event is taken out of the queue of the client. -/
structure Takes (sub : SubscribeHandle) (r : ReceiveEvent) (t s' : Lib Line) : Prop where
  found : ∃ c c' bytes, lookupClientInfo sub.clientHandle t = some (.ok c) ∧
    pollQueue sub.subscriptionEvent bytes c = some (some (r, c')) ∧
    s' = t.update sub.clientHandle fun _ => c'

theorem turns_pollLoop {sub : SubscribeHandle} {bytes : Cell.Mem Field} :
    ∀ {z : Nat} {s s' : Lib Line} {ret : Ret} {out : Option ReceiveEvent},
      pollLoop (line here parent) sub bytes z s = some (ret, out, s') →
      (ret ≠ .success ∧ Turns here K [] s s') ∨
      ∃ r t, ret = .success ∧ out = some r ∧ Turns here K [] s t ∧ Takes sub r t s' := by
  intro z
  induction z with
  | zero =>
    intro s s' ret out h
    cases h
    exact .inl ⟨by decide, .refl s⟩
  | succ z ih =>
    intro s s' ret out h
    simp only [pollLoop, Option.bind_eq_bind, Option.bind_eq_some_iff] at h
    obtain ⟨⟨r, t⟩, hcheck, h⟩ := h
    have hcheck := turns_checkProgress (K := K) hcheck
    dsimp only at h
    split at h
    · rename_i c hl
      rw [Option.bind_eq_some_iff] at h
      obtain ⟨found, hqueue, h⟩ := h
      split at h
      · obtain ⟨hr, hturns⟩ | ⟨r, u, hr, hout, hturns, htakes⟩ := ih h
        · exact .inl ⟨hr, hcheck.silent_trans hturns⟩
        · exact .inr ⟨r, u, hr, hout, hcheck.silent_trans hturns, htakes⟩
      · cases h
        exact .inr ⟨_, t, rfl, rfl, hcheck, ⟨c, _, bytes, hl, hqueue, rfl⟩⟩
    · cases h

/-- `FTBC_Poll_event` with what it returns. -/
theorem turns_pollEvent {sub : SubscribeHandle} {bytes : Option (Cell.Mem Field)} {ret : Ret}
    {out : Option ReceiveEvent}
    (h : pollEvent (line here parent) sub bytes s = some (ret, out, s')) :
    (ret ≠ .success ∧ Turns here K [] s s') ∨
    ∃ r t, ret = .success ∧ out = some r ∧ Turns here K [] s t ∧ Takes sub r t s' := by
  simp only [pollEvent] at h
  split at h
  · cases h
    exact .inl ⟨by decide, .refl s⟩
  · split at h
    · cases h
      exact .inl ⟨by decide, .refl s⟩
    · split at h
      · cases h
      · rename_i ret' hl
        cases h
        exact .inl ⟨lookup_error hl, .refl s⟩
      · split at h
        · cases h
          exact .inl ⟨by decide, .refl s⟩
        · exact turns_pollLoop h

/-- What `FTBC_Poll_event` writes back to the client. -/
theorem Takes.internal {sub : SubscribeHandle} {r : ReceiveEvent} (h : Takes sub r t s') :
    Internal here K t s' := by
  obtain ⟨c, c', bytes, hl, hq, rfl⟩ := h.found
  simp only [pollQueue] at hq
  split at hq
  · split at hq
    · cases hq
    · simp only [Option.bind_eq_bind, Option.bind_eq_some_iff, Option.pure_def, Option.some.injEq,
        Prod.mk.injEq] at hq
      obtain ⟨r', -, -, rfl⟩ := hq
      exact internal_write hl (.of_same rfl rfl rfl rfl rfl List.eraseP_sublist)
  · cases hq

theorem turns_getEventHandle {r : ReceiveEvent} {eventHandle out : EventHandle} {ret : Ret}
    (h : getEventHandle (line here parent) r eventHandle s = some (ret, out, s')) :
    Turns here K [] s s' := by
  simp only [getEventHandle] at h
  split at h
  · cases h
  · cases h
    exact .refl s
  · simp only [Option.bind_eq_bind, Option.bind_eq_some_iff, Option.pure_def, Option.some.injEq,
      Prod.mk.injEq] at h
    obtain ⟨_, -, _, -, _, -, ⟨r₂, t⟩, hcheck, -, -, rfl⟩ := h
    exact turns_checkProgress hcheck

theorem turns_compareEventHandles {h₁ h₂ : EventHandle} {ret : Ret}
    (h : compareEventHandles (line here parent) h₁ h₂ s = some (ret, s')) : Turns here K [] s s' := by
  simp only [compareEventHandles, Option.bind_eq_bind, Option.bind_eq_some_iff, Option.pure_def,
    Option.some.injEq, Prod.mk.injEq] at h
  obtain ⟨⟨r, t⟩, hcheck, -, rfl⟩ := h
  exact turns_checkProgress hcheck

/-! ## Callbacks -/

theorem later_callbackComponent {c c' : ClientInfo} {o : Option (CallbackEntry × ReceiveEvent)}
    (hk : ∀ h mask, K h mask → ¬Serves h mask c) (h : callbackComponent c = some (o, c')) : Later K c c' := by
  simp only [callbackComponent] at h
  split at h
  · cases h
    exact .refl c
  · rename_i entry rest hq
    split at h
    · cases h
    · simp only [Option.bind_eq_bind, Option.bind_eq_some_iff, Option.pure_def, Option.some.injEq,
        Prod.mk.injEq] at h
      obtain ⟨r, -, -, rfl⟩ := h
      refine ⟨rfl, rfl, .refl _, ?_, fun h mask hkeep hs => absurd hs (hk h mask hkeep)⟩
      rw [hq]
      exact List.sublist_cons_self entry rest

/-! ## Declarations -/

theorem later_storeDeclaredEvents : ∀ (einfo : List EventInfo) (c : ClientInfo),
    Later K c (storeDeclaredEvents einfo c).2 := by
  intro einfo
  induction einfo with
  | nil => exact .refl
  | cons e einfo ih =>
    intro c
    simp only [storeDeclaredEvents]
    split
    · exact .refl c
    · split
      · exact .refl c
      · split
        · exact .refl c
        · split
          · exact .refl c
          · have hfirst : Later K c (c.insertEvent e) := .of_same rfl rfl rfl rfl rfl (.refl _)
            exact hfirst.trans (ih (c.insertEvent e))

theorem turns_scanStr {handle : ClientHandle} {str : CStr} {sc : Scanner} {r : Except Ret Scanner}
    (h : scanStr handle str sc s = some (r, s')) : Turns here K [] s s' := by
  simp only [scanStr] at h
  split at h
  · split at h <;> cases h <;> exact .refl s
  · split at h
    · cases h
      exact .refl s
    · split at h
      · split at h
        · cases h
          exact .refl s
        · split at h
          · cases h
          · cases h
            exact .refl s
          · split at h <;> cases h <;> exact .refl s
      · split at h
        · cases h
        · cases h
          exact .refl s
      · split at h
        · cases h
          exact .refl s
        · split at h
          · cases h
          · cases h
            exact .refl s
          · rename_i c hl
            have hwrite : Turns here K [] s _ :=
              .inside (internal_write hl (later_storeDeclaredEvents [⟨sc.eventName, str⟩] c))
            split at h <;> cases h <;> exact hwrite
      · cases h
        exact .refl s

theorem turns_scanLoop {handle : ClientHandle} : ∀ {n : Nat} {text : CStr} {sc : Scanner}
    {s s' : Lib Line} {ret : Ret}, scanLoop handle n text sc s = some (ret, s') →
    Turns here K [] s s' := by
  intro n
  induction n with
  | zero =>
    intro text sc s s' ret h
    cases h
  | succ n ih =>
    intro text sc s s' ret h
    simp only [scanLoop] at h
    split at h
    · cases h
    · split at h
      · cases h
        exact .refl s
      · split at h
        · cases h
        · rename_i hstr
          cases h
          exact turns_scanStr hstr
        · rename_i hstr
          exact (turns_scanStr hstr).silent_trans (ih h)

theorem turns_declare {handle : ClientHandle} {schemaFile : Option CStr} {einfo : List EventInfo}
    {ret : Ret}
    (h : declarePublishableEvents (line here parent) handle schemaFile einfo s = some (ret, s')) :
    Turns here K [] s s' := by
  simp only [declarePublishableEvents] at h
  split at h
  · cases h
    exact .refl s
  · split at h
    · simp only [Option.bind_eq_bind, Option.bind_eq_some_iff] at h
      obtain ⟨⟨r, t⟩, hscan, h⟩ := h
      have hturns : Turns here K [] s t := turns_scanLoop hscan
      dsimp only at h
      split at h
      · cases h
        exact hturns
      · simp only [Option.bind_eq_some_iff, Option.pure_def, Option.some.injEq,
          Prod.mk.injEq] at h
        obtain ⟨⟨r₂, u⟩, hcheck, -, rfl⟩ := h
        exact hturns.silent_trans (turns_checkProgress hcheck)
    · split at h
      · cases h
      · cases h
        exact .refl s
      · rename_i c hl
        cases h
        exact .inside (internal_write hl (later_storeDeclaredEvents einfo c))

/-! ## `FTBC_Connect` and `FTBC_Disconnect` -/

/-- Behind the first locked section of `FTBC_Connect` the process is connected. -/
theorem connected_addComponent (hp : parent.pid ≠ 0) (hr : Ready here s) :
    (addComponent (line here parent) s).manager.info.initialized = true ∧
      (addComponent (line here parent) s).manager.info.self.locationId = here := by
  have hpid : (parent.pid == 0) = false := beq_eq_false_iff_ne.2 hp
  unfold addComponent
  split
  · simp [FTBM.initLeaf, line, hpid, agentId]
  · rename_i hn
    have hi : s.manager.info.initialized = true := by
      by_contra hi
      exact hn (beq_iff_eq.2 (hr.unstarted (Bool.eq_false_iff.2 hi)).1)
    exact ⟨hi, hr.here hi⟩

theorem internal_addComponent (hp : parent.pid ≠ 0) :
    Internal here K s (addComponent (line here parent) s) := by
  have hpid : (parent.pid == 0) = false := beq_eq_false_iff_ne.2 hp
  refine ⟨?_, ?_, fun c hc => .inl ⟨c, ?_, .refl c⟩, fun hr c hc _ => ⟨c, ?_, .refl c⟩, fun hr => ?_⟩
  · unfold addComponent
    split
    · simp [FTBM.initLeaf, line, hpid]
    · rfl
  · unfold addComponent
    split <;> rfl
  · rw [addComponent_clients] at hc
    split at hc
    · cases hc
    · exact hc
  · rw [addComponent_clients, if_neg (hr.counted hc)]
    exact hc
  · obtain ⟨hi, hloc⟩ := connected_addComponent hp hr
    refine ⟨fun _ => hloc, fun _ => ?_, fun hn => absurd hi (Bool.eq_false_iff.1 hn)⟩
    rw [addComponent_num]
    cases hold : s.manager.info.initialized with
    | false =>
      rw [(hr.unstarted hold).1]
      decide
    | true => exact lt_trans (hr.started hold) (Int.lt_succ _)

theorem internal_startCallback (hi : s.manager.info.initialized = true) :
    Internal here K s (startCallback s) := by
  refine ⟨?_, ?_, fun c hc => .inl ⟨c, ?_, .refl c⟩, fun _ c hc _ => ⟨c, ?_, .refl c⟩,
    fun hr => ⟨fun h => ?_, fun h => ?_, fun hn => ?_⟩⟩
  · rw [startCallback_manager]
  · unfold startCallback
    split <;> rfl
  · rwa [Lib.clients, startCallback_map] at hc
  · rwa [Lib.clients, startCallback_map]
  · rw [startCallback_manager] at h ⊢
    exact hr.here h
  · rw [startCallback_manager] at h
    rw [startCallback_num]
    exact hr.started h
  · rw [startCallback_manager] at hn
    exact absurd hi (Bool.eq_false_iff.1 hn)

/-- The new client registers. -/
theorem turns_registerClient {c : ClientInfo} (hc : Fresh here c)
    (hi : s.manager.info.initialized = true) {ret : Ret}
    (h : registerClient (line here parent) c s = some (ret, s')) :
    ∃ l, Silent l ∧ Turns here K l s s' := by
  simp only [registerClient] at h
  split at h
  · cases h
  · rename_i map hm
    split at h
    · cases h
    · cases h
      exact ⟨[], .nil, .refl s⟩
    · rename_i hf
      have hnew : map.contains c.clientHandle = false := by
        simp only [KeyList.contains, List.any_eq_false, Bool.not_eq_true]
        exact fun x hx => (findClient_none hf x hx).2
      have hinsert : Internal here K s { s with clientInfoMap := some (map.insert c) } := by
        refine ⟨rfl, rfl, fun c' hc' => ?_, fun _ c' hc' _ => ⟨c', ?_, .refl c'⟩, fun hr =>
          ⟨hr.here, hr.started, fun hn => absurd hi (Bool.eq_false_iff.1 hn)⟩⟩
        · obtain hold | rfl := (KeyList.mem_insert hnew).1 hc'
          · exact .inl ⟨c', by simpa [Lib.clients, hm] using hold, .refl c'⟩
          · exact .inr hc
        · exact (KeyList.mem_insert hnew).2 (.inl (by simpa [Lib.clients, hm] using hc'))
      have hmem : c ∈ ({ s with clientInfoMap := some (map.insert c) } : Lib Line).clients :=
        (KeyList.mem_insert hnew).2 (.inr rfl)
      simp only [Option.bind_eq_bind, Option.bind_eq_some_iff] at h
      obtain ⟨⟨r, u⟩, hsend, h⟩ := h
      dsimp only at h
      obtain ⟨rfl, hturns⟩ | ⟨hr, rfl⟩ :=
        turns_sendMsg (K := K) hsend hmem rfl (by simp) (.of_type (by simp))
      · rw [if_neg (not_not.2 rfl)] at h
        simp only [Option.bind_eq_some_iff, Option.pure_def, Option.some.injEq,
          Prod.mk.injEq] at h
        obtain ⟨⟨r₂, t⟩, hcheck, -, rfl⟩ := h
        refine ⟨_, ?_, ((Turns.inside hinsert).silent_trans hturns).trans_silent
          (turns_checkProgress hcheck)⟩
        exact .single (by simp)
      · rw [if_pos hr] at h
        cases h
        refine ⟨[], .nil, (Turns.inside hinsert).silent_trans (.inside ?_)⟩
        exact internal_update _ fun x _ _ => .of_same rfl rfl rfl rfl rfl (.refl _)

theorem turns_connect (hp : parent.pid ≠ 0) (hr : Ready here s) {cinfo : Client} {extension : UInt8}
    {clientHandle out : Option ClientHandle} {ret : Ret}
    (hname : ∀ region compCat comp,
      splitNamespace cinfo.eventSpace = some (.ok (region, compCat, comp)) →
      (CStr.strcaseEq compCat "FTB_COMP_CAT_BACKPLANE".toList &&
        CStr.strcaseEq comp "FTB_COMP_MANAGER".toList) = false)
    (h : connect (line here parent) cinfo extension clientHandle s = some (ret, out, s')) :
    ∃ l, Silent l ∧ Turns here K l s s' := by
  simp only [connect] at h
  split at h
  · cases h
    exact ⟨[], .nil, .refl s⟩
  · split at h
    · cases h
      exact ⟨[], .nil, .refl s⟩
    · rename_i subscriptionType maxPollingQueueLen _
      split at h
      · cases h
      · cases h
        exact ⟨[], .nil, .refl s⟩
      · rename_i region compCat comp hsplit
        have hadd : Turns here K [] s (addComponent (line here parent) s) :=
          .inside (internal_addComponent hp)
        obtain ⟨hi, hloc⟩ := connected_addComponent hp hr
        split at h
        · cases h
          exact ⟨[], .nil, hadd⟩
        · split at h
          · cases h
            exact ⟨[], .nil, hadd⟩
          · simp only [Option.bind_eq_bind, Option.bind_eq_some_iff, Option.pure_def,
              Option.some.injEq, Prod.mk.injEq] at h
            obtain ⟨⟨r, t⟩, hreg, -, -, rfl⟩ := h
            have hfresh : ∀ id : Id, id.clientId.compCat = compCat → id.clientId.comp = comp →
                id.locationId = FTBM.getLocationId default
                  (addComponent (line here parent) s).manager.info →
                Fresh here (newClientInfo id cinfo.clientJobid subscriptionType
                  maxPollingQueueLen) := by
              intro id hcat hcomp hid
              refine ⟨⟨?_, ?_, rfl⟩, rfl, rfl⟩
              · rw [FTBM.getLocationId, if_pos hi, hloc] at hid
                exact hid
              · show FTBM.isManagerNameCase id = false
                rw [FTBM.isManagerNameCase, hcat, hcomp]
                exact hname region compCat comp hsplit
            split at hreg
            · obtain ⟨l, hl, hturns⟩ := turns_registerClient (hfresh _ rfl rfl rfl)
                (by rw [startCallback_manager]; exact hi) hreg
              exact ⟨l, hl, (hadd.silent_trans (.inside (internal_startCallback hi))).silent_trans
                hturns⟩
            · obtain ⟨l, hl, hturns⟩ := turns_registerClient (hfresh _ rfl rfl rfl) hi hreg
              exact ⟨l, hl, hadd.silent_trans hturns⟩

/-- A client leaves that is not the last one. -/
theorem internal_removeClient {handle : ClientHandle} {c : ClientInfo}
    (hk : ∀ h mask, K h mask → isEqualClienthandle handle h = false)
    (hi : (removeClient (line here parent) handle c s).manager.info.initialized = true) :
    Internal here K s (removeClient (line here parent) handle c s) := by
  -- the manager library is still there
  have hmore : s.numComponents ≠ 1 := by
    unfold removeClient at hi
    grind [FTBM.finalizeLeaf]
  have hlast : (removeClient (line here parent) handle c s).manager = s.manager := by
    unfold removeClient at hi ⊢
    grind [FTBM.finalizeLeaf]
  have hnum : (removeClient (line here parent) handle c s).numComponents = s.numComponents - 1 :=
    removeClient_num handle c s
  have hclients : ∀ c', c' ∈ (removeClient (line here parent) handle c s).clients ↔
      c' ∈ s.clients ∧ isEqualClienthandle c'.clientHandle handle = false := by
    intro c'
    cases hm : s.clientInfoMap with
    | none =>
      unfold removeClient
      grind [Lib.clients]
    | some map =>
      rw [removeClient_clients hm, if_neg hmore, KeyList.mem_erase]
      simp [Lib.clients, hm]
  refine ⟨by rw [hlast], ?_, fun c' hc' => .inl ⟨c', ((hclients c').1 hc').1, .refl c'⟩,
    fun _ c' hc' hserves => ?_, fun hr => ⟨fun h => ?_, fun h => ?_, fun hn => ?_⟩⟩
  · unfold removeClient
    grind
  · obtain ⟨h, mask, hkeep, hs⟩ := hserves
    refine ⟨c', (hclients c').2 ⟨hc', Bool.eq_false_iff.2 fun he => ?_⟩, .refl c'⟩
    exact Bool.eq_false_iff.1 (hk h mask hkeep) (KeyEq.trans (KeyEq.symm he) hs.handle)
  · rw [hlast] at h ⊢
    exact hr.here h
  · rw [hlast] at h
    have hold := hr.started h
    omega
  · exact absurd hi (Bool.eq_false_iff.1 hn)

theorem turns_disconnect (hr : Ready here s) (hs : ∀ c ∈ s.clients, Placed here c)
    (hstay : s.manager.info.initialized = true → s'.manager.info.initialized = true)
    {handle : ClientHandle} (hk : ∀ h mask, K h mask → isEqualClienthandle handle h = false)
    {ret : Ret}
    (h : disconnect (line here parent) handle s = some (ret, s')) :
    ∃ l, Silent l ∧ Turns here K l s s' := by
  simp only [disconnect] at h
  split at h
  · cases h
    exact ⟨[], .nil, .refl s⟩
  · split at h
    · cases h
    · cases h
      exact ⟨[], .nil, .refl s⟩
    · rename_i c hl
      have hi : s.manager.info.initialized = true := by
        by_contra hi
        obtain ⟨map, hm, -⟩ := lookup_iff.1 hl
        rw [(hr.unstarted (Bool.eq_false_iff.2 hi)).2.1] at hm
        cases hm
      simp only [Option.bind_eq_bind, Option.bind_eq_some_iff] at h
      obtain ⟨⟨r, u⟩, hsend, h⟩ := h
      dsimp only at h
      have hharmless : Harmless K ⟨.clientDereg, c.id, parentDst default s.manager, default⟩ := by
        intro h mask hkeep he
        rw [← (hs c (mem_clients_of_lookup hl)).handle] at he
        exact absurd (KeyEq.trans (KeyEq.symm (handle_of_lookup hl)) he)
          (Bool.eq_false_iff.1 (hk h mask hkeep))
      obtain ⟨rfl, hturns⟩ | ⟨hr', rfl⟩ :=
        turns_sendMsg hsend (mem_clients_of_lookup hl) rfl (by simp) hharmless
      · rw [if_neg (not_not.2 rfl)] at h
        simp only [Option.bind_eq_some_iff, Option.pure_def, Option.some.injEq,
          Prod.mk.injEq] at h
        obtain ⟨⟨r₂, t⟩, hcheck, -, rfl⟩ := h
        obtain ⟨hprogress, hinfo⟩ := progressed hcheck
        have hremoved : Internal here K u _ := internal_removeClient hk (hinfo ▸ hstay hi)
        refine ⟨_, ?_, hturns.trans_silent ((Turns.inside hremoved).silent_trans hprogress)⟩
        exact .single (by simp)
      · rw [if_pos hr'] at h
        cases h
        exact ⟨[], .nil, .refl _⟩

/-! ## Any call -/

/-- A call that is not `FTBC_Publish` sends no event. -/
theorem turns_call (hp : parent.pid ≠ 0) (hr : Ready here s) (hs : ∀ c ∈ s.clients, Placed here c)
    (hstay : s.manager.info.initialized = true → s'.manager.info.initialized = true)
    {call : ApiCall} (hk : ∀ h mask, K h mask → Spares call h mask)
    (hname : ∀ cinfo extension handle, call = .connect cinfo extension handle →
      ∀ region compCat comp, splitNamespace cinfo.eventSpace = some (.ok (region, compCat, comp)) →
      (CStr.strcaseEq compCat "FTB_COMP_CAT_BACKPLANE".toList &&
        CStr.strcaseEq comp "FTB_COMP_MANAGER".toList) = false)
    (hpublish : ∀ handle name properties eventHandle,
      call ≠ .publish handle name properties eventHandle)
    (h : call.run (line here parent) s = some s') : ∃ l, Silent l ∧ Turns here K l s s' := by
  cases call with
  | connect cinfo extension handle =>
    obtain ⟨⟨_, _, _⟩, hc, rfl⟩ := Option.map_eq_some_iff.1 h
    exact turns_connect hp hr (hname _ _ _ rfl) hc
  | disconnect handle =>
    obtain ⟨⟨_, _⟩, hc, rfl⟩ := Option.map_eq_some_iff.1 h
    exact turns_disconnect hr hs hstay hk hc
  | subscribeWithPolling subscribeHandle handle str =>
    obtain ⟨⟨_, _, _⟩, hc, rfl⟩ := Option.map_eq_some_iff.1 h
    have hadd : ∀ event c, Later K c
        { utilAddToPollingMap event c with clientHandle := c.clientHandle } :=
      fun _ _ => .of_same rfl rfl rfl rfl rfl (.refl _)
    exact turns_subscribeWith hadd hc
  | subscribeWithCallback subscribeHandle handle str callback arg =>
    obtain ⟨⟨_, _, _⟩, hc, rfl⟩ := Option.map_eq_some_iff.1 h
    have hadd : ∀ event c, Later K c
        { utilAddToCallbackMap callback arg event c with clientHandle := c.clientHandle } :=
      later_add callback arg
    exact turns_subscribeWith hadd hc
  | unsubscribe subscribeHandle =>
    obtain ⟨⟨_, _, _⟩, hc, rfl⟩ := Option.map_eq_some_iff.1 h
    exact turns_unsubscribe hs hk hc
  | publish handle name properties eventHandle => exact absurd rfl (hpublish _ _ _ _)
  | pollEvent sub bytes =>
    obtain ⟨⟨_, _, _⟩, hc, rfl⟩ := Option.map_eq_some_iff.1 h
    obtain ⟨-, hturns⟩ | ⟨r, t, -, -, hturns, htakes⟩ := turns_pollEvent hc
    · exact ⟨[], .nil, hturns⟩
    · exact ⟨[], .nil, hturns.silent_trans (.inside htakes.internal)⟩
  | getEventHandle r eventHandle =>
    obtain ⟨⟨_, _, _⟩, hc, rfl⟩ := Option.map_eq_some_iff.1 h
    exact ⟨[], .nil, turns_getEventHandle hc⟩
  | compareEventHandles h₁ h₂ =>
    obtain ⟨⟨_, _⟩, hc, rfl⟩ := Option.map_eq_some_iff.1 h
    exact ⟨[], .nil, turns_compareEventHandles hc⟩

end E2E
