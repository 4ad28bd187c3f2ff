import Ftb.Client.Locked

/-!
# Balanced locks

Without its locks every function of `Ftb.Client.Locked` is the function of `Ftb.Client.Ops` or
`Ftb.Client.Declare` (the `erase_` theorems). With them, a function that is called with no lock
returns with none (the `keeps_` theorems), but for two: `FTBC_Poll_event` unlocks the client once
more behind its loop, and `FTBC_Disconnect` unlocks a client with callbacks after
`FTBCI_util_finalize_component` did. `lock_discipline`: these are the only paths that are not
balanced.
-/

open FTB FTBU FTBN FTBMI FTBM CStr Locks Journal

namespace FTBCI.Locked

variable {N : Type} (w : LeafNetwork N)

/-! ## Without the locks -/

theorem erase_lookupClientInfo (handle : ClientHandle) (s : Lib N) :
    (lookupClientInfo handle).erase s = (FTBCI.lookupClientInfo handle s).map fun r => (r, s) := by
  unfold lookupClientInfo FTBCI.lookupClientInfo
  simp only [Prog.erase_bind, Prog.erase_get, Option.bind_some]
  cases s.clientInfoMap with
  | none => rfl
  | some map =>
    simp only [Prog.erase_bind, erase_lock, Option.bind_some]
    cases findClient map handle with
    | none => rfl
    | some r => cases r <;> rfl

theorem erase_utilHandleFTBMMsg (msg : Msg) (s : Lib N) :
    (utilHandleFTBMMsg msg).erase s = (FTBCI.utilHandleFTBMMsg msg s).map fun s => ((), s) := by
  unfold utilHandleFTBMMsg FTBCI.utilHandleFTBMMsg
  simp only [Prog.erase_bind, Prog.erase_modify, Option.bind_some]
  by_cases h : msg.msgType = .notify
  · simp only [h, ne_eq, not_true_eq_false, if_false, Prog.erase_bind, erase_lock,
      Prog.erase_get, Option.bind_some]
    cases s.clientInfoMap with
    | none => rfl
    | some map =>
      cases hf : findClient map (convertClientidToClienthandle msg.dst.clientId) with
      | none => simp [hf]
      | some r =>
        cases r with
        | none => simp [hf]
        | some c =>
          simp only [hf]
          split <;> rfl
  · simp [h]

theorem erase_utilReconnect (s : Lib N) :
    (utilReconnect w).erase s = (FTBCI.utilReconnect w s).map fun s => ((), s) := by
  unfold utilReconnect call
  simp only [Prog.erase_bind, erase_lock, Prog.erase_lift, Option.bind_some]
  cases FTBCI.utilReconnect w s <;> rfl

theorem erase_checkLoop (n : Nat) (s : Lib N) :
    (checkLoop w n).erase s = FTBCI.checkLoop w n s := by
  induction n generalizing s with
  | zero => rfl
  | succ n ih =>
    unfold checkLoop FTBCI.checkLoop call
    simp only [Prog.erase_bind, Prog.erase_lift, Prog.erase_ite, Option.bind_some,
      erase_utilHandleFTBMMsg, Option.bind_map, Option.bind_eq_bind]
    congr 2
    funext t
    exact ih t

theorem erase_checkProgress (s : Lib N) :
    (checkProgress w).erase s = FTBCI.checkProgress w s := by
  unfold checkProgress FTBCI.checkProgress
  simp only [Prog.erase_bind, Prog.erase_get, Prog.erase_ite, Option.bind_some, erase_checkLoop,
    erase_utilReconnect, Option.bind_map, Option.bind_eq_bind]
  rfl

theorem erase_changeMaps (clientHandle : ClientHandle) (c : ClientInfo)
    (f : ClientInfo → ClientInfo) (s : Lib N) :
    (changeMaps clientHandle c f).erase s = some ((), s.update clientHandle f) := rfl

theorem erase_storeDeclaredEvents (l : Lock) (eventTable : List EventInfo) (c : ClientInfo) :
    (storeDeclaredEvents l eventTable).erase c = some (FTBCI.storeDeclaredEvents eventTable c) := by
  induction eventTable generalizing c with
  | nil => rfl
  | cons e eventTable ih =>
    unfold storeDeclaredEvents FTBCI.storeDeclaredEvents
    simp only [Prog.erase_bind, erase_lock, erase_unlock, Prog.erase_get,
      Prog.erase_modify, Prog.erase_ite, Prog.erase_pure, Option.bind_some, ih]
    simp only [← apply_ite some]

theorem erase_storeFor (clientHandle : ClientHandle) (c : ClientInfo) (eventTable : List EventInfo)
    (s : Lib N) :
    (storeFor clientHandle c eventTable).erase s =
      some ((FTBCI.storeDeclaredEvents eventTable c).1,
        s.update clientHandle fun _ => (FTBCI.storeDeclaredEvents eventTable c).2) := by
  unfold storeFor
  rw [Prog.erase_within, erase_storeDeclaredEvents]
  rfl

theorem erase_scanStr (clientHandle : ClientHandle) (str : CStr) (sc : Scanner) (s : Lib N) :
    (scanStr clientHandle str sc).erase s = FTBCI.scanStr clientHandle str sc s := by
  unfold scanStr FTBCI.scanStr
  simp only [Prog.erase_ite, Prog.erase_pure]
  congr 2
  cases sc.state with
  | inStruct =>
    simp only [Prog.erase_ite, Prog.erase_pure]
    cases splitNamespace str with
    | none => rfl
    | some r => cases r <;> simp
  | foundEventspace => simp
  | foundEventname =>
    simp only [Prog.erase_ite, Prog.erase_pure, Prog.erase_bind, erase_lookupClientInfo]
    congr 1
    cases FTBCI.lookupClientInfo clientHandle s with
    | none => rfl
    | some r =>
      cases r with
      | error ret => rfl
      | ok c => simp [erase_storeFor]
  | init => rfl
  | empty => rfl

theorem erase_scanLoop (clientHandle : ClientHandle) (n : Nat) (text : CStr) (sc : Scanner)
    (s : Lib N) :
    (scanLoop clientHandle n text sc).erase s = FTBCI.scanLoop clientHandle n text sc s := by
  induction n generalizing text sc s with
  | zero => rfl
  | succ n ih =>
    unfold scanLoop FTBCI.scanLoop
    simp only [Prog.erase_ite, Prog.erase_pure, Prog.erase_bind, Prog.erase_undefined,
      erase_scanStr]
    congr 2
    cases FTBCI.scanStr clientHandle (Words.next isSpace text).1 sc s with
    | none => rfl
    | some r =>
      obtain ⟨r, t⟩ := r
      cases r with
      | error ret => rfl
      | ok sc => exact ih _ sc t

theorem erase_checkSchemaFile (clientHandle : ClientHandle) (text : CStr) (s : Lib N) :
    (checkSchemaFile clientHandle text).erase s = FTBCI.checkSchemaFile clientHandle text s :=
  erase_scanLoop ..

end FTBCI.Locked

namespace FTBC.Locked

open FTBCI FTBCI.Locked

variable {N : Type} (w : LeafNetwork N)

theorem erase_registerClient (c : ClientInfo) (s : Lib N) :
    (registerClient w c).erase s = FTBC.registerClient w c s := by
  unfold registerClient FTBC.registerClient call
  simp only [Prog.erase_bind, erase_lock, Prog.erase_get, Option.bind_some]
  cases s.clientInfoMap with
  | none => rfl
  | some map =>
    cases hf : findClient map c.clientHandle with
    | none => simp [hf]
    | some r =>
      cases r with
      | some d => simp [hf]
      | none =>
        simp only [hf, Prog.erase_bind, Prog.erase_modify, erase_unlock, Prog.erase_get,
          Prog.erase_lift, Prog.erase_ite, Prog.erase_pure, Option.bind_some, erase_checkProgress,
          Option.bind_eq_bind, Option.pure_def]

theorem erase_connect (cinfo : Client) (extension : UInt8) (clientHandle : Option ClientHandle)
    (s : Lib N) :
    (connect w cinfo extension clientHandle).erase s =
      (FTBC.connect w cinfo extension clientHandle s).map fun r => ((r.1, r.2.1), r.2.2) := by
  unfold connect FTBC.connect
  cases clientHandle with
  | none => rfl
  | some handle =>
    cases subscriptionStyle cinfo with
    | none => rfl
    | some style =>
      obtain ⟨subscriptionType, maxPollingQueueLen⟩ := style
      cases splitNamespace cinfo.eventSpace with
      | none => rfl
      | some r =>
        cases r with
        | error ret => rfl
        | ok parts =>
          simp only [Prog.erase_bind, erase_lock, erase_unlock, Prog.erase_get,
            Prog.erase_modify, Prog.erase_ite, Prog.erase_pure, Option.bind_some,
            erase_registerClient, Option.bind_eq_bind, Option.pure_def]
          split
          · rfl
          · split
            · rfl
            · split <;> simp [Option.map_bind]

theorem erase_disconnect (clientHandle : ClientHandle) (s : Lib N) :
    (disconnect w clientHandle).erase s = FTBC.disconnect w clientHandle s := by
  unfold disconnect FTBC.disconnect call
  simp only [Prog.erase_ite, Prog.erase_pure, Prog.erase_bind, erase_lookupClientInfo]
  congr 1
  cases FTBCI.lookupClientInfo clientHandle s with
  | none => rfl
  | some r =>
    cases r with
    | error ret => rfl
    | ok c =>
      have hf (s : Lib N) : (utilFinalizeComponent c).erase s = some ((), s) := by
        unfold utilFinalizeComponent
        split <;> rfl
      simp only [finalizeClient, Option.map_some, Option.bind_some, Prog.erase_bind, Prog.erase_get,
        Prog.erase_lift, Prog.erase_ite, erase_lock, erase_unlock, Prog.erase_modify,
        Prog.erase_pure, hf, erase_checkProgress, Option.bind_eq_bind, Option.pure_def]

theorem erase_subscribeWith (type : UInt8) (add : Event → ClientInfo → ClientInfo)
    (subscribeHandle : Option SubscribeHandle) (clientHandle : ClientHandle)
    (subscriptionStr : Option CStr) (s : Lib N) :
    (subscribeWith w type add subscribeHandle clientHandle subscriptionStr).erase s =
      (FTBC.subscribeWith w type add subscribeHandle clientHandle subscriptionStr s).map fun r =>
        ((r.1, r.2.1), r.2.2) := by
  unfold subscribeWith FTBC.subscribeWith call
  cases subscribeHandle with
  | none => rfl
  | some old =>
    simp only [Prog.erase_ite, Prog.erase_pure, Prog.erase_bind, erase_lookupClientInfo]
    split
    · rfl
    · cases FTBCI.lookupClientInfo clientHandle s with
      | none => rfl
      | some r =>
        cases r with
        | error ret => rfl
        | ok c =>
          simp only [Option.map_some, Option.bind_some, Prog.erase_bind, Prog.erase_get,
            Prog.erase_lift, Prog.erase_ite, Prog.erase_pure, erase_changeMaps, erase_checkProgress,
            Option.bind_eq_bind, Option.pure_def]
          split
          · rfl
          · cases parseSubscriptionString subscriptionStr s.track default with
            | none => rfl
            | some r =>
              simp only [Option.map_some, Option.bind_some]
              split <;> simp [Option.map_bind]

theorem erase_unsubscribe (subscribeHandle : SubscribeHandle) (s : Lib N) :
    (unsubscribe w subscribeHandle).erase s =
      (FTBC.unsubscribe w subscribeHandle s).map fun r => ((r.1, r.2.1), r.2.2) := by
  unfold unsubscribe FTBC.unsubscribe call
  simp only [Prog.erase_bind, erase_lookupClientInfo]
  cases FTBCI.lookupClientInfo subscribeHandle.clientHandle s with
  | none => rfl
  | some r =>
    cases r with
    | error ret => rfl
    | ok c =>
      simp only [Option.map_some, Option.bind_some, Prog.erase_bind, Prog.erase_get,
        Prog.erase_lift, Prog.erase_ite, Prog.erase_pure, erase_changeMaps, erase_checkProgress,
        Option.bind_eq_bind, Option.pure_def]
      split
      · rfl
      · simp only [Option.map_bind, Function.comp_def, apply_ite (Option.map _)]
        rfl

theorem erase_publish (ftbTag : Bool) (clientHandle : ClientHandle) (eventName : CStr)
    (eventProperties : Option EventProperties) (eventHandle : Option EventHandle) (s : Lib N) :
    (publish w ftbTag clientHandle eventName eventProperties eventHandle).erase s =
      (FTBC.publish w clientHandle eventName eventProperties eventHandle s).map fun r =>
        ((r.1, r.2.1), r.2.2) := by
  have hcopy (s : Lib N) : (publish.copyTagString ftbTag).erase s = some ((), s) := by
    unfold publish.copyTagString
    split <;> rfl
  unfold publish FTBC.publish call
  simp only [Prog.erase_ite, Prog.erase_pure, Prog.erase_bind, erase_lookupClientInfo,
    erase_checkProgress]
  split
  · rfl
  · split
    · rfl
    · split
      · rfl
      · simp only [Option.bind_eq_bind, Option.map_bind, Function.comp_def]
        congr 1
        funext r
        cases FTBCI.lookupClientInfo clientHandle r.2 with
        | none => rfl
        | some q =>
          cases q with
          | error ret => rfl
          | ok c =>
            simp only [Option.map_some, Option.bind_some, Prog.erase_bind, erase_lock]
            cases c.declaredEventsMap.find? eventName with
            | none => rfl
            | some details =>
              simp only [Prog.erase_bind, Prog.erase_get, erase_lock, erase_unlock, hcopy,
                Prog.erase_lift, Prog.erase_ite, Prog.erase_pure, Prog.erase_modify,
                Option.bind_some]
              split
              · rfl
              · simp [Option.map_bind]

theorem erase_pollLoop (subscribeHandle : SubscribeHandle) (bytes : Cell.Mem Field) (l : Lock)
    (z : Nat) (s : Lib N) :
    (pollLoop w subscribeHandle bytes l z).erase s =
      (FTBC.pollLoop w subscribeHandle bytes z s).map fun r => (r.2.1, r.2.2) := by
  induction z generalizing s with
  | zero => rfl
  | succ z ih =>
    unfold pollLoop FTBC.pollLoop
    simp only [Prog.erase_bind, erase_checkProgress, erase_lock, Prog.erase_get,
      Option.bind_some, Option.bind_eq_bind, Option.map_bind, Function.comp_def]
    congr 1
    funext r
    cases FTBCI.lookupClientInfo subscribeHandle.clientHandle r.2 with
    | none => rfl
    | some q =>
      cases q with
      | error ret => rfl
      | ok c =>
        simp only []
        cases pollQueue subscribeHandle.subscriptionEvent bytes c with
        | none => rfl
        | some q =>
          cases q with
          | none =>
            simp only [Prog.erase_bind, erase_unlock, Option.bind_some]
            exact ih r.2
          | some q => rfl

/-- What the loop gives with `FTB_GOT_NO_EVENT` is nothing, and something with `FTB_SUCCESS`. -/
theorem pollLoop_result {subscribeHandle : SubscribeHandle} {bytes : Cell.Mem Field} {z : Nat}
    {s s' : Lib N} {ret : Ret} {r : Option ReceiveEvent}
    (h : FTBC.pollLoop w subscribeHandle bytes z s = some (ret, r, s')) :
    ret = if r.isSome then .success else .gotNoEvent := by
  induction z generalizing s with
  | zero =>
    cases h
    rfl
  | succ z ih =>
    unfold FTBC.pollLoop at h
    obtain ⟨⟨_, t⟩, -, h⟩ := Option.bind_eq_some_iff.1 h
    dsimp only at h
    split at h
    · obtain ⟨q, -, h⟩ := Option.bind_eq_some_iff.1 h
      cases q with
      | none => exact ih h
      | some q =>
        cases h
        rfl
    · cases h

theorem erase_pollEvent (subscribeHandle : SubscribeHandle)
    (receiveEvent : Option (Cell.Mem Field)) (s : Lib N) :
    (pollEvent w subscribeHandle receiveEvent).erase s =
      (FTBC.pollEvent w subscribeHandle receiveEvent s).map fun r => ((r.1, r.2.1), r.2.2) := by
  unfold pollEvent FTBC.pollEvent
  cases receiveEvent with
  | none => rfl
  | some bytes =>
    simp only [Prog.erase_ite, Prog.erase_pure, Prog.erase_bind, erase_lookupClientInfo]
    split
    · rfl
    · cases FTBCI.lookupClientInfo subscribeHandle.clientHandle s with
      | none => rfl
      | some q =>
        cases q with
        | error ret => rfl
        | ok c =>
          simp only [Option.map_some, Option.bind_some, Prog.erase_ite, Prog.erase_pure,
            Prog.erase_bind, erase_pollLoop]
          split
          · rfl
          · cases h : FTBC.pollLoop w subscribeHandle bytes 2 s with
            | none => rfl
            | some q =>
              obtain ⟨ret, r, s'⟩ := q
              have hret := pollLoop_result w h
              cases r <;> simp [hret]

theorem erase_declarePublishableEvents (clientHandle : ClientHandle) (schemaFile : Option CStr)
    (einfo : List EventInfo) (s : Lib N) :
    (declarePublishableEvents w clientHandle schemaFile einfo).erase s =
      FTBC.declarePublishableEvents w clientHandle schemaFile einfo s := by
  unfold declarePublishableEvents FTBC.declarePublishableEvents
  simp only [Prog.erase_ite, Prog.erase_pure]
  congr 1
  cases schemaFile with
  | some text =>
    simp only [Prog.erase_bind, erase_checkSchemaFile, Prog.erase_ite, Prog.erase_pure,
      erase_checkProgress, Option.bind_eq_bind, Option.pure_def]
  | none =>
    simp only [Prog.erase_bind, erase_lookupClientInfo]
    cases FTBCI.lookupClientInfo clientHandle s with
    | none => rfl
    | some r =>
      cases r with
      | error ret => rfl
      | ok c => simp [erase_storeFor]

end FTBC.Locked

/-! ## With the locks -/

namespace FTBCI.Locked

variable {N : Type} (w : LeafNetwork N)

theorem keeps_lookupClientInfo (handle : ClientHandle) :
    Keeps [] (lookupClientInfo handle : Prog (Op Lock) (Lib N) (Except Ret ClientInfo)) [] := by
  refine Keeps.lift_bind fun s => ?_
  cases s.clientInfoMap with
  | none => exact Keeps.pure _
  | some map =>
    refine Keeps.lock_bind List.not_mem_nil ?_
    cases findClient map handle with
    | none => exact Keeps.undefined
    | some r => cases r <;> exact Keeps.unlock_bind (Keeps.pure _)

theorem lookupClientInfo_run {handle : ClientHandle} {s s' : Lib N} {r : Except Ret ClientInfo}
    {ops : List (Op Lock)} (h : lookupClientInfo handle s = some (r, s', ops)) :
    FTBCI.lookupClientInfo handle s = some r ∧ s' = s ∧ Balanced ops := by
  have he := Prog.erase_of_run h
  rw [erase_lookupClientInfo] at he
  obtain ⟨q, hq, hr⟩ := Option.map_eq_some_iff.1 he
  cases hr
  exact ⟨hq, rfl, (keeps_lookupClientInfo handle).balanced h⟩

theorem keeps_utilHandleFTBMMsg (msg : Msg) :
    Keeps [] (utilHandleFTBMMsg msg : Prog (Op Lock) (Lib N) Unit) [] := by
  refine Keeps.lift_bind fun _ => Keeps.ite (fun _ => Keeps.pure _) fun _ => ?_
  refine Keeps.lock_bind List.not_mem_nil (Keeps.lift_bind fun s => ?_)
  cases s.clientInfoMap with
  | none => exact Keeps.undefined
  | some map =>
    dsimp only
    cases findClient map (convertClientidToClienthandle msg.dst.clientId) with
    | none => exact Keeps.undefined
    | some r =>
      cases r with
      | none => exact Keeps.unlock
      | some c =>
        refine Keeps.unlock_bind (Keeps.lock_bind List.not_mem_nil (Keeps.lift_bind fun _ => ?_))
        exact Keeps.ite (fun _ => Keeps.unlock) fun _ => Keeps.unlock

theorem keeps_utilReconnect : Keeps [] (utilReconnect w) [] :=
  Keeps.lock_bind List.not_mem_nil (Keeps.lift_bind fun _ => Keeps.unlock)

theorem keeps_checkLoop (n : Nat) : Keeps [] (checkLoop w n) [] := by
  induction n with
  | zero => exact Keeps.undefined
  | succ n ih =>
    refine Keeps.lift_bind fun r => Keeps.ite (fun _ => ?_) fun _ => Keeps.pure _
    exact (keeps_utilHandleFTBMMsg r.2).bind fun _ => ih

theorem keeps_checkProgress : Keeps [] (checkProgress w) [] := by
  refine Keeps.lift_bind fun s => Keeps.ite (fun _ => Keeps.pure _) fun _ => ?_
  refine (keeps_checkLoop w _).bind fun ret => Keeps.ite (fun _ => ?_) fun _ => Keeps.pure _
  exact (keeps_utilReconnect w).bind fun _ => Keeps.pure _

theorem keeps_changeMaps (clientHandle : ClientHandle) (c : ClientInfo)
    (f : ClientInfo → ClientInfo) :
    Keeps [] (changeMaps clientHandle c f : Prog (Op Lock) (Lib N) Unit) [] :=
  Keeps.lock_bind List.not_mem_nil (Keeps.lift_bind fun _ => Keeps.unlock)

theorem keeps_storeDeclaredEvents (l : Lock) (eventTable : List EventInfo) :
    Keeps [] (storeDeclaredEvents l eventTable) [] := by
  induction eventTable with
  | nil => exact Keeps.pure _
  | cons e eventTable ih =>
    refine Keeps.lock_bind List.not_mem_nil (Keeps.lift_bind fun c => ?_)
    refine Keeps.ite (fun _ => Keeps.unlock_bind (Keeps.pure _)) fun _ => Keeps.unlock_bind ?_
    refine Keeps.ite (fun _ => Keeps.pure _) fun _ => Keeps.ite (fun _ => Keeps.pure _) fun _ => ?_
    refine Keeps.lock_bind List.not_mem_nil (Keeps.lift_bind fun c => ?_)
    refine Keeps.ite (fun _ => Keeps.unlock_bind (Keeps.pure _)) fun _ => Keeps.unlock_bind ?_
    exact Keeps.lock_bind List.not_mem_nil (Keeps.lift_bind fun _ => Keeps.unlock_bind ih)

theorem keeps_storeFor (clientHandle : ClientHandle) (c : ClientInfo)
    (eventTable : List EventInfo) :
    Keeps [] (storeFor clientHandle c eventTable : Prog (Op Lock) (Lib N) Ret) [] :=
  (keeps_storeDeclaredEvents _ eventTable).within

theorem keeps_scanStr (clientHandle : ClientHandle) (str : CStr) (sc : Scanner) :
    Keeps [] (scanStr clientHandle str sc : Prog (Op Lock) (Lib N) (Except Ret Scanner)) [] := by
  refine Keeps.ite (fun _ => Keeps.ite (fun _ => Keeps.pure _) fun _ => Keeps.pure _) fun _ => ?_
  refine Keeps.ite (fun _ => Keeps.pure _) fun _ => ?_
  cases sc.state with
  | inStruct =>
    refine Keeps.ite (fun _ => Keeps.pure _) fun _ => ?_
    cases splitNamespace str with
    | none => exact Keeps.undefined
    | some r =>
      cases r with
      | error _ => exact Keeps.pure _
      | ok parts => exact Keeps.ite (fun _ => Keeps.pure _) fun _ => Keeps.pure _
  | foundEventspace => exact Keeps.ite (fun _ => Keeps.undefined) fun _ => Keeps.pure _
  | foundEventname =>
    refine Keeps.ite (fun _ => Keeps.pure _) fun _ => ?_
    refine (keeps_lookupClientInfo clientHandle).bind fun r => ?_
    cases r with
    | error ret => exact Keeps.pure _
    | ok c =>
      refine (keeps_storeFor clientHandle c _).bind fun ret => ?_
      exact Keeps.ite (fun _ => Keeps.pure _) fun _ => Keeps.pure _
  | init => exact Keeps.pure _
  | empty => exact Keeps.pure _

theorem keeps_scanLoop (clientHandle : ClientHandle) (n : Nat) (text : CStr) (sc : Scanner) :
    Keeps [] (scanLoop clientHandle n text sc : Prog (Op Lock) (Lib N) Ret) [] := by
  induction n generalizing text sc with
  | zero => exact Keeps.undefined
  | succ n ih =>
    refine Keeps.ite (fun _ => Keeps.undefined) fun _ => ?_
    refine Keeps.ite (fun _ => Keeps.pure _) fun _ => ?_
    refine (keeps_scanStr clientHandle _ sc).bind fun r => ?_
    cases r with
    | error ret => exact Keeps.pure _
    | ok sc => exact ih _ sc

end FTBCI.Locked

namespace FTBC.Locked

open FTBCI FTBCI.Locked

variable {N : Type} (w : LeafNetwork N)

theorem keeps_registerClient (c : ClientInfo) : Keeps [] (registerClient w c) [] := by
  refine Keeps.lock_bind List.not_mem_nil (Keeps.lift_bind fun s => ?_)
  cases s.clientInfoMap with
  | none => exact Keeps.undefined
  | some map =>
    dsimp only
    cases findClient map c.clientHandle with
    | none => exact Keeps.undefined
    | some r =>
      cases r with
      | some _ => exact Keeps.unlock_bind (Keeps.pure _)
      | none =>
        refine Keeps.lift_bind fun _ => Keeps.unlock_bind (Keeps.lift_bind fun s => ?_)
        refine Keeps.lift_bind fun ret => Keeps.ite (fun _ => ?_) fun _ => ?_
        · exact Keeps.lift_bind fun _ => Keeps.pure _
        · exact (keeps_checkProgress w).bind fun _ => Keeps.pure _

theorem keeps_connect (cinfo : Client) (extension : UInt8) (clientHandle : Option ClientHandle) :
    Keeps [] (connect w cinfo extension clientHandle) [] := by
  unfold connect
  cases clientHandle with
  | none => exact Keeps.pure _
  | some handle =>
    cases subscriptionStyle cinfo with
    | none => exact Keeps.pure _
    | some style =>
      cases splitNamespace cinfo.eventSpace with
      | none => exact Keeps.undefined
      | some r =>
        cases r with
        | error ret => exact Keeps.pure _
        | ok parts =>
          refine Keeps.lock_bind List.not_mem_nil (Keeps.lift_bind fun _ => ?_)
          refine Keeps.unlock_bind (Keeps.ite (fun _ => Keeps.pure _) fun _ => ?_)
          refine Keeps.lift_bind fun s => Keeps.ite (fun _ => Keeps.pure _) fun _ => ?_
          refine Keeps.ite (fun _ => ?_) fun _ => ?_
          · refine Keeps.lock_bind List.not_mem_nil (Keeps.lift_bind fun _ => ?_)
            exact Keeps.unlock_bind ((keeps_registerClient w _).bind fun _ => Keeps.pure _)
          · exact (keeps_registerClient w _).bind fun _ => Keeps.pure _

theorem keeps_subscribeWith (type : UInt8) (add : Event → ClientInfo → ClientInfo)
    (subscribeHandle : Option SubscribeHandle) (clientHandle : ClientHandle)
    (subscriptionStr : Option CStr) :
    Keeps [] (subscribeWith w type add subscribeHandle clientHandle subscriptionStr) [] := by
  unfold subscribeWith
  cases subscribeHandle with
  | none => exact Keeps.pure _
  | some old =>
    refine Keeps.ite (fun _ => Keeps.pure _) fun _ => ?_
    refine (keeps_lookupClientInfo clientHandle).bind fun r => ?_
    cases r with
    | error ret => exact Keeps.pure _
    | ok c =>
      refine Keeps.ite (fun _ => Keeps.pure _) fun _ => Keeps.lift_bind fun r => ?_
      refine Keeps.ite (fun _ => Keeps.pure _) fun _ => (keeps_checkProgress w).bind fun _ => ?_
      refine (keeps_changeMaps clientHandle c _).bind fun _ => Keeps.lift_bind fun _ => ?_
      exact Keeps.lift_bind fun _ => Keeps.pure _

theorem keeps_unsubscribe (subscribeHandle : SubscribeHandle) :
    Keeps [] (unsubscribe w subscribeHandle) [] := by
  refine (keeps_lookupClientInfo subscribeHandle.clientHandle).bind fun r => ?_
  cases r with
  | error ret => exact Keeps.pure _
  | ok c =>
    refine Keeps.ite (fun _ => Keeps.pure _) fun _ => Keeps.lift_bind fun _ => ?_
    refine Keeps.lift_bind fun _ => Keeps.ite (fun _ => Keeps.pure _) fun _ => ?_
    refine (keeps_changeMaps _ c _).bind fun _ => ?_
    exact (keeps_checkProgress w).bind fun _ => Keeps.pure _

theorem keeps_publish (ftbTag : Bool) (clientHandle : ClientHandle) (eventName : CStr)
    (eventProperties : Option EventProperties) (eventHandle : Option EventHandle) :
    Keeps [] (publish w ftbTag clientHandle eventName eventProperties eventHandle) [] := by
  have hcopy : Keeps [] (publish.copyTagString ftbTag : Prog (Op Lock) (Lib N) Unit) [] :=
    Keeps.ite (fun _ => Keeps.lock_bind List.not_mem_nil Keeps.unlock) fun _ => Keeps.pure _
  refine Keeps.ite (fun _ => Keeps.pure _) fun _ => Keeps.ite (fun _ => Keeps.pure _) fun _ => ?_
  refine Keeps.ite (fun _ => Keeps.pure _) fun _ => (keeps_checkProgress w).bind fun _ => ?_
  refine (keeps_lookupClientInfo clientHandle).bind fun r => ?_
  cases r with
  | error ret => exact Keeps.pure _
  | ok c =>
    refine Keeps.lock_bind List.not_mem_nil ?_
    cases c.declaredEventsMap.find? eventName with
    | none => exact Keeps.unlock_bind (Keeps.pure _)
    | some details =>
      refine Keeps.unlock_bind (hcopy.bind fun _ => Keeps.ite (fun _ => Keeps.pure _) fun _ => ?_)
      refine Keeps.lock_bind List.not_mem_nil (Keeps.lift_bind fun _ => Keeps.unlock_bind ?_)
      exact Keeps.lift_bind fun _ => Keeps.lift_bind fun _ => Keeps.pure _

theorem keeps_declarePublishableEvents (clientHandle : ClientHandle) (schemaFile : Option CStr)
    (einfo : List EventInfo) :
    Keeps [] (declarePublishableEvents w clientHandle schemaFile einfo) [] := by
  refine Keeps.ite (fun _ => Keeps.pure _) fun _ => ?_
  cases schemaFile with
  | some text =>
    refine (keeps_scanLoop clientHandle _ text _).bind fun ret => ?_
    refine Keeps.ite (fun _ => Keeps.pure _) fun _ => ?_
    exact (keeps_checkProgress w).bind fun _ => Keeps.pure _
  | none =>
    refine (keeps_lookupClientInfo clientHandle).bind fun r => ?_
    cases r with
    | error ret => exact Keeps.pure _
    | ok c => exact keeps_storeFor clientHandle c einfo

theorem keeps_pollLoop (subscribeHandle : SubscribeHandle) (bytes : Cell.Mem Field) (l : Lock)
    (z : Nat) : Keeps [] (pollLoop w subscribeHandle bytes l z) [] := by
  induction z with
  | zero => exact Keeps.pure _
  | succ z ih =>
    refine (keeps_checkProgress w).bind fun _ => Keeps.lock_bind List.not_mem_nil ?_
    refine Keeps.lift_bind fun s => ?_
    cases FTBCI.lookupClientInfo subscribeHandle.clientHandle s with
    | none => exact Keeps.undefined
    | some r =>
      cases r with
      | error ret => exact Keeps.undefined
      | ok c =>
        dsimp only
        cases pollQueue subscribeHandle.subscriptionEvent bytes c with
        | none => exact Keeps.undefined
        | some r =>
          cases r with
          | none => exact Keeps.unlock_bind ih
          | some r => exact Keeps.lift_bind fun _ => Keeps.unlock_bind (Keeps.pure _)

/-! ## The two that unlock once more -/

/-- Without callbacks the client stays locked over `FTBCI_util_finalize_component`. -/
theorem keeps_finalizeClient {c : ClientInfo} (handle : ClientHandle) (hc : c.notifies = false) :
    Keeps [] (finalizeClient w handle c) [] := by
  have hf : (utilFinalizeComponent c : Prog (Op Lock) (Lib N) Unit) = pure () := by
    simp [utilFinalizeComponent, hc]
  unfold finalizeClient
  rw [hf]
  refine Keeps.lock_bind List.not_mem_nil ((Keeps.pure _).bind fun _ => Keeps.unlock_bind ?_)
  refine Keeps.lock_bind List.not_mem_nil (Keeps.lift_bind fun _ => Keeps.unlock_bind ?_)
  exact (keeps_checkProgress w).bind fun _ => Keeps.pure _

/-- With callbacks `FTBCI_util_finalize_component` returns without the lock of its caller. -/
theorem breaks_finalizeClient {c : ClientInfo} (handle : ClientHandle) (hc : c.notifies = true) :
    Breaks [] (finalizeClient w handle c) := by
  have hf : Keeps [Lock.client c.clientHandle]
      (utilFinalizeComponent c : Prog (Op Lock) (Lib N) Unit) [] := by
    unfold utilFinalizeComponent
    rw [if_pos hc]
    exact Keeps.unlock_bind (Keeps.lock_bind List.not_mem_nil Keeps.unlock)
  refine (Keeps.lock List.not_mem_nil).bind_breaks fun _ => ?_
  exact hf.bind_breaks fun _ => Breaks.unlock_bind List.not_mem_nil

/-- The message that `FTBC_Disconnect` sends for a client. -/
def deregMsg (c : ClientInfo) (s : Lib N) : Msg :=
  { msgType := .clientDereg, src := c.id, dst := parentDst default s.manager, event := default }

/-- The client has callbacks, and its parent takes the message that it leaves. -/
def LeavesWithCallbacks (handle : ClientHandle) (s : Lib N) : Prop :=
  handle.valid = 1 ∧ ∃ c, FTBCI.lookupClientInfo handle s = some (.ok c) ∧ c.notifies = true ∧
    ∃ s', sendMsg w (deregMsg c s) s = some (.success, s')

theorem disconnect_balanced {handle : ClientHandle} {s s' : Lib N} {ret : Ret}
    {ops : List (Op Lock)} (h : disconnect w handle s = some (ret, s', ops)) :
    Balanced ops ↔ ¬LeavesWithCallbacks w handle s := by
  unfold disconnect at h
  by_cases hv : handle.valid = 1
  · rw [if_neg (not_not.2 hv)] at h
    obtain ⟨r, s₁, t, u, hl, h, rfl⟩ := Prog.bind_eq_some.1 h
    obtain ⟨hl, rfl, ht⟩ := lookupClientInfo_run hl
    rw [ht.append_iff]
    cases r with
    | error e =>
      have hcond : ¬LeavesWithCallbacks w handle s₁ := by
        intro ⟨_, c, hc, _⟩
        rw [hl] at hc
        cases hc
      cases h
      exact iff_of_true rfl hcond
    | ok c =>
      obtain ⟨_, _, hg, h⟩ := Prog.lift_bind_eq_some.1 h
      cases hg
      obtain ⟨sent, s₂, hs, h⟩ := Prog.lift_bind_eq_some.1 h
      have hcond : LeavesWithCallbacks w handle s₁ ↔ c.notifies = true ∧ sent = .success := by
        constructor
        · intro ⟨_, d, hd, hn, t, ht⟩
          rw [hl] at hd
          cases hd
          rw [show sendMsg w (deregMsg c s₁) s₁ = some (sent, s₂) from hs] at ht
          cases ht
          exact ⟨hn, rfl⟩
        · intro ⟨hn, hsent⟩
          subst hsent
          exact ⟨hv, c, hl, hn, s₂, hs⟩
      rw [hcond]
      by_cases hsent : sent = .success
      · rw [if_neg (not_not.2 hsent)] at h
        cases hn : c.notifies with
        | true =>
          have hbreak := (breaks_finalizeClient w handle hn).not_balanced h
          exact iff_of_false hbreak (by simp [hsent])
        | false => exact iff_of_true ((keeps_finalizeClient w handle hn).balanced h) (by simp)
      · rw [if_pos hsent] at h
        cases h
        exact iff_of_true rfl (by simp [hsent])
  · rw [if_pos hv] at h
    cases h
    exact iff_of_true rfl fun hcond => hv hcond.1

/-- The client of the handle has no queued event for the mask of the handle. -/
def NoEvent (subscribeHandle : SubscribeHandle) (s : Lib N) : Prop :=
  ∀ c, FTBCI.lookupClientInfo subscribeHandle.clientHandle s = some (.ok c) →
    0 < c.eventQueueSize → ∀ entry ∈ c.eventQueue,
      matchMask entry.eventInst subscribeHandle.subscriptionEvent = false

/-- The next `z` looks of `FTBC_Poll_event` at the queue, each after `FTBCI_Check_progress`, find
nothing. -/
def Misses (subscribeHandle : SubscribeHandle) : Nat → Lib N → Prop
  | 0, _ => True
  | z + 1, s => ∀ r, FTBCI.checkProgress w s = some r →
      NoEvent subscribeHandle r.2 ∧ Misses subscribeHandle z r.2

theorem pollQueue_none {mask : Event} {bytes : Cell.Mem Field} {c : ClientInfo}
    {r : Option (ReceiveEvent × ClientInfo)} (h : pollQueue mask bytes c = some r) :
    r = none ↔ (0 < c.eventQueueSize → ∀ entry ∈ c.eventQueue,
      matchMask entry.eventInst mask = false) := by
  unfold pollQueue at h
  by_cases hsize : 0 < c.eventQueueSize
  · rw [if_pos hsize] at h
    cases hf : c.eventQueue.find? fun entry => matchMask entry.eventInst mask with
    | none =>
      rw [hf] at h
      cases h
      simpa [hsize] using hf
    | some entry =>
      rw [hf] at h
      obtain ⟨e, -, h⟩ := Option.bind_eq_some_iff.1 h
      cases h
      have hm : matchMask entry.eventInst mask = true := by simpa using List.find?_some hf
      refine iff_of_false (by simp) fun hall => ?_
      rw [hall hsize entry (List.mem_of_find?_eq_some hf)] at hm
      cases hm
  · rw [if_neg hsize] at h
    cases h
    exact iff_of_true rfl fun h => absurd h hsize

theorem pollLoop_none {subscribeHandle : SubscribeHandle} {bytes : Cell.Mem Field} {z : Nat}
    {s s' : Lib N} {ret : Ret} {r : Option ReceiveEvent}
    (h : FTBC.pollLoop w subscribeHandle bytes z s = some (ret, r, s')) :
    r = none ↔ Misses w subscribeHandle z s := by
  induction z generalizing s with
  | zero =>
    cases h
    exact iff_of_true rfl trivial
  | succ z ih =>
    unfold FTBC.pollLoop at h
    obtain ⟨⟨ret', t⟩, hcheck, h⟩ := Option.bind_eq_some_iff.1 h
    have hmiss : Misses w subscribeHandle (z + 1) s ↔
        NoEvent subscribeHandle t ∧ Misses w subscribeHandle z t := by
      constructor
      · intro hm
        exact hm (ret', t) hcheck
      · intro hm q hq
        rw [hcheck] at hq
        cases hq
        exact hm
    rw [hmiss]
    dsimp only at h
    split at h
    · rename_i c hc
      obtain ⟨q, hq, h⟩ := Option.bind_eq_some_iff.1 h
      have hno : NoEvent subscribeHandle t ↔ q = none := by
        rw [pollQueue_none hq]
        constructor
        · intro hn
          exact hn c hc
        · intro hn d hd
          rw [hc] at hd
          cases hd
          exact hn
      rw [hno]
      cases q with
      | none => simpa using ih h
      | some q =>
        cases h
        simp
    · cases h

/-- The call gets to the loop, and both looks miss. -/
def PollsInVain (subscribeHandle : SubscribeHandle) (receiveEvent : Option (Cell.Mem Field))
    (s : Lib N) : Prop :=
  receiveEvent.isSome ∧ subscribeHandle.valid ≠ 0 ∧
    (∃ c, FTBCI.lookupClientInfo subscribeHandle.clientHandle s = some (.ok c) ∧ c.polls = true) ∧
    Misses w subscribeHandle 2 s

theorem pollEvent_balanced {subscribeHandle : SubscribeHandle}
    {receiveEvent : Option (Cell.Mem Field)} {s s' : Lib N} {ret : Ret × Option ReceiveEvent}
    {ops : List (Op Lock)}
    (h : pollEvent w subscribeHandle receiveEvent s = some (ret, s', ops)) :
    Balanced ops ↔ ¬PollsInVain w subscribeHandle receiveEvent s := by
  unfold pollEvent at h
  cases receiveEvent with
  | none =>
    cases h
    exact iff_of_true rfl fun hv => by simpa using hv.1
  | some bytes =>
    dsimp only at h
    by_cases hv : subscribeHandle.valid = 0
    · rw [if_pos (by simp [hv])] at h
      cases h
      exact iff_of_true rfl fun hp => hp.2.1 hv
    · rw [if_neg (by simp [hv])] at h
      obtain ⟨r, s₁, t, u, hl, h, rfl⟩ := Prog.bind_eq_some.1 h
      obtain ⟨hl, rfl, ht⟩ := lookupClientInfo_run hl
      rw [ht.append_iff]
      cases r with
      | error e =>
        have hcond : ¬PollsInVain w subscribeHandle (some bytes) s₁ := by
          intro ⟨_, _, ⟨c, hc, _⟩, _⟩
          rw [hl] at hc
          cases hc
        cases h
        exact iff_of_true rfl hcond
      | ok c =>
        have hcond : PollsInVain w subscribeHandle (some bytes) s₁ ↔
            c.polls = true ∧ Misses w subscribeHandle 2 s₁ := by
          constructor
          · intro ⟨_, _, ⟨d, hd, hp⟩, hm⟩
            rw [hl] at hd
            cases hd
            exact ⟨hp, hm⟩
          · intro ⟨hp, hm⟩
            exact ⟨rfl, hv, ⟨c, hl, hp⟩, hm⟩
        rw [hcond]
        dsimp only at h
        cases hp : c.polls with
        | false =>
          rw [if_pos (by simp [hp])] at h
          cases h
          exact iff_of_true rfl (by simp)
        | true =>
          rw [if_neg (by simp [hp])] at h
          obtain ⟨r, s₂, t, u, hloop, h, rfl⟩ := Prog.bind_eq_some.1 h
          rw [((keeps_pollLoop w subscribeHandle bytes _ 2).balanced hloop).append_iff]
          have he := Prog.erase_of_run hloop
          rw [erase_pollLoop] at he
          obtain ⟨⟨ret', q⟩, hq, hr⟩ := Option.map_eq_some_iff.1 he
          cases hr
          have hnone := pollLoop_none w hq
          cases hr : q.1 with
          | none =>
            rw [hr] at h hnone
            have hbreak := (Breaks.unlock_bind List.not_mem_nil).not_balanced h
            exact iff_of_false hbreak (by simpa using hnone)
          | some e =>
            rw [hr] at h hnone
            cases h
            exact iff_of_true rfl (by simpa using hnone)

/-! ## Any of the functions -/

/-- A call of one of the functions, with its arguments. -/
inductive Call
  | connect (cinfo : Client) (extension : UInt8) (clientHandle : Option ClientHandle)
  | declarePublishableEvents (clientHandle : ClientHandle) (schemaFile : Option CStr)
      (einfo : List EventInfo)
  | subscribeWithPolling (subscribeHandle : Option SubscribeHandle) (clientHandle : ClientHandle)
      (subscriptionStr : Option CStr)
  | subscribeWithCallback (subscribeHandle : Option SubscribeHandle) (clientHandle : ClientHandle)
      (subscriptionStr : Option CStr) (callback arg : Nat)
  | publish (ftbTag : Bool) (clientHandle : ClientHandle) (eventName : CStr)
      (eventProperties : Option EventProperties) (eventHandle : Option EventHandle)
  | pollEvent (subscribeHandle : SubscribeHandle) (receiveEvent : Option (Cell.Mem Field))
  | unsubscribe (subscribeHandle : SubscribeHandle)
  | disconnect (clientHandle : ClientHandle)
  | utilHandleFTBMMsg (msg : Msg)

/-- The operations of a call on the locks. -/
def Call.ops : Call → Lib N → Option (List (Op Lock))
  | .connect cinfo extension handle, s => (Locked.connect w cinfo extension handle s).map (·.2.2)
  | .declarePublishableEvents handle schemaFile einfo, s =>
    (Locked.declarePublishableEvents w handle schemaFile einfo s).map (·.2.2)
  | .subscribeWithPolling subscribeHandle handle str, s =>
    (Locked.subscribeWithPolling w subscribeHandle handle str s).map (·.2.2)
  | .subscribeWithCallback subscribeHandle handle str callback arg, s =>
    (Locked.subscribeWithCallback w subscribeHandle handle str callback arg s).map (·.2.2)
  | .publish ftbTag handle eventName properties eventHandle, s =>
    (Locked.publish w ftbTag handle eventName properties eventHandle s).map (·.2.2)
  | .pollEvent subscribeHandle receiveEvent, s =>
    (Locked.pollEvent w subscribeHandle receiveEvent s).map (·.2.2)
  | .unsubscribe subscribeHandle, s => (Locked.unsubscribe w subscribeHandle s).map (·.2.2)
  | .disconnect handle, s => (Locked.disconnect w handle s).map (·.2.2)
  | .utilHandleFTBMMsg msg, s => (FTBCI.Locked.utilHandleFTBMMsg msg s).map (·.2.2)

/-- The two paths that unlock a client once more than they lock it. -/
def Call.UnlocksOnceMore : Call → Lib N → Prop
  | .pollEvent subscribeHandle receiveEvent, s => PollsInVain w subscribeHandle receiveEvent s
  | .disconnect handle, s => LeavesWithCallbacks w handle s
  | _, _ => False

/-- A program that keeps the locks has no other path. -/
private theorem balanced_of_keeps {α : Type} {p : Prog (Op Lock) (Lib N) α} (hp : Keeps [] p [])
    {s : Lib N} {ops : List (Op Lock)} (h : (p s).map (·.2.2) = some ops) :
    Balanced ops ↔ ¬False := by
  obtain ⟨r, hr, rfl⟩ := Option.map_eq_some_iff.1 h
  exact iff_of_true (hp.balanced hr) id

/-- In a run with a result the locks are balanced, except on the two paths. -/
theorem lock_discipline (call : Call) (s : Lib N) {ops : List (Op Lock)}
    (h : call.ops w s = some ops) : Balanced ops ↔ ¬call.UnlocksOnceMore w s := by
  cases call with
  | connect cinfo extension handle =>
    exact balanced_of_keeps (keeps_connect w cinfo extension handle) h
  | declarePublishableEvents handle schemaFile einfo =>
    exact balanced_of_keeps (keeps_declarePublishableEvents w handle schemaFile einfo) h
  | subscribeWithPolling subscribeHandle handle str =>
    exact balanced_of_keeps (keeps_subscribeWith w _ _ subscribeHandle handle str) h
  | subscribeWithCallback subscribeHandle handle str callback arg =>
    exact balanced_of_keeps (keeps_subscribeWith w _ _ subscribeHandle handle str) h
  | publish ftbTag handle eventName properties eventHandle =>
    exact balanced_of_keeps (keeps_publish w ftbTag handle eventName properties eventHandle) h
  | pollEvent subscribeHandle receiveEvent =>
    obtain ⟨r, hr, rfl⟩ := Option.map_eq_some_iff.1 h
    exact pollEvent_balanced w hr
  | unsubscribe subscribeHandle =>
    exact balanced_of_keeps (keeps_unsubscribe w subscribeHandle) h
  | disconnect handle =>
    obtain ⟨r, hr, rfl⟩ := Option.map_eq_some_iff.1 h
    exact disconnect_balanced w hr
  | utilHandleFTBMMsg msg => exact balanced_of_keeps (keeps_utilHandleFTBMMsg msg) h

/-- A layer in which every send succeeds and no message comes. -/
private def idleNet : LeafNetwork (List Msg) := leafOutbox { (default : LocationId) with pid := 1 }

/-- A client that just connected, with the given style of subscription. -/
private def idleClient (style : String) : Option (Lib (List Msg)) :=
  (ApiCall.connect
    { eventSpace := "FTB.FTB_EXAMPLES.WATCHDOG".toList, clientName := "watchdog".toList
      clientJobid := [], clientSubscriptionStyle := style.toList, clientPollingQueueLen := 0 }
    0 (some default)).run idleNet (Lib.initial [])

private def idleHandle : ClientHandle :=
  ⟨1, ⟨"FTB".toList, "FTB_EXAMPLES".toList, "WATCHDOG".toList, "watchdog".toList, 0⟩⟩

private theorem unbalanced_of_run {style : String} {call : Call}
    (h : ((idleClient style).bind fun s => (call.ops idleNet s).map fun ops =>
      decide (Balanced ops)) = some false) :
    ∃ s ops, idleClient style = some s ∧ call.ops idleNet s = some ops ∧ ¬Balanced ops := by
  obtain ⟨s, hs, h⟩ := Option.bind_eq_some_iff.1 h
  obtain ⟨ops, hops, h⟩ := Option.map_eq_some_iff.1 h
  exact ⟨s, ops, hs, hops, of_decide_eq_false h⟩

/-- A poll with an empty queue, and the end of a client with callbacks. -/
theorem lock_discipline_broken :
    (∃ s ops, idleClient "FTB_SUBSCRIPTION_POLLING" = some s ∧
      (Call.pollEvent ⟨idleHandle, default, 1, 1⟩ (some Cell.blank)).ops idleNet s = some ops ∧
      ¬Balanced ops) ∧
    ∃ s ops, idleClient "FTB_SUBSCRIPTION_NOTIFY" = some s ∧
      (Call.disconnect idleHandle).ops idleNet s = some ops ∧ ¬Balanced ops :=
  ⟨unbalanced_of_run (by decide +kernel), unbalanced_of_run (by decide +kernel)⟩

theorem lock_discipline_idle : ∃ s ops, idleClient "FTB_SUBSCRIPTION_POLLING" = some s ∧
    (Call.pollEvent ⟨idleHandle, default, 1, 1⟩ (some Cell.blank)).ops idleNet s = some ops ∧
    (Balanced ops ↔ ¬Call.UnlocksOnceMore idleNet
      (.pollEvent ⟨idleHandle, default, 1, 1⟩ (some Cell.blank)) s) := by
  obtain ⟨s, ops, hs, hops, -⟩ := @unbalanced_of_run "FTB_SUBSCRIPTION_POLLING"
    (.pollEvent ⟨idleHandle, default, 1, 1⟩ (some Cell.blank)) (by decide +kernel)
  exact ⟨s, ops, hs, hops, lock_discipline idleNet _ s hops⟩

end FTBC.Locked
