import Ftb.Client.Frame
import Ftb.Lib.Trace

/-!
# The counters of the client library

`FTBC_Connect` and `FTBC_Disconnect` keep two counters and a map of the clients. Runs of the two
functions with any arguments, any network layer and turns of the callback thread in between
(`Reached`): the counters and the map fit the calls that returned `FTB_SUCCESS` (`Bookkeeping`)
exactly as long as no `FTBC_Connect` took an error exit behind its first locked section
(`LateExit`).
-/

open FTB FTBU FTBN FTBMI FTBCI Trace

namespace FTBC

variable {N : Type}

/-! ## Runs -/

inductive Call
  | connect (cinfo : Client) (extension : UInt8) (clientHandle : Option ClientHandle)
  | disconnect (clientHandle : ClientHandle)
  deriving DecidableEq

/-- A call, with what it leaves in the handle it was given. -/
def Call.run (w : LeafNetwork N) : Call → Lib N → Option (Ret × Option ClientHandle × Lib N)
  | .connect cinfo extension clientHandle, s => FTBC.connect w cinfo extension clientHandle s
  | .disconnect clientHandle, s => do
    let (ret, s) ← FTBC.disconnect w clientHandle s
    pure (ret, some clientHandle, s)

/-- A call that returned, and the state it began in. -/
structure Done (N : Type) where
  before : Lib N
  call : Call
  ret : Ret
  handle : Option ClientHandle

/-- An `FTBC_Connect` that returned `FTB_SUCCESS` and the handle. -/
def Done.connects (h : ClientHandle) (d : Done N) : Prop :=
  ∃ cinfo extension clientHandle, d.call = .connect cinfo extension clientHandle ∧
    d.ret = .success ∧ d.handle = some h

/-- An `FTBC_Disconnect` of the client that returned `FTB_SUCCESS`. -/
def Done.disconnects (h : ClientHandle) (d : Done N) : Prop :=
  ∃ clientHandle, d.call = .disconnect clientHandle ∧ d.ret = .success ∧
    isEqualClienthandle h clientHandle = true

/-- The client was connected and was not disconnected since. -/
def Connected (hist : List (Done N)) (h : ClientHandle) : Prop :=
  Since (fun _ d => d.connects h) (fun d => d.disconnects h) hist

/-- The states that calls, oldest first, and turns of the callback thread lead to. -/
inductive Reached (w : LeafNetwork N) : List (Done N) → Lib N → Prop
  | initial (net : N) : Reached w [] (Lib.initial net)
  | call {hist : List (Done N)} {s s' : Lib N} (net : N) (call : Call) {ret : Ret}
      {handle : Option ClientHandle} : Reached w hist s →
      call.run w (s.withNet net) = some (ret, handle, s') →
      Reached w (hist ++ [⟨s.withNet net, call, ret, handle⟩]) s'
  | thread {hist : List (Done N)} {s s' : Lib N} (net : N) {ret : Option Ret} : Reached w hist s →
      callbackThreadClient w (s.withNet net) = some (ret, s') → Reached w hist s'

/-- The counters and the map fit the calls that succeeded. -/
structure Bookkeeping (hist : List (Done N)) (s : Lib N) : Prop where
  numComponents : s.numComponents = s.clients.length
  enableCallback : s.enableCallback = s.clients.countP ClientInfo.notifies
  connected : ∀ h, (∃ c ∈ s.clients, c.clientHandle = h) ↔ Connected hist h

/-! ## The error exits behind the first locked section -/

/-- The id `FTBC_Connect` gives its client. -/
def connectId (w : LeafNetwork N) (s : Lib N) (cinfo : Client) (extension : UInt8)
    (region compCat comp : CStr) : Id where
  locationId := FTBM.getLocationId default (addComponent w s).manager.info
  clientId := { region, compCat, comp, clientName := cinfo.clientName, ext := extension }

/-- The message `FTBC_Connect` registers its client with. -/
def connectMsg (w : LeafNetwork N) (s : Lib N) (id : Id) : Msg where
  msgType := .clientReg
  src := id
  dst := parentDst default (addComponent w s).manager
  event := default

/-- The call is an `FTBC_Connect` whose style and event space are in order, and it is given too long a
name or job id, or the handle of a client in the map, or its `FTBM_Send` fails. -/
def LateExit (w : LeafNetwork N) (s : Lib N) : Call → Prop
  | .disconnect _ => False
  | .connect cinfo extension clientHandle =>
    clientHandle.isSome = true ∧ (subscriptionStyle cinfo).isSome = true ∧
      ∃ region compCat comp, splitNamespace cinfo.eventSpace = some (.ok (region, compCat, comp)) ∧
        (cinfo.clientName.length ≥ maxClientName ∨ cinfo.clientJobid.length ≥ maxClientJobid ∨
          let id := connectId w s cinfo extension region compCat comp
          (∃ c ∈ (addComponent w s).clients,
            isEqualClienthandle c.clientHandle (convertClientidToClienthandle id.clientId) = true) ∨
          ∃ ret s', sendMsg w (connectMsg w s id) (addComponent w s) = some (ret, s') ∧
            ret ≠ .success)

/-! ## What a call does -/

section
variable {w : LeafNetwork N} {s s' : Lib N}

theorem sendMsg_manager {msg : Msg} {t : Lib N} (hm : t.manager = s.manager) :
    (sendMsg w msg t).map Prod.fst = (sendMsg w msg s).map Prod.fst := by
  simp only [sendMsg, hm]
  cases FTBM.send w.toNetwork msg s.manager <;> rfl

theorem addComponent_num (s : Lib N) :
    (addComponent w s).numComponents = s.numComponents + 1 := by
  unfold addComponent
  split <;> rfl

theorem addComponent_enable (s : Lib N) :
    (addComponent w s).enableCallback = s.enableCallback := by
  unfold addComponent
  split <;> rfl

/-- Only the first client changes the map: it makes an empty one. -/
theorem addComponent_clients (s : Lib N) :
    (addComponent w s).clients = if s.numComponents = 0 then [] else s.clients := by
  unfold addComponent
  by_cases h : s.numComponents = 0 <;> simp [h, Lib.clients]

theorem startCallback_map (s : Lib N) : (startCallback s).clientInfoMap = s.clientInfoMap := by
  unfold startCallback
  split <;> rfl

theorem startCallback_manager (s : Lib N) : (startCallback s).manager = s.manager := by
  unfold startCallback
  split <;> rfl

theorem startCallback_num (s : Lib N) : (startCallback s).numComponents = s.numComponents := by
  unfold startCallback
  split <;> rfl

theorem startCallback_enable (s : Lib N) :
    (startCallback s).enableCallback = s.enableCallback + 1 := by
  unfold startCallback
  split <;> rfl

theorem removeClient_num (handle : ClientHandle) (c : ClientInfo) (s : Lib N) :
    (removeClient w handle c s).numComponents = s.numComponents - 1 := by
  unfold removeClient
  grind

theorem removeClient_enable (handle : ClientHandle) (c : ClientInfo) (s : Lib N) :
    (removeClient w handle c s).enableCallback =
      s.enableCallback - (if c.notifies = true then 1 else 0) := by
  unfold removeClient
  grind

theorem removeClient_clients {handle : ClientHandle} {c : ClientInfo} {s : Lib N}
    {map : ClientInfoMap} (h : s.clientInfoMap = some map) :
    (removeClient w handle c s).clients =
      if s.numComponents = 1 then [] else (map.erase handle).nodes := by
  have hone : (s.numComponents - 1 == 0) = decide (s.numComponents = 1) := by grind
  unfold removeClient
  by_cases hn : s.numComponents = 1 <;> by_cases hc : c.notifies = true <;>
    by_cases he : (s.enableCallback - 1 == 0) = true <;> simp [Lib.clients, h, hn, hc, he, hone]

/-- What is left of a client whose registration failed. -/
def release (c : ClientInfo) : ClientInfo := { c with freed := true }

/-- The ends of `FTBC_Connect`: it did nothing; it returned an error behind the first locked
section, before the insertion or after it; it returned `FTB_SUCCESS`. -/
inductive ConnectEnd (w : LeafNetwork N) (s : Lib N) (call : Call) :
    Ret → Option ClientHandle → Lib N → Prop
  | refused {ret : Ret} {handle : Option ClientHandle} : ret ≠ .success → ¬LateExit w s call →
      ConnectEnd w s call ret handle s
  | counted {ret : Ret} {handle : Option ClientHandle} {s' : Lib N} : ret ≠ .success →
      LateExit w s call → s'.numComponents = s.numComponents + 1 →
      s'.clients = (addComponent w s).clients → ConnectEnd w s call ret handle s'
  | released {ret : Ret} {handle : Option ClientHandle} {s' : Lib N} (c : ClientInfo) :
      ret ≠ .success → LateExit w s call → s'.numComponents = s.numComponents + 1 →
      s'.clients = (addComponent w s).clients ++ [release c] → ConnectEnd w s call ret handle s'
  | connected {s' : Lib N} (c : ClientInfo) : ¬LateExit w s call → c.freed = false →
      s'.numComponents = s.numComponents + 1 →
      s'.enableCallback = s.enableCallback + (if c.notifies = true then 1 else 0) →
      s'.clients.map ClientInfo.core = ((addComponent w s).clients ++ [c]).map ClientInfo.core →
      ConnectEnd w s call .success (some c.clientHandle) s'

theorem findClient_none {map : ClientInfoMap} {h : ClientHandle}
    (hf : findClient map h = some none) :
    ∀ c ∈ map.nodes, c.freed = false ∧ isEqualClienthandle c.clientHandle h = false := by
  simp only [findClient] at hf
  split at hf
  · rename_i hn
    intro c hc
    simpa using List.find?_eq_none.1 hn c hc
  · split at hf <;> cases hf

theorem findClient_some {map : ClientInfoMap} {h : ClientHandle} {c : ClientInfo}
    (hf : findClient map h = some (some c)) :
    c ∈ map.nodes ∧ c.freed = false ∧ isEqualClienthandle c.clientHandle h = true := by
  simp only [findClient] at hf
  split at hf
  · cases hf
  · rename_i x hx
    split at hf
    · cases hf
    · rename_i hfreed
      cases hf
      have hp := List.find?_some hx
      simp only [Bool.not_eq_true] at hfreed
      rw [hfreed, Bool.false_or] at hp
      exact ⟨List.mem_of_find?_eq_some hx, hfreed, hp⟩

theorem nodes_released {map : ClientInfoMap} {c : ClientInfo}
    (hf : findClient map c.clientHandle = some none) :
    ((map.insert c).adjust c.clientHandle (fun x => { release x with clientHandle := x.clientHandle })
      fun _ => rfl).nodes = map.nodes ++ [release c] := by
  have hnone := findClient_none hf
  have hnew : map.contains c.clientHandle = false := by
    simp only [KeyList.contains, List.any_eq_false, Bool.not_eq_true]
    exact fun x hx => (hnone x hx).2
  rw [KeyList.adjust]
  simp only [KeyList.nodes_insert hnew, List.map_append, List.map_cons, List.map_nil]
  have hkeep : ∀ x ∈ map.nodes, (if isEqualClienthandle x.clientHandle c.clientHandle = true then
      { release x with clientHandle := x.clientHandle } else x) = x := fun x hx => by
    rw [(hnone x hx).2]
    rfl
  rw [List.map_congr_left hkeep, List.map_id', if_pos (KeyEq.refl c.clientHandle)]
  rfl

/-- The end of `FTBC_Connect` behind its checks, in the state `t` that it has by then. -/
theorem registerClient_end {call : Call} {c : ClientInfo} {t : Lib N} {ret : Ret}
    (h : registerClient w c t = some (ret, s'))
    (hclients : t.clientInfoMap = (addComponent w s).clientInfoMap)
    (hman : t.manager = (addComponent w s).manager)
    (hnum : t.numComponents = s.numComponents + 1)
    (hen : t.enableCallback = s.enableCallback + (if c.notifies = true then 1 else 0))
    (hfreed : c.freed = false)
    (hlate : LateExit w s call ↔
      (∃ x ∈ (addComponent w s).clients, isEqualClienthandle x.clientHandle c.clientHandle = true) ∨
        ∃ ret s', sendMsg w (connectMsg w s c.id) (addComponent w s) = some (ret, s') ∧
          ret ≠ .success) :
    ConnectEnd w s call ret (some c.clientHandle) s' := by
  simp only [registerClient] at h
  split at h
  · cases h
  · rename_i map hmap
    have hnodes : (addComponent w s).clients = map.nodes := by
      simp [Lib.clients, ← hclients, hmap]
    split at h
    · cases h
    · rename_i x hx
      cases h
      obtain ⟨hmem, -, heq⟩ := findClient_some hx
      refine .counted (by decide) (hlate.2 (.inl ⟨x, hnodes ▸ hmem, heq⟩)) hnum ?_
      simp [Lib.clients, hclients]
    · rename_i hnone
      simp only [Option.bind_eq_bind, Option.bind_eq_some_iff] at h
      obtain ⟨⟨r, u⟩, hsend, h⟩ := h
      have hprog := (sent_sendMsg hsend).progress
      have hfst : (sendMsg w (connectMsg w s c.id) (addComponent w s)).map Prod.fst = some r := by
        rw [← sendMsg_manager (t := { t with clientInfoMap := some (map.insert c) }) hman]
        have hsend' := congrArg (Option.map Prod.fst) hsend
        simp only [connectMsg, ← hman]
        exact hsend'
      obtain ⟨⟨r', v⟩, hv, hr⟩ := Option.map_eq_some_iff.1 hfst
      cases hr
      have hnew : map.contains c.clientHandle = false := by
        simp only [KeyList.contains, List.any_eq_false, Bool.not_eq_true]
        exact fun x hx => (findClient_none hnone x hx).2
      dsimp only at h
      split at h
      · rename_i hret
        cases h
        refine .released c hret (hlate.2 (.inr ⟨_, v, hv, hret⟩)) ?_ ?_
        · show u.numComponents = _
          rw [hprog.numComponents]
          exact hnum
        · have hmap' : u.clientInfoMap = some (map.insert c) := (sent_sendMsg hsend).clientInfoMap
          rw [hnodes]
          simp only [Lib.clients, Lib.update, hmap', Option.map_some, Option.getD_some]
          exact nodes_released hnone
      · rename_i hret
        rw [not_not] at hret
        simp only [Option.bind_eq_some_iff, Option.pure_def, Option.some.injEq,
          Prod.mk.injEq] at h
        obtain ⟨⟨r₂, t₂⟩, hcheck, rfl, rfl⟩ := h
        have hall := hprog.trans (progress_checkProgress hcheck)
        refine .connected c ?_ hfreed ?_ ?_ ?_
        · rw [hlate]
          rintro (⟨x, hx, heq⟩ | ⟨r₃, s₃, hs₃, hne⟩)
          · rw [(findClient_none hnone x (hnodes ▸ hx)).2] at heq
            cases heq
          · rw [hv] at hs₃
            cases hs₃
            exact hne hret
        · rw [hall.numComponents]
          exact hnum
        · rw [hall.enableCallback]
          exact hen
        · rw [hall.cores, hnodes, ← KeyList.nodes_insert hnew]
          rfl

theorem connect_end {cinfo : Client} {extension : UInt8} {clientHandle handle : Option ClientHandle}
    {ret : Ret} (h : connect w cinfo extension clientHandle s = some (ret, handle, s')) :
    ConnectEnd w s (.connect cinfo extension clientHandle) ret handle s' := by
  simp only [connect] at h
  split at h
  · cases h
    exact .refused (by decide) fun hl => Bool.noConfusion hl.1
  · rename_i old
    split at h
    · rename_i hstyle
      cases h
      refine .refused (by decide) fun ⟨_, hl, _⟩ => ?_
      rw [hstyle] at hl
      cases hl
    · rename_i subscriptionType maxPollingQueueLen hstyle
      split at h
      · cases h
      · rename_i r hsplit
        cases h
        refine .refused ?_ fun ⟨_, _, region, compCat, comp, hok, _⟩ => ?_
        · rw [splitNamespace_error hsplit]
          decide
        · rw [hsplit] at hok
          cases hok
      · rename_i region compCat comp hsplit
        have hlate : LateExit w s (.connect cinfo extension (some old)) ↔
            cinfo.clientName.length ≥ maxClientName ∨ cinfo.clientJobid.length ≥ maxClientJobid ∨
            (∃ x ∈ (addComponent w s).clients, isEqualClienthandle x.clientHandle
              (convertClientidToClienthandle
                (connectId w s cinfo extension region compCat comp).clientId) = true) ∨
            ∃ ret s', sendMsg w (connectMsg w s (connectId w s cinfo extension region compCat comp))
              (addComponent w s) = some (ret, s') ∧ ret ≠ .success := by
          simp only [LateExit, hstyle, hsplit, Option.isSome_some, true_and, Option.some.injEq,
            Except.ok.injEq, Prod.mk.injEq]
          constructor
          · rintro ⟨_, _, _, ⟨rfl, rfl, rfl⟩, hl⟩
            exact hl
          · exact fun hl => ⟨_, _, _, ⟨rfl, rfl, rfl⟩, hl⟩
        split at h
        · rename_i hname
          cases h
          exact .counted (by decide) (hlate.2 (.inl hname)) (addComponent_num s) rfl
        · rename_i hname
          split at h
          · rename_i hjobid
            cases h
            exact .counted (by decide) (hlate.2 (.inr (.inl hjobid))) (addComponent_num s) rfl
          · rename_i hjobid
            simp only [Option.bind_eq_bind, Option.bind_eq_some_iff, Option.pure_def,
              Option.some.injEq, Prod.mk.injEq] at h
            obtain ⟨⟨r, t⟩, hreg, rfl, rfl, rfl⟩ := h
            rw [or_iff_right hname, or_iff_right hjobid] at hlate
            refine registerClient_end hreg ?_ ?_ ?_ ?_ rfl hlate
            · split
              · exact startCallback_map _
              · rfl
            · split
              · exact startCallback_manager _
              · rfl
            · split
              · exact (startCallback_num _).trans (addComponent_num s)
              · exact addComponent_num s
            · split
              · exact (startCallback_enable _).trans (congrArg (· + 1) (addComponent_enable s))
              · exact (addComponent_enable s).trans (Int.add_zero _).symm

/-- `FTBC_Disconnect` fails and changes no client, or takes its client out. -/
theorem disconnect_end {clientHandle : ClientHandle} {ret : Ret}
    (h : disconnect w clientHandle s = some (ret, s')) :
    (ret ≠ .success ∧ Progress s s') ∨
      ∃ map c, s.clientInfoMap = some map ∧ findClient map clientHandle = some (some c) ∧
        ret = .success ∧ s'.numComponents = s.numComponents - 1 ∧
        s'.enableCallback = s.enableCallback - (if c.notifies = true then 1 else 0) ∧
        s'.clients.map ClientInfo.core =
          (if s.numComponents = 1 then [] else (map.erase clientHandle).nodes).map
            ClientInfo.core := by
  simp only [disconnect] at h
  split at h
  · cases h
    exact .inl ⟨by decide, .refl s⟩
  · simp only [lookupClientInfo] at h
    cases hmap : s.clientInfoMap with
    | none =>
      simp only [hmap] at h
      cases h
      exact .inl ⟨by decide, .refl s⟩
    | some map =>
      simp only [hmap] at h
      cases hf : findClient map clientHandle with
      | none => simp [hf] at h
      | some found =>
        cases found with
        | none =>
          simp only [hf] at h
          cases h
          exact .inl ⟨by decide, .refl s⟩
        | some c =>
          simp only [hf, Option.bind_eq_bind, Option.bind_eq_some_iff] at h
          obtain ⟨⟨r, u⟩, hsend, h⟩ := h
          have hprog := (sent_sendMsg hsend).progress
          dsimp only at h
          split at h
          · rename_i hret
            cases h
            exact .inl ⟨hret, hprog⟩
          · simp only [Option.bind_eq_some_iff, Option.pure_def, Option.some.injEq,
              Prod.mk.injEq] at h
            obtain ⟨⟨r₂, t⟩, hcheck, rfl, rfl⟩ := h
            have hcheck := progress_checkProgress hcheck
            have hum : u.clientInfoMap = some map := ((sent_sendMsg hsend).clientInfoMap).trans hmap
            refine .inr ⟨map, c, rfl, hf, rfl, ?_, ?_, ?_⟩
            · rw [hcheck.numComponents, removeClient_num, hprog.numComponents]
            · rw [hcheck.enableCallback, removeClient_enable, hprog.enableCallback]
            · rw [hcheck.cores, removeClient_clients hum, hprog.numComponents]

end

/-! ## The invariant of all runs -/

/-- What holds after every run, whatever failed in it. -/
structure Inv (w : LeafNetwork N) (hist : List (Done N)) (s : Lib N) : Prop where
  length : (s.clients.length : Int) ≤ s.numComponents
  connected : ∀ h, (∃ c ∈ s.clients, c.freed = false ∧ c.clientHandle = h) ↔ Connected hist h
  late : (∃ d ∈ hist, LateExit w d.before d.call) →
    (s.clients.length : Int) < s.numComponents ∨ ∃ c ∈ s.clients, c.freed = true
  clean : (∀ d ∈ hist, ¬LateExit w d.before d.call) → s.numComponents = s.clients.length ∧
    s.enableCallback = s.clients.countP ClientInfo.notifies ∧ ∀ c ∈ s.clients, c.freed = false

namespace Inv

variable {w : LeafNetwork N} {hist : List (Done N)} {s s' : Lib N}

theorem initial (net : N) : Inv w [] (Lib.initial net) where
  length := by simp [Lib.initial, Lib.clients]
  connected h := by simp [Lib.initial, Lib.clients, Connected]
  late h := by simp at h
  clean _ := by simp [Lib.initial, Lib.clients]

theorem progress (hi : Inv w hist s) (h : Progress s s') : Inv w hist s' where
  length := by rw [h.length, h.numComponents]; exact hi.length
  connected k := by
    rw [h.exists_iff (P := fun c => c.freed = false ∧ c.clientHandle = k) fun _ => Iff.rfl]
    exact hi.connected k
  late hd := by
    rw [h.length, h.numComponents,
      h.exists_iff (P := fun c => c.freed = true) fun _ => Iff.rfl]
    exact hi.late hd
  clean hd := by
    obtain ⟨hn, he, hf⟩ := hi.clean hd
    refine ⟨by rw [h.length, h.numComponents, hn], ?_, fun c hc => ?_⟩
    · rw [h.enableCallback, he, h.countP fun _ => rfl]
    · by_contra hfreed
      obtain ⟨x, hx, hxf⟩ := (h.exists_iff (P := fun c => c.freed = true) fun _ => Iff.rfl).1
        ⟨c, hc, by simpa using hfreed⟩
      rw [hf x hx] at hxf
      cases hxf

/-- A first client finds no entries. -/
theorem addComponent (hi : Inv w hist s) : (addComponent w s).clients = s.clients := by
  rw [addComponent_clients]
  split
  · rename_i hn
    have hl := hi.length
    exact (List.length_eq_zero_iff.1 (by omega)).symm
  · rfl

theorem connected_concat (hist : List (Done N)) (d : Done N) (h : ClientHandle) :
    Connected (hist ++ [d]) h ↔ d.connects h ∨ (Connected hist h ∧ ¬d.disconnects h) :=
  since_concat hist d

theorem exists_late_concat {hist : List (Done N)} {d : Done N} :
    (∃ x ∈ hist ++ [d], LateExit w x.before x.call) ↔
      (∃ x ∈ hist, LateExit w x.before x.call) ∨ LateExit w d.before d.call := by
  simp [or_and_right, exists_or]

theorem forall_not_late_concat {hist : List (Done N)} {d : Done N} :
    (∀ x ∈ hist ++ [d], ¬LateExit w x.before x.call) ↔
      (∀ x ∈ hist, ¬LateExit w x.before x.call) ∧ ¬LateExit w d.before d.call := by
  simp [or_imp, forall_and]

/-- After a call that connects or disconnects nobody, the same clients are connected. -/
theorem connected_failed {d : Done N} (hr : d.ret ≠ .success) (h : ClientHandle) :
    Connected (hist ++ [d]) h ↔ Connected hist h := by
  have hc : ¬d.connects h := fun ⟨_, _, _, _, hs, _⟩ => hr hs
  have hd : ¬d.disconnects h := fun ⟨_, _, hs, _⟩ => hr hs
  rw [connected_concat]
  simp [hc, hd]

theorem failed {d : Done N} (hi : Inv w hist s) (hr : d.ret ≠ .success)
    (hl : ¬LateExit w d.before d.call) : Inv w (hist ++ [d]) s where
  length := hi.length
  connected h := (hi.connected h).trans (connected_failed hr h).symm
  late hd := hi.late ((exists_late_concat.1 hd).resolve_right hl)
  clean hd := hi.clean (forall_not_late_concat.1 hd).1

theorem connect {cinfo : Client} {extension : UInt8} {clientHandle handle : Option ClientHandle}
    {ret : Ret} (hi : Inv w hist s)
    (he : ConnectEnd w s (.connect cinfo extension clientHandle) ret handle s') :
    Inv w (hist ++ [⟨s, .connect cinfo extension clientHandle, ret, handle⟩]) s' := by
  have hl := hi.length
  cases he with
  | refused hr hlate => exact hi.failed hr hlate
  | counted hr hlate hn hc =>
    rw [hi.addComponent] at hc
    refine ⟨by rw [hc, hn]; omega, fun h => ?_, fun _ => .inl (by rw [hc, hn]; omega),
      fun hd => absurd hlate (forall_not_late_concat.1 hd).2⟩
    rw [hc, connected_failed hr]
    exact hi.connected h
  | released c hr hlate hn hc =>
    rw [hi.addComponent] at hc
    have hlen : (s'.clients.length : Int) = s.clients.length + 1 := by simp [hc]
    refine ⟨by rw [hlen, hn]; omega, fun h => ?_, fun _ => .inr ⟨release c, by simp [hc], rfl⟩,
      fun hd => absurd hlate (forall_not_late_concat.1 hd).2⟩
    rw [hc, connected_failed hr, ← hi.connected h]
    simp only [List.mem_append, List.mem_singleton, or_and_right, exists_or, exists_eq_left]
    simp [release]
  | connected c hlate hfreed hn he hc =>
    rw [hi.addComponent] at hc
    have hcount : s'.clients.countP ClientInfo.notifies =
        s.clients.countP ClientInfo.notifies + (if c.notifies = true then 1 else 0) := by
      rw [countP_of_cores hc fun _ => rfl, List.countP_append, List.countP_singleton]
    have hlen : s'.clients.length = s.clients.length + 1 := by
      rw [length_of_cores hc, List.length_append, List.length_singleton]
    have hmem : ∀ P : ClientInfo → Prop, (∀ x, P x.core ↔ P x) →
        ((∃ x ∈ s'.clients, P x) ↔ (∃ x ∈ s.clients, P x) ∨ P c) := by
      intro P hP
      rw [exists_of_cores hc hP]
      simp [or_and_right, exists_or]
    refine ⟨by rw [hlen, hn]; omega, fun h => ?_, fun hd => ?_, fun hd => ?_⟩
    · rw [hmem _ fun _ => Iff.rfl, hi.connected h, connected_concat]
      have hconn : Done.connects h (⟨s, .connect cinfo extension clientHandle, .success,
          some c.clientHandle⟩ : Done N) ↔ c.clientHandle = h := by
        simp [Done.connects]
      have hdis : ¬Done.disconnects h (⟨s, .connect cinfo extension clientHandle, .success,
          some c.clientHandle⟩ : Done N) := fun ⟨_, hcall, _⟩ => by cases hcall
      rw [hconn, or_comm]
      simp [hdis, hfreed]
    · rcases hi.late ((exists_late_concat.1 hd).resolve_right hlate) with hlt | hex
      · left
        omega
      · exact .inr ((hmem (fun x => x.freed = true) fun _ => Iff.rfl).2 (.inl hex))
    · obtain ⟨hnum, hen, hall⟩ := hi.clean (forall_not_late_concat.1 hd).1
      refine ⟨by omega, ?_, fun x hx => ?_⟩
      · rw [he, hen, hcount]
        push_cast
        split <;> rfl
      · have hno := (hmem (fun x => x.freed = true) fun _ => Iff.rfl).1.mt (by
          rintro (⟨y, hy, hf⟩ | hf)
          · rw [hall y hy] at hf
            cases hf
          · rw [hfreed] at hf
            cases hf)
        exact Bool.eq_false_iff.2 fun hf => hno ⟨x, hx, hf⟩

theorem disconnect {clientHandle : ClientHandle} {ret : Ret} (hi : Inv w hist s)
    (h : FTBC.disconnect w clientHandle s = some (ret, s')) :
    Inv w (hist ++ [⟨s, .disconnect clientHandle, ret, some clientHandle⟩]) s' := by
  rcases disconnect_end h with ⟨hr, hprog⟩ | ⟨map, c, hmap, hf, rfl, hn, he, hc⟩
  · exact (hi.progress hprog).failed hr fun hl => hl
  · obtain ⟨hmem, hfreed, heq⟩ := findClient_some hf
    have hnodes : s.clients = map.nodes := by simp [Lib.clients, hmap]
    have hlen := KeyList.length_erase (List.any_eq_true.2 ⟨c, hmem, heq⟩ : map.contains _ = true)
    have hpos := List.length_pos_of_mem hmem
    have hl := hi.length
    rw [hnodes] at hl
    have hc : s'.clients.map ClientInfo.core =
        (map.erase clientHandle).nodes.map ClientInfo.core := by
      rw [hc]
      split
      · rw [List.length_eq_zero_iff.1 (show (map.erase clientHandle).nodes.length = 0 by omega)]
      · rfl
    have hlen' : s'.clients.length = s.clients.length - 1 := by
      rw [length_of_cores hc, hlen, hnodes]
    have hkept : ∀ P : ClientInfo → Prop, (∀ x, P x.core ↔ P x) →
        ((∃ x ∈ s'.clients, P x) ↔ ∃ x ∈ s.clients,
          isEqualClienthandle x.clientHandle clientHandle = false ∧ P x) := by
      intro P hP
      rw [exists_of_cores hc hP, hnodes]
      simp only [KeyList.mem_erase, and_assoc]
    have hfind : map.find? clientHandle = some c := KeyList.find?_eq_some.2 ⟨hmem, heq⟩
    have hcount : s.clients.countP ClientInfo.notifies =
        s'.clients.countP ClientInfo.notifies + (if c.notifies = true then 1 else 0) := by
      rw [countP_of_cores hc fun _ => rfl, hnodes, KeyList.countP_erase map clientHandle, hfind]
      rfl
    rw [← hnodes] at hl hpos
    refine ⟨by rw [hlen', hn]; omega, fun k => ?_, fun hd => ?_, fun hd => ?_⟩
    · have hconn : ¬Done.connects k (⟨s, .disconnect clientHandle, .success,
          some clientHandle⟩ : Done N) := by simp [Done.connects]
      have hdis : Done.disconnects k (⟨s, .disconnect clientHandle, .success,
          some clientHandle⟩ : Done N) ↔ isEqualClienthandle k clientHandle = true := by
        simp [Done.disconnects]
      rw [hkept _ fun _ => Iff.rfl, connected_concat, hdis, ← hi.connected k]
      simp only [hconn, false_or, Bool.not_eq_true]
      constructor
      · rintro ⟨x, hx, hne, hfx, rfl⟩
        exact ⟨⟨x, hx, hfx, rfl⟩, hne⟩
      · rintro ⟨⟨x, hx, hfx, rfl⟩, hne⟩
        exact ⟨x, hx, hne, hfx, rfl⟩
    · rcases hi.late ((exists_late_concat.1 hd).resolve_right fun hl => hl) with hlt | hex
      · left
        rw [hlen', hn]
        omega
      · obtain ⟨x, hx, hfx⟩ := hex
        refine .inr ((hkept (fun x => x.freed = true) fun _ => Iff.rfl).2 ⟨x, hx, ?_, hfx⟩)
        by_contra hne
        rw [Bool.not_eq_false] at hne
        rw [hnodes] at hx
        -- the client found is the only one with its handle
        rw [KeyList.eq_of_mem hx hmem (KeyEq.trans hne (KeyEq.symm heq)), hfreed] at hfx
        cases hfx
    · obtain ⟨hnum, hen, hall⟩ := hi.clean (forall_not_late_concat.1 hd).1
      refine ⟨by omega, ?_, fun x hx => ?_⟩
      · rw [he, hen, hcount]
        push_cast
        split <;> omega
      · by_contra hfx
        obtain ⟨y, hy, -, hfy⟩ := (hkept (fun x => x.freed = true) fun _ => Iff.rfl).1
          ⟨x, hx, by simpa using hfx⟩
        rw [hall y hy] at hfy
        cases hfy

theorem reached (hr : Reached w hist s) : Inv w hist s := by
  induction hr with
  | initial net => exact initial net
  | call net call _ hrun ih =>
    have hi := ih.progress (.withNet net _)
    cases call with
    | connect cinfo extension clientHandle => exact hi.connect (connect_end hrun)
    | disconnect clientHandle =>
      simp only [Call.run, Option.bind_eq_bind, Option.bind_eq_some_iff, Option.pure_def,
        Option.some.injEq, Prod.mk.injEq] at hrun
      obtain ⟨⟨ret, t⟩, hrun, rfl, rfl, rfl⟩ := hrun
      exact hi.disconnect hrun
  | thread net _ hrun ih =>
    exact ih.progress ((Progress.withNet net _).trans (progress_callbackThreadClient hrun))

end Inv

/-! ## When the counters and the map are right -/

/-- After every run, the counters and the map fit the calls that succeeded exactly when no
`FTBC_Connect` of the run took an error exit behind its first locked section. -/
theorem bookkeeping_iff {w : LeafNetwork N} {hist : List (Done N)} {s : Lib N}
    (hr : Reached w hist s) :
    Bookkeeping hist s ↔ ∀ d ∈ hist, ¬LateExit w d.before d.call := by
  have hi := Inv.reached hr
  constructor
  · intro hb d hd hlate
    have hnum := hb.numComponents
    rcases hi.late ⟨d, hd, hlate⟩ with hlt | ⟨c, hc, hfreed⟩
    · omega
    · -- a freed client is in the map, but no client with its handle is connected
      obtain ⟨c', hc', hf', heq⟩ := (hi.connected _).2 ((hb.connected _).1 ⟨c, hc, rfl⟩)
      obtain ⟨map, hmap⟩ : ∃ map : ClientInfoMap, s.clients = map.nodes := by
        cases hm : s.clientInfoMap with
        | none => exact ⟨.empty, by simp [Lib.clients, hm]⟩
        | some map => exact ⟨map, by simp [Lib.clients, hm]⟩
      rw [hmap] at hc hc'
      rw [KeyList.eq_of_mem hc' hc (heq ▸ KeyEq.refl _), hfreed] at hf'
      cases hf'
  · intro hnone
    obtain ⟨hnum, hen, hall⟩ := hi.clean hnone
    refine ⟨hnum, hen, fun h => ?_⟩
    rw [← hi.connected h]
    constructor
    · rintro ⟨c, hc, rfl⟩
      exact ⟨c, hc, hall c hc, rfl⟩
    · rintro ⟨c, hc, -, rfl⟩
      exact ⟨c, hc, rfl⟩

/-! ### Runs over one agent -/

/-- A client without subscriptions. -/
def simpleClient (clientName : CStr) : Client where
  eventSpace := "FTB.FTB_EXAMPLES.SIMPLE".toList
  clientName := clientName
  clientJobid := []
  clientSubscriptionStyle := "FTB_SUBSCRIPTION_NONE".toList
  clientPollingQueueLen := 0

def simpleConnect (clientName : CStr) : Call := .connect (simpleClient clientName) 0 (some default)

/-- The agent has process id 1. -/
def simpleAgent : LeafNetwork (List Msg) := leafOutbox { (default : LocationId) with pid := 1 }

/-- The library before its first call. -/
def simpleStart : Lib (List Msg) := (Lib.initial []).withNet []

/-- A client that connects. -/
def simpleRun : Option (ClientHandle × Lib (List Msg)) :=
  match FTBC.connect simpleAgent (simpleClient "simple".toList) 0 (some default) simpleStart with
  | some (.success, some handle, s) => some (handle, s)
  | _ => none

/-- A call after those that returned. -/
def Call.after (w : LeafNetwork N) (x : List (Done N) × Lib N) (call : Call) :
    Option (List (Done N) × Lib N) :=
  (call.run w x.2).map fun r => (x.1 ++ [⟨x.2, call, r.1, r.2.1⟩], r.2.2)

theorem reached_after {w : LeafNetwork N} {calls : List Call} {hist hist' : List (Done N)}
    {s s' : Lib N} (hr : Reached w hist s)
    (h : calls.foldlM (Call.after w) (hist, s) = some (hist', s')) : Reached w hist' s' := by
  refine foldlM_invariant (I := fun x => Reached w x.1 x.2) (fun x call y hx hy => ?_) calls hr h
  obtain ⟨⟨ret, handle, s⟩, hrun, rfl⟩ := Option.map_eq_some_iff.1 hy
  exact .call x.2.manager.net call hx hrun

/-- A call that returned `FTB_SUCCESS` took no error exit. -/
theorem Reached.not_lateExit {w : LeafNetwork N} {hist : List (Done N)} {s : Lib N}
    (hr : Reached w hist s) : ∀ d ∈ hist, d.ret = .success → ¬LateExit w d.before d.call := by
  induction hr with
  | initial => simp
  | thread _ _ _ ih => exact ih
  | call net call _ hrun ih =>
    intro d hd hret
    rcases List.mem_append.1 hd with hd | hd
    · exact ih d hd hret
    · obtain rfl := List.mem_singleton.1 hd
      cases call with
      | disconnect => exact id
      | connect =>
        cases connect_end hrun with
        | refused hr => exact absurd hret hr
        | counted hr => exact absurd hret hr
        | released _ hr => exact absurd hret hr
        | connected _ hlate => exact hlate

/-- Two clients connect, the second one with callbacks, and the first one disconnects. -/
def secondStays : List Call :=
  let first : ClientHandle :=
    { valid := 1
      clientId := { region := "FTB".toList, compCat := "FTB_EXAMPLES".toList, comp := "SIMPLE".toList
                    clientName := "simple".toList, ext := 0 } }
  let second := { simpleClient "second".toList with
    clientSubscriptionStyle := "FTB_SUBSCRIPTION_NOTIFY".toList }
  [simpleConnect "simple".toList, .connect second 0 (some default), .disconnect first]

/-- All calls succeed, and one client with callbacks is left. -/
theorem bookkeeping_iff_simple : ∃ hist s, Reached simpleAgent hist s ∧
    hist.map Done.call = secondStays ∧ (∀ d ∈ hist, d.ret = .success) ∧ s.clients.length = 1 ∧
    s.numComponents = 1 ∧ s.enableCallback = 1 ∧ Bookkeeping hist s := by
  have hany : (secondStays.foldlM (Call.after simpleAgent) ([], simpleStart)).any (fun x =>
      decide (x.1.map Done.call = secondStays ∧ (∀ d ∈ x.1, d.ret = .success) ∧
        x.2.clients.length = 1 ∧ x.2.numComponents = 1 ∧ x.2.enableCallback = 1)) = true := by
    decide +kernel
  obtain ⟨⟨hist, s⟩, hrun, hx⟩ := (Option.any_eq_true _ _).1 hany
  obtain ⟨hcalls, hret, hlen, hnum, hen⟩ := of_decide_eq_true hx
  have hreached : Reached simpleAgent hist s := reached_after (.initial []) hrun
  refine ⟨hist, s, hreached, hcalls, hret, hlen, hnum, hen, (bookkeeping_iff hreached).2 ?_⟩
  exact fun d hd => hreached.not_lateExit d hd (hret d hd)

/-- A name of 16 characters is refused, but the client was counted. -/
theorem longName_counted : ∃ hist s, Reached simpleAgent hist s ∧
    hist.map Done.call = [simpleConnect "simple_publisher".toList] ∧
    hist.map Done.ret = [.errInvalidValue] ∧ s.numComponents = 1 ∧ s.clients.length = 0 ∧
    ¬Bookkeeping hist s := by
  have hany : (((simpleConnect "simple_publisher".toList).run simpleAgent simpleStart).any fun r =>
      r.1 = .errInvalidValue && r.2.2.numComponents = 1 && r.2.2.clients.length = 0) = true := by
    decide +kernel
  obtain ⟨⟨ret, handle, s⟩, hrun, hs⟩ := (Option.any_eq_true _ _).1 hany
  simp only [Bool.and_eq_true, decide_eq_true_eq] at hs
  obtain ⟨⟨rfl, hnum⟩, hlen⟩ := hs
  refine ⟨_, s, .call [] _ (.initial []) hrun, rfl, rfl, hnum, hlen, fun h => ?_⟩
  have := h.numComponents
  rw [hnum, hlen] at this
  cases this

end FTBC
