import Ftb.Client.Frame
import Ftb.Lib.Trace

/-!
# Runs of subscription calls of one client

What the calls that return `FTB_SUCCESS` do to the client they are about (`connect_success`,
`subscribeWith_success`, `unsubscribe_success`), and the runs of such calls (`Subscribed`): a client
connects, subscribes and unsubscribes in any order, while messages arrive and callbacks are made.
-/

open FTB FTBU FTBN FTBMI

namespace FTBCI

variable {N : Type} {w : LeafNetwork N} {s s' : Lib N} {handle : ClientHandle} {c c' : ClientInfo}

/-! ## Lookups -/

theorem findClient_map (map : ClientInfoMap) {map' : ClientInfoMap} (g : ClientInfo → ClientInfo)
    (hnodes : map'.nodes = map.nodes.map g)
    (hg : ∀ x, (g x).freed = x.freed ∧ (g x).clientHandle = x.clientHandle) :
    findClient map' handle = (findClient map handle).map fun found => found.map g := by
  have hp : ((fun x : ClientInfo => x.freed || isEqualClienthandle x.clientHandle handle) ∘ g) =
      fun x => x.freed || isEqualClienthandle x.clientHandle handle := by
    funext x
    simp [hg]
  simp only [findClient, hnodes, List.find?_map, hp]
  cases hf : map.nodes.find? fun x => x.freed || isEqualClienthandle x.clientHandle handle with
  | none => rfl
  | some x =>
    simp only [Option.map_some, (hg x).1]
    split <;> rfl

theorem lookup_iff : lookupClientInfo handle s = some (.ok c) ↔
    ∃ map, s.clientInfoMap = some map ∧ findClient map handle = some (some c) := by
  unfold lookupClientInfo
  cases s.clientInfoMap with
  | none => simp
  | some map =>
    cases hf : findClient map handle with
    | none => simp [hf]
    | some found => cases found <;> simp [hf]

theorem find_of_findClient {map : ClientInfoMap} (h : findClient map handle = some (some c)) :
    (map.nodes.find? fun x => x.freed || isEqualClienthandle x.clientHandle handle) = some c ∧
      c.freed = false ∧ isEqualClienthandle c.clientHandle handle = true := by
  unfold findClient at h
  cases hf : map.nodes.find? fun x => x.freed || isEqualClienthandle x.clientHandle handle with
  | none => simp [hf] at h
  | some x =>
    have hp := List.find?_some hf
    cases hx : x.freed <;> simp_all

/-- The client of a handle keeps all but its queues. -/
theorem Progress.lookup (h : Progress s s') (hl : lookupClientInfo handle s = some (.ok c)) :
    ∃ c', lookupClientInfo handle s' = some (.ok c') ∧ c'.core = c.core := by
  obtain ⟨map, hm, hf⟩ := lookup_iff.1 hl
  obtain ⟨map', hm', hcores⟩ := h.map_some hm
  have hcore : ∀ x : ClientInfo, x.core.freed = x.freed ∧ x.core.clientHandle = x.clientHandle :=
    fun x => ⟨rfl, rfl⟩
  -- both searches are the search among the clients without their queues
  have hp : ((fun x : ClientInfo => x.freed || isEqualClienthandle x.clientHandle handle) ∘
      ClientInfo.core) = fun x => x.freed || isEqualClienthandle x.clientHandle handle := rfl
  obtain ⟨hfind, hfreed, -⟩ := find_of_findClient hf
  have hfind' := congrArg (Option.map ClientInfo.core) hfind
  rw [← hp, ← List.find?_map, ← hcores, List.find?_map, hp, Option.map_some,
    Option.map_eq_some_iff] at hfind'
  obtain ⟨c', hc', heq⟩ := hfind'
  have hfreed' : c'.freed = false := by
    rw [← (hcore c').1, heq]
    exact hfreed
  exact ⟨c', lookup_iff.2 ⟨map', hm', by simp [findClient, hc', hfreed']⟩, heq⟩

/-- A function on a client that leaves its handle, and does not look at its queues. -/
structure Local (f : ClientInfo → ClientInfo) : Prop where
  clientHandle : ∀ c, (f c).clientHandle = c.clientHandle
  freed : ∀ c, (f c).freed = c.freed
  core : ∀ c, (f c).core = (f c.core).core

theorem lookup_update {f : ClientInfo → ClientInfo} (hf : Local f)
    (hl : lookupClientInfo handle s = some (.ok c)) :
    lookupClientInfo handle (s.update handle f) = some (.ok (f c)) := by
  obtain ⟨map, hm, hfc⟩ := lookup_iff.1 hl
  refine lookup_iff.2 ⟨_, by rw [Lib.update, hm]; rfl, ?_⟩
  rw [findClient_map map (fun x => if isEqualClienthandle x.clientHandle handle = true then
    { f x with clientHandle := x.clientHandle } else x) rfl, hfc]
  · have hown : { f c with clientHandle := c.clientHandle } = f c := by rw [← hf.clientHandle c]
    simp only [Option.map_some, (find_of_findClient hfc).2.2, if_true, hown]
  · intro x
    split
    · exact ⟨hf.freed x, rfl⟩
    · exact ⟨rfl, rfl⟩

/-- A write of the queues of one client. -/
theorem progress_update_own (hl : lookupClientInfo handle s = some (.ok c))
    (hc : c'.core = c.core) : Progress s (s.update handle fun _ => c') := by
  obtain ⟨map, hm, hf⟩ := lookup_iff.1 hl
  obtain ⟨hfind, -, heq⟩ := find_of_findClient hf
  have hmem := List.mem_of_find?_eq_some hfind
  refine ⟨rfl, rfl, rfl, ?_⟩
  simp only [Lib.update, hm, Option.map_some, KeyList.adjust, List.map_map, Option.some.injEq]
  refine List.map_congr_left fun x hx => ?_
  dsimp only [Function.comp]
  split
  · rename_i hx'
    obtain rfl : x = c := KeyList.eq_of_mem hx hmem (KeyEq.trans hx' (KeyEq.symm heq))
    simp only [ClientInfo.core, ClientInfo.mk.injEq] at hc ⊢
    tauto
  · rfl

theorem lookup_congr {handle' : ClientHandle}
    (h : ∀ x, isEqualClienthandle x handle' = isEqualClienthandle x handle) (s : Lib N) :
    lookupClientInfo handle' s = lookupClientInfo handle s := by
  simp only [lookupClientInfo, findClient, h]

theorem local_receive (entry : EventInst) : Local (receive entry) where
  clientHandle c := by
    have h := congrArg ClientInfo.clientHandle (core_receive entry c)
    exact h
  freed c := by
    have h := congrArg ClientInfo.freed (core_receive entry c)
    exact h
  core c := by
    rw [core_receive, core_receive]
    rfl

theorem local_addToPollingMap (event : Event) : Local (utilAddToPollingMap event) :=
  ⟨fun _ => rfl, fun _ => rfl, fun _ => rfl⟩

theorem local_addToCallbackMap (callback arg : Nat) (event : Event) :
    Local (utilAddToCallbackMap callback arg event) :=
  ⟨fun _ => rfl, fun _ => rfl, fun _ => rfl⟩

theorem local_removeFromSubscriptionMap (event : Event) :
    Local (utilRemoveFromSubscriptionMap event) :=
  ⟨fun _ => rfl, fun _ => rfl, fun _ => rfl⟩

/-- A turn of the component thread takes the first event out of the queue. -/
theorem callbackComponent_core {o : Option (CallbackEntry × ReceiveEvent)}
    (h : callbackComponent c = some (o, c')) : c'.core = c.core := by
  unfold callbackComponent at h
  split at h
  · cases h
    rfl
  · split at h
    · cases h
    · simp only [Option.bind_eq_bind, Option.bind_eq_some_iff, Option.pure_def,
        Option.some.injEq, Prod.mk.injEq] at h
      obtain ⟨r, -, -, rfl⟩ := h
      rfl

end FTBCI

namespace FTBC

open FTBCI

variable {N : Type} {w : LeafNetwork N} {s s' : Lib N} {handle : ClientHandle}

/-! ## Calls that return `FTB_SUCCESS` -/

/-- The client is in the map, and has what `c` has but for the queues. -/
def Has (handle : ClientHandle) (c : ClientInfo) (s : Lib N) : Prop :=
  ∃ c', lookupClientInfo handle s = some (.ok c') ∧ c'.core = c.core

theorem Has.progress {c : ClientInfo} (h : Has handle c s) (hp : Progress s s') :
    Has handle c s' := by
  obtain ⟨c', hl, hc⟩ := h
  obtain ⟨c'', hl', hc'⟩ := hp.lookup hl
  exact ⟨c'', hl', hc'.trans hc⟩

theorem Has.update {c : ClientInfo} (h : Has handle c s) {f : ClientInfo → ClientInfo}
    (hf : Local f) : Has handle (f c) (s.update handle f) := by
  obtain ⟨c', hl, hc⟩ := h
  exact ⟨f c', lookup_update hf hl, by rw [hf.core, hc, ← hf.core]⟩

theorem Has.of_lookup {c : ClientInfo} (h : lookupClientInfo handle s = some (.ok c)) :
    Has handle c s := ⟨c, h, rfl⟩

theorem Has.core_eq {c d : ClientInfo} (h : Has handle c s) (h' : Has handle d s) :
    c.core = d.core := by
  obtain ⟨x, hx, hc⟩ := h
  obtain ⟨y, hy, hd⟩ := h'
  rw [hx] at hy
  cases hy
  exact hc.symm.trans hd

theorem registerClient_success {c : ClientInfo} (hfreed : c.freed = false)
    (h : registerClient w c s = some (.success, s')) : Has c.clientHandle c s' := by
  simp only [registerClient] at h
  split at h
  · cases h
  · rename_i map hmap
    split at h
    · cases h
    · cases h
    · rename_i hnone
      simp only [Option.bind_eq_bind, Option.bind_eq_some_iff] at h
      obtain ⟨⟨r, u⟩, hsend, h⟩ := h
      dsimp only at h
      split at h
      · rename_i hne
        cases h
        exact absurd rfl hne
      · simp only [Option.bind_eq_some_iff, Option.pure_def, Option.some.injEq,
          Prod.mk.injEq] at h
        obtain ⟨⟨r₂, t⟩, hcheck, -, rfl⟩ := h
        refine Has.progress ?_ ((sent_sendMsg hsend).progress.trans (progress_checkProgress hcheck))
        refine ⟨c, lookup_iff.2 ⟨map.insert c, rfl, ?_⟩, rfl⟩
        -- the search passes the clients that were there and ends at the new one
        have hpass : (map.nodes.find? fun x => x.freed ||
            isEqualClienthandle x.clientHandle c.clientHandle) = none := by
          unfold findClient at hnone
          split at hnone
          · assumption
          · split at hnone <;> cases hnone
        have hnew : map.contains c.clientHandle = false := by
          simp only [KeyList.contains, List.any_eq_false, Bool.not_eq_true]
          intro x hx
          have := List.find?_eq_none.1 hpass x hx
          simp only [Bool.or_eq_true, not_or, Bool.not_eq_true] at this
          exact this.2
        have hself : isEqualClienthandle c.clientHandle c.clientHandle = true := KeyEq.refl _
        simp [findClient, KeyList.nodes_insert hnew, List.find?_append, hpass, hfreed, hself]

/-- The client that `FTBC_Connect` leaves in the map is new, and its id is made of the arguments. -/
theorem connect_success {cinfo : Client} {extension : UInt8} {clientHandle out : Option ClientHandle}
    (h : connect w cinfo extension clientHandle s = some (.success, out, s')) :
    ∃ id subscriptionType queueLen, subscriptionStyle cinfo = some (subscriptionType, queueLen) ∧
      splitNamespace cinfo.eventSpace =
        some (.ok (id.clientId.region, id.clientId.compCat, id.clientId.comp)) ∧
      id.clientId.clientName = cinfo.clientName ∧ id.clientId.ext = extension ∧
      out = some (convertClientidToClienthandle id.clientId) ∧
      Has (convertClientidToClienthandle id.clientId)
        (newClientInfo id cinfo.clientJobid subscriptionType queueLen) s' := by
  simp only [connect] at h
  split at h
  · cases h
  · split at h
    · cases h
    · rename_i subscriptionType queueLen hstyle
      split at h
      · cases h
      · rename_i ret hsplit
        cases h
        cases splitNamespace_error hsplit
      · rename_i region compCat comp hsplit
        split at h
        · cases h
        · split at h
          · cases h
          · simp only [Option.bind_eq_bind, Option.bind_eq_some_iff, Option.pure_def,
              Option.some.injEq, Prod.mk.injEq] at h
            obtain ⟨⟨r, t⟩, hreg, rfl, rfl, rfl⟩ := h
            let id : Id :=
              { locationId := FTBM.getLocationId default (addComponent w s).manager.info
                clientId :=
                  { region, compCat, comp, clientName := cinfo.clientName, ext := extension } }
            have hhas := registerClient_success
              (c := newClientInfo id cinfo.clientJobid subscriptionType queueLen) rfl hreg
            exact ⟨id, subscriptionType, queueLen, hstyle, hsplit, rfl, rfl, rfl, hhas⟩

/-- A subscription adds its mask to the map, and its `FTBM_Send` succeeded. -/
theorem subscribeWith_success {type : UInt8} {add : Event → ClientInfo → ClientInfo}
    (hadd : ∀ event, Local (add event)) {subscribeHandle out : Option SubscribeHandle}
    {subscriptionStr : Option CStr} {c : ClientInfo} (hc : Has handle c s)
    (h : subscribeWith w type add subscribeHandle handle subscriptionStr s =
      some (.success, out, s')) :
    ∃ event, out = some ⟨handle, event, type, 1⟩ ∧ c.subscriptionType &&& type ≠ 0 ∧
      Has handle (add event c) s' ∧
      ∃ msg t, msg.msgType = .regSubscription ∧ msg.src = c.id ∧ msg.event = event ∧
        sendMsg w msg t = some (.success, s') := by
  simp only [subscribeWith] at h
  split at h
  · cases h
  · split at h
    · cases h
    · obtain ⟨c', hl, hcore⟩ := hc
      split at h
      · cases h
      · rename_i ret hl'
        rw [hl] at hl'
        cases hl'
      · rename_i d hl'
        rw [hl] at hl'
        cases hl'
        split at h
        · cases h
        · rename_i htype
          split at h
          · cases h
          · rename_i ret track event _
            split at h
            · rename_i hne
              cases h
              exact absurd rfl hne
            · simp only [Option.bind_eq_bind, Option.bind_eq_some_iff, Option.pure_def,
                Option.some.injEq, Prod.mk.injEq] at h
              obtain ⟨⟨r₁, t⟩, hcheck, ⟨r₂, u⟩, hsend, rfl, rfl, rfl⟩ := h
              have hhas : Has handle c { s with track } := ⟨c', hl, hcore⟩
              have hid : c'.core.id = c.core.id := congrArg ClientInfo.id hcore
              have hty : c'.core.subscriptionType = c.core.subscriptionType :=
                congrArg ClientInfo.subscriptionType hcore
              refine ⟨event, rfl, ?_, ?_, _, _, rfl, hid, rfl, hsend⟩
              · have hne : c'.subscriptionType &&& type ≠ 0 := by simpa using htype
                exact fun h0 => hne (hty ▸ h0)
              · exact ((hhas.progress (progress_checkProgress hcheck)).update (hadd event)).progress
                  (sent_sendMsg hsend).progress

/-- An unsubscription takes its mask out of both maps, and its `FTBM_Send` succeeded. -/
theorem unsubscribe_success {subscribeHandle out : SubscribeHandle} {c : ClientInfo}
    (hc : Has subscribeHandle.clientHandle c s)
    (h : unsubscribe w subscribeHandle s = some (.success, out, s')) :
    subscribeHandle.valid ≠ 0 ∧ out = { subscribeHandle with valid := 0 } ∧
      Has subscribeHandle.clientHandle
        (utilRemoveFromSubscriptionMap subscribeHandle.subscriptionEvent c) s' ∧
      ∃ msg t, msg.msgType = .subscriptionCancel ∧ msg.src = c.id ∧
        msg.event = subscribeHandle.subscriptionEvent ∧ sendMsg w msg s = some (.success, t) := by
  simp only [unsubscribe] at h
  obtain ⟨c', hl, hcore⟩ := hc
  split at h
  · cases h
  · rename_i ret hl'
    rw [hl] at hl'
    cases hl'
  · rename_i d hl'
    rw [hl] at hl'
    cases hl'
    split at h
    · cases h
    · rename_i hvalid
      simp only [Option.bind_eq_bind, Option.bind_eq_some_iff] at h
      obtain ⟨⟨r, u⟩, hsend, h⟩ := h
      dsimp only at h
      split at h
      · rename_i hne
        cases h
        exact absurd rfl hne
      · rename_i hret
        rw [not_not] at hret
        simp only [Option.bind_eq_some_iff, Option.pure_def, Option.some.injEq,
          Prod.mk.injEq] at h
        obtain ⟨⟨r₂, t⟩, hcheck, -, rfl, rfl⟩ := h
        have hhas : Has subscribeHandle.clientHandle c u :=
          Has.progress ⟨c', hl, hcore⟩ (sent_sendMsg hsend).progress
        have hid : c'.core.id = c.core.id := congrArg ClientInfo.id hcore
        rw [hret] at hsend
        exact ⟨by simpa using hvalid, rfl, (hhas.update (local_removeFromSubscriptionMap _)).progress
          (progress_checkProgress hcheck), _, u, rfl, hid, rfl, hsend⟩

/-! ## Runs -/

/-- What a call that returned `FTB_SUCCESS` asked for. -/
inductive SubEvent
  | polling (mask : Event)
  | callback (mask : Event) (callback arg : Nat)
  | cancel (mask : Event)
  deriving DecidableEq

/-- What it does to its client. -/
def SubEvent.apply : SubEvent → ClientInfo → ClientInfo
  | .polling mask => utilAddToPollingMap mask
  | .callback mask f arg => utilAddToCallbackMap f arg mask
  | .cancel mask => utilRemoveFromSubscriptionMap mask

/-- A call, and the states before and after it. -/
structure SubCall (N : Type) where
  before : Lib N
  event : SubEvent
  after : Lib N

/-- The client `id` connects under `handle`. It makes calls that return `FTB_SUCCESS`, and unsubscribes
handles that it obtained; in between the two threads take their turns. -/
inductive Subscribed (w : LeafNetwork N) (handle : ClientHandle) (id : Id) :
    List (SubCall N) → List SubscribeHandle → Lib N → Prop
  | connect {cinfo : Client} {extension : UInt8} {clientHandle : Option ClientHandle}
      {s s' : Lib N} {c : ClientInfo} :
      connect w cinfo extension clientHandle s = some (.success, some handle, s') →
      lookupClientInfo handle s' = some (.ok c) → c.id = id → Subscribed w handle id [] [] s'
  | polling {calls : List (SubCall N)} {handles : List SubscribeHandle} {s s' : Lib N}
      {subscribeHandle : Option SubscribeHandle} {str : Option CStr} {sh : SubscribeHandle} :
      Subscribed w handle id calls handles s →
      subscribeWithPolling w subscribeHandle handle str s = some (.success, some sh, s') →
      Subscribed w handle id (calls ++ [⟨s, .polling sh.subscriptionEvent, s'⟩])
        (handles ++ [sh]) s'
  | callback {calls : List (SubCall N)} {handles : List SubscribeHandle} {s s' : Lib N}
      {subscribeHandle : Option SubscribeHandle} {str : Option CStr} {callback arg : Nat}
      {sh : SubscribeHandle} : Subscribed w handle id calls handles s →
      subscribeWithCallback w subscribeHandle handle str callback arg s =
        some (.success, some sh, s') →
      Subscribed w handle id (calls ++ [⟨s, .callback sh.subscriptionEvent callback arg, s'⟩])
        (handles ++ [sh]) s'
  | unsubscribe {calls : List (SubCall N)} {handles : List SubscribeHandle} {s s' : Lib N} {k : Nat}
      {sh sh' : SubscribeHandle} : Subscribed w handle id calls handles s →
      handles[k]? = some sh → unsubscribe w sh s = some (.success, sh', s') →
      Subscribed w handle id (calls ++ [⟨s, .cancel sh.subscriptionEvent, s'⟩])
        (handles.set k sh') s'
  | thread {calls : List (SubCall N)} {handles : List SubscribeHandle} {s s' : Lib N}
      {ret : Option Ret} : Subscribed w handle id calls handles s →
      callbackThreadClient w s = some (ret, s') → Subscribed w handle id calls handles s'
  | component {calls : List (SubCall N)} {handles : List SubscribeHandle} {s : Lib N}
      {c c' : ClientInfo} {o : Option (CallbackEntry × ReceiveEvent)} :
      Subscribed w handle id calls handles s → lookupClientInfo handle s = some (.ok c) →
      callbackComponent c = some (o, c') →
      Subscribed w handle id calls handles (s.update handle fun _ => c')

/-- The client after the calls. -/
def replay (c₀ : ClientInfo) (calls : List (SubCall N)) : ClientInfo :=
  (calls.map SubCall.event).foldl (fun c e => e.apply c) c₀

theorem replay_concat (c₀ : ClientInfo) (calls : List (SubCall N)) (d : SubCall N) :
    replay c₀ (calls ++ [d]) = d.event.apply (replay c₀ calls) := by
  simp [replay]

/-- The style of the client allows the call. -/
def SubEvent.Allowed (c : ClientInfo) : SubEvent → Prop
  | .polling _ => c.polls = true
  | .callback _ _ _ => c.notifies = true
  | .cancel _ => True

/-- The states of a run, told by its calls: before and after each call, and at the end, the client is
the new client `c₀` with the calls so far. -/
structure Traced (handle : ClientHandle) (c₀ : ClientInfo) (calls : List (SubCall N)) (s : Lib N) :
    Prop where
  now : Has handle (replay c₀ calls) s
  steps : ∀ pre d post, calls = pre ++ d :: post → Has handle (replay c₀ pre) d.before ∧
    Has handle (replay c₀ (pre ++ [d])) d.after ∧ d.event.Allowed c₀

theorem apply_style (e : SubEvent) (c : ClientInfo) :
    (e.apply c).subscriptionType = c.subscriptionType ∧ (e.apply c).id = c.id := by
  cases e <;> exact ⟨rfl, rfl⟩

theorem replay_style (c₀ : ClientInfo) (calls : List (SubCall N)) :
    (replay c₀ calls).subscriptionType = c₀.subscriptionType ∧ (replay c₀ calls).id = c₀.id := by
  induction calls using List.reverseRecOn with
  | nil => exact ⟨rfl, rfl⟩
  | append_singleton calls d ih =>
    obtain ⟨ht, hi⟩ := apply_style d.event (replay c₀ calls)
    rw [replay_concat, ht, hi]
    exact ih

namespace Traced

variable {c₀ : ClientInfo} {calls : List (SubCall N)}

theorem progress (h : Traced handle c₀ calls s) (hp : Progress s s') : Traced handle c₀ calls s' :=
  ⟨h.now.progress hp, h.steps⟩

theorem concat (h : Traced handle c₀ calls s) {e : SubEvent}
    (hnow : Has handle (e.apply (replay c₀ calls)) s') (hallowed : e.Allowed c₀) :
    Traced handle c₀ (calls ++ [⟨s, e, s'⟩]) s' := by
  refine ⟨by rw [replay_concat]; exact hnow, fun pre d post heq => ?_⟩
  rcases Trace.split_concat heq with ⟨rfl, rfl, rfl⟩ | ⟨post, rfl, rfl⟩
  · refine ⟨h.now, ?_, hallowed⟩
    rw [replay_concat]
    exact hnow
  · exact h.steps pre d post rfl

end Traced

/-- Every run is traced by its calls from a new client. -/
theorem Subscribed.traced {id : Id} {calls : List (SubCall N)} {handles : List SubscribeHandle}
    (h : Subscribed w handle id calls handles s) : ∃ jobid subscriptionType queueLen,
      handle = convertClientidToClienthandle handle.clientId ∧
      (∀ sh ∈ handles, sh.clientHandle = handle) ∧
      Traced handle (newClientInfo id jobid subscriptionType queueLen) calls s := by
  induction h with
  | @connect cinfo extension clientHandle s s' c hconnect hl hid =>
    obtain ⟨id', ty, len, -, -, -, -, hout, hhas⟩ := connect_success hconnect
    cases hout
    have hid' : c.core.id = id' := by
      rw [(Has.of_lookup hl).core_eq hhas]
      rfl
    obtain rfl : id' = id := hid'.symm.trans hid
    refine ⟨cinfo.clientJobid, ty, len, rfl, by simp, hhas, fun pre d post heq => ?_⟩
    simp at heq
  | @polling calls handles s s' subscribeHandle str sh _ hcall ih =>
    obtain ⟨jobid, ty, len, hh, hhandles, ht⟩ := ih
    obtain ⟨event, hout, htype, hhas, -⟩ :=
      subscribeWith_success local_addToPollingMap ht.now hcall
    cases hout
    rw [(replay_style _ calls).1] at htype
    refine ⟨jobid, ty, len, hh, ?_, ht.concat hhas (by simpa [SubEvent.Allowed, ClientInfo.polls])⟩
    simp only [List.mem_append, List.mem_singleton]
    rintro sh (hsh | rfl)
    · exact hhandles sh hsh
    · rfl
  | @callback calls handles s s' subscribeHandle str callback arg sh _ hcall ih =>
    obtain ⟨jobid, ty, len, hh, hhandles, ht⟩ := ih
    obtain ⟨event, hout, htype, hhas, -⟩ :=
      subscribeWith_success (local_addToCallbackMap callback arg) ht.now hcall
    cases hout
    rw [(replay_style _ calls).1] at htype
    refine ⟨jobid, ty, len, hh, ?_,
      ht.concat hhas (by simpa [SubEvent.Allowed, ClientInfo.notifies])⟩
    simp only [List.mem_append, List.mem_singleton]
    rintro sh (hsh | rfl)
    · exact hhandles sh hsh
    · rfl
  | @unsubscribe calls handles s s' k sh sh' _ hk hcall ih =>
    obtain ⟨jobid, ty, len, hh, hhandles, ht⟩ := ih
    have hsh : sh.clientHandle = handle := hhandles sh (List.mem_of_getElem? hk)
    have hnow := ht.now
    rw [← hsh] at hnow
    obtain ⟨-, hout, hhas, -⟩ := unsubscribe_success hnow hcall
    rw [hsh] at hhas
    refine ⟨jobid, ty, len, hh, ?_, ht.concat hhas trivial⟩
    intro sh₂ hmem
    rcases List.mem_or_eq_of_mem_set hmem with hmem | rfl
    · exact hhandles sh₂ hmem
    · rw [hout]
      exact hsh
  | thread _ hcall ih =>
    obtain ⟨jobid, ty, len, hh, hhandles, ht⟩ := ih
    exact ⟨jobid, ty, len, hh, hhandles, ht.progress (progress_callbackThreadClient hcall)⟩
  | @component calls handles s c c' o _ hl hcall ih =>
    obtain ⟨jobid, ty, len, hh, hhandles, ht⟩ := ih
    have hc := callbackComponent_core hcall
    exact ⟨jobid, ty, len, hh, hhandles, ht.progress (progress_update_own hl hc)⟩

/-! ## Runs that are evaluated -/

/-- A call of a run, or a turn of the thread that receives; a handle is named by its number. -/
inductive SubStep
  | polling (str : CStr)
  | callback (str : CStr) (callback arg : Nat)
  | unsubscribe (k : Nat)
  | thread
  deriving DecidableEq

/-- The calls, the handles and the state so far. -/
abbrev SubState (N : Type) := List (SubCall N) × List SubscribeHandle × Lib N

/-- One call, if it returns `FTB_SUCCESS`. -/
def subStep (w : LeafNetwork N) (handle : ClientHandle) (x : SubState N) (step : SubStep) :
    Option (SubState N) :=
  match step with
  | .polling str =>
    match subscribeWithPolling w (some default) handle (some str) x.2.2 with
    | some (.success, some sh, s') =>
      some (x.1 ++ [⟨x.2.2, .polling sh.subscriptionEvent, s'⟩], x.2.1 ++ [sh], s')
    | _ => none
  | .callback str f arg =>
    match subscribeWithCallback w (some default) handle (some str) f arg x.2.2 with
    | some (.success, some sh, s') =>
      some (x.1 ++ [⟨x.2.2, .callback sh.subscriptionEvent f arg, s'⟩], x.2.1 ++ [sh], s')
    | _ => none
  | .unsubscribe k =>
    match x.2.1[k]? with
    | none => none
    | some sh =>
      match unsubscribe w sh x.2.2 with
      | some (.success, sh', s') =>
        some (x.1 ++ [⟨x.2.2, .cancel sh.subscriptionEvent, s'⟩], x.2.1.set k sh', s')
      | _ => none
  | .thread => (callbackThreadClient w x.2.2).map fun r => (x.1, x.2.1, r.2)

theorem subStep_subscribed {id : Id} {x y : SubState N} {step : SubStep}
    (hx : Subscribed w handle id x.1 x.2.1 x.2.2) (h : subStep w handle x step = some y) :
    Subscribed w handle id y.1 y.2.1 y.2.2 := by
  cases step with
  | polling str =>
    simp only [subStep] at h
    split at h
    · rename_i hcall
      cases h
      exact .polling hx hcall
    · cases h
  | callback str f arg =>
    simp only [subStep] at h
    split at h
    · rename_i hcall
      cases h
      exact .callback hx hcall
    · cases h
  | unsubscribe k =>
    simp only [subStep] at h
    split at h
    · cases h
    · rename_i hk
      split at h
      · rename_i hcall
        cases h
        exact .unsubscribe hx hk hcall
      · cases h
  | thread =>
    obtain ⟨⟨ret, s'⟩, hcall, rfl⟩ := Option.map_eq_some_iff.1 h
    exact .thread hx hcall

/-- A first client connects and makes the calls: its handle, its id, and what is left. -/
def subRun (w : LeafNetwork N) (net : N) (cinfo : Client) (steps : List SubStep) :
    Option (ClientHandle × Id × SubState N) :=
  match connect w cinfo 0 (some default) (Lib.initial net) with
  | some (.success, some handle, s) =>
    match lookupClientInfo handle s with
    | some (.ok c) => (steps.foldlM (subStep w handle) ([], [], s)).map fun x => (handle, c.id, x)
    | _ => none
  | _ => none

theorem subRun_subscribed {net : N} {cinfo : Client} {steps : List SubStep} {id : Id}
    {x : SubState N} (h : subRun w net cinfo steps = some (handle, id, x)) :
    Subscribed w handle id x.1 x.2.1 x.2.2 := by
  simp only [subRun] at h
  split at h
  · rename_i hd s hconnect
    split at h
    · rename_i c hl
      obtain ⟨y, hy, heq⟩ := Option.map_eq_some_iff.1 h
      simp only [Prod.mk.injEq] at heq
      obtain ⟨rfl, rfl, rfl⟩ := heq
      exact Trace.foldlM_invariant (I := fun x : SubState N => Subscribed w hd c.id x.1 x.2.1 x.2.2)
        (fun _ _ _ hx hs => subStep_subscribed hx hs) steps (.connect hconnect hl rfl) hy
    · cases h
  · cases h

end FTBC
