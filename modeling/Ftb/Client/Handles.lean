import Ftb.Client.Bookkeeping
import Ftb.Client.Declare

/-!
# The handles of published events

A handle holds what `FTBC_Publish` has of the client, the name and severity of the event, and
`seqnum`, which every call that passes the checks advances. `seqnum` has 16 bits: two handles of one
name compare equal exactly if a multiple of 65536 calls advanced it between them
(`identify_iff`).
-/

open FTB FTBU FTBN FTBMI FTBCI CStr

namespace FTBC

variable {N : Type} {w : LeafNetwork N} {handle : ClientHandle} {s s' : Lib N} {c : ClientInfo}

/-! ## Runs -/

/-- A call of `FTBC_Publish` with what it returned. -/
structure Publication where
  eventName : CStr
  properties : Option EventProperties
  eventHandle : Option EventHandle
  ret : Ret
  out : Option EventHandle
  deriving DecidableEq

/-- Calls of `FTBC_Publish` of one client, one after another, while the network layer goes on and the
callback thread runs. -/
inductive Publishing (w : LeafNetwork N) (handle : ClientHandle) (s₀ : Lib N) :
    List Publication → Lib N → Prop
  | start : Publishing w handle s₀ [] s₀
  | net {calls : List Publication} {s : Lib N} (net : N) :
      Publishing w handle s₀ calls s → Publishing w handle s₀ calls (s.withNet net)
  | thread {calls : List Publication} {s s' : Lib N} {ret : Option Ret} :
      Publishing w handle s₀ calls s → callbackThreadClient w s = some (ret, s') →
      Publishing w handle s₀ calls s'
  | call {calls : List Publication} {s s' : Lib N} (a : Publication) :
      Publishing w handle s₀ calls s →
      publish w handle a.eventName a.properties a.eventHandle s = some (a.ret, a.out, s') →
      Publishing w handle s₀ (calls ++ [a]) s'

/-- The handles of two different calls that returned `FTB_SUCCESS` never compare equal. -/
def Identify (w : LeafNetwork N) (calls : List Publication) : Prop :=
  ∀ (i j : Nat) (a b : Publication) (p q : EventHandle), i ≠ j → calls[i]? = some a →
    calls[j]? = some b → a.ret = .success → b.ret = .success → a.out = some p → b.out = some q →
    ∀ (u u' : Lib N) (ret : Ret), compareEventHandles w p q u = some (ret, u') → ret ≠ .success

/-- `event_type`, or its default. -/
def eventType (properties : Option EventProperties) : UInt8 :=
  (properties.getD { eventType := 1, eventPayload := default }).eventType

/-- The arguments pass the checks of `FTBC_Publish`. -/
structure Passes (handle : ClientHandle) (c : ClientInfo) (eventName : CStr)
    (properties : Option EventProperties) (eventHandle : Option EventHandle) : Prop where
  valid : handle.valid = 1
  pointer : eventHandle.isSome = true
  name : 0 < eventName.length ∧ eventName.length < maxEventName
  declared : (c.declaredEventsMap.find? eventName).isSome = true
  type : eventType properties = 1 ∨ eventType properties = 2

def Publication.Passes (handle : ClientHandle) (c : ClientInfo) (a : Publication) : Prop :=
  FTBC.Passes handle c a.eventName a.properties a.eventHandle

instance (handle : ClientHandle) (c : ClientInfo) (a : Publication) :
    Decidable (a.Passes handle c) :=
  decidable_of_iff (handle.valid = 1 ∧ a.eventHandle.isSome = true ∧
      (0 < a.eventName.length ∧ a.eventName.length < maxEventName) ∧
      (c.declaredEventsMap.find? a.eventName).isSome = true ∧
      (eventType a.properties = 1 ∨ eventType a.properties = 2))
    ⟨fun h => ⟨h.1, h.2.1, h.2.2.1, h.2.2.2.1, h.2.2.2.2⟩, fun h => ⟨h.1, h.2, h.3, h.4, h.5⟩⟩

/-- The calls that advance `seqnum`. -/
def passed (handle : ClientHandle) (c : ClientInfo) (calls : List Publication) : Nat :=
  calls.countP fun a => decide (a.Passes handle c)

/-- No two calls of one event that returned `FTB_SUCCESS` are a multiple of 65536 steps of `seqnum`
apart. -/
def Apart (handle : ClientHandle) (c : ClientInfo) (calls : List Publication) : Prop :=
  ∀ pre a mid b post, calls = pre ++ a :: (mid ++ b :: post) → a.ret = .success → b.ret = .success →
    strcaseEq a.eventName b.eventName = true → ¬65536 ∣ passed handle c mid + 1

/-! ## One call -/

/-- The client after `n` steps of `seqnum`. -/
def advanced (c : ClientInfo) (n : Nat) : ClientInfo := { c with seqnum := c.seqnum + .ofNat n }

/-- The handle that a call which passes the checks fills. -/
def issued (handle : ClientHandle) (c : ClientInfo) (eventName severity : CStr) : EventHandle where
  eventName := eventName
  severity := severity
  clientId :=
    { region := handle.clientId.region, compCat := handle.clientId.compCat
      comp := handle.clientId.comp, clientName := c.id.clientId.clientName
      ext := c.id.clientId.ext }
  seqnum := c.seqnum
  locationId := c.id.locationId

theorem advanced_zero (c : ClientInfo) : advanced c 0 = c := by
  simp [advanced]

theorem advanced_succ (c : ClientInfo) (n : Nat) : advanced (advanced c n) 1 = advanced c (n + 1) := by
  simp only [advanced, UInt16.ofNat_add, UInt16.add_assoc]

theorem local_advanced : Local fun c => { c with seqnum := c.seqnum + 1 } :=
  ⟨fun _ => rfl, fun _ => rfl, fun _ => rfl⟩

/-- A call that does not pass the checks fails and leaves the client; any other fills its handle. -/
theorem publish_cases {eventName : CStr} {properties : Option EventProperties}
    {eventHandle out : Option EventHandle} {ret : Ret} (hc : Has handle c s)
    (h : publish w handle eventName properties eventHandle s = some (ret, out, s')) :
    (¬Passes handle c eventName properties eventHandle ∧ ret ≠ .success ∧ Has handle c s') ∨
      (Passes handle c eventName properties eventHandle ∧ Has handle (advanced c 1) s' ∧
        ∃ details, c.declaredEventsMap.find? eventName = some details ∧
          out = some (issued handle (advanced c 1) eventName details.severity)) := by
  simp only [publish] at h
  split at h
  · rename_i hvalid
    cases h
    exact .inl ⟨fun hp => hvalid hp.valid, by simp, hc⟩
  rename_i hvalid
  split at h
  · rename_i hnull
    cases h
    refine .inl ⟨fun hp => ?_, by simp, hc⟩
    rw [Option.isNone_iff_eq_none] at hnull
    simpa [hnull] using hp.pointer
  rename_i hnull
  split at h
  · rename_i hname
    cases h
    refine .inl ⟨fun hp => ?_, by simp, hc⟩
    have := hp.name
    omega
  rename_i hname
  rw [Option.bind_eq_bind, Option.bind_eq_some_iff] at h
  obtain ⟨⟨r, t⟩, hcheck, h⟩ := h
  have hct : Has handle c t := hc.progress (progress_checkProgress hcheck)
  obtain ⟨c', hl, hcore⟩ := hct
  have hmap : c'.declaredEventsMap = c.declaredEventsMap := eq_of_core (fun _ => rfl) hcore
  dsimp only at h
  rw [hl] at h
  dsimp only at h
  rw [hmap] at h
  split at h
  · rename_i hfind
    cases h
    exact .inl ⟨fun hp => by simpa [hfind] using hp.declared, by simp, c', hl, hcore⟩
  rename_i details hfind
  split at h
  · rename_i hty
    cases h
    refine .inl ⟨fun hp => ?_, by simp, c', hl, hcore⟩
    exact hp.type.elim hty.1 hty.2
  rename_i hty
  simp only [Option.bind_eq_some_iff, Option.pure_def, Option.some.injEq, Prod.mk.injEq] at h
  obtain ⟨⟨r₂, u⟩, hsend, rfl, rfl, rfl⟩ := h
  have hid : c'.id = c.id := eq_of_core (fun _ => rfl) hcore
  have hseq : c'.seqnum = c.seqnum := eq_of_core (fun _ => rfl) hcore
  refine .inr ⟨⟨not_not.1 hvalid, ?_, by omega, by simp [hfind], ?_⟩, ?_, details, hfind, ?_⟩
  · rwa [Bool.not_eq_true, Option.isNone_eq_false_iff] at hnull
  · by_contra hno
    exact hty (not_or.1 hno)
  · exact (Has.update ⟨c', hl, hcore⟩ local_advanced).progress (sent_sendMsg hsend).progress
  · simp only [publishedHandle, publishedEvent, issued, advanced, hid, hseq]
    rfl

/-! ## Runs of calls -/

theorem passes_advanced {n : Nat} {a : Publication} :
    a.Passes handle (advanced c n) ↔ a.Passes handle c :=
  ⟨fun h => ⟨h.1, h.2, h.3, h.4, h.5⟩, fun h => ⟨h.1, h.2, h.3, h.4, h.5⟩⟩

theorem passed_concat (calls : List Publication) (a : Publication) :
    passed handle c (calls ++ [a]) =
      passed handle c calls + if a.Passes handle c then 1 else 0 := by
  simp [passed, List.countP_append, List.countP_singleton]

/-- What a run leaves of the client, and the handle that each call returned. -/
structure Numbered (handle : ClientHandle) (c : ClientInfo) (calls : List Publication) (s : Lib N) :
    Prop where
  now : Has handle (advanced c (passed handle c calls)) s
  issued : ∀ pre a post, calls = pre ++ a :: post → a.ret = .success →
    a.Passes handle c ∧ ∃ details, c.declaredEventsMap.find? a.eventName = some details ∧
      a.out = some (issued handle (advanced c (passed handle c pre + 1)) a.eventName
        details.severity)

theorem Publishing.numbered {s₀ : Lib N} {calls : List Publication} (hc : Has handle c s₀)
    (hr : Publishing w handle s₀ calls s) : Numbered handle c calls s := by
  induction hr with
  | start =>
    refine ⟨?_, fun pre a post h => ?_⟩
    · rw [passed, List.countP_nil, advanced_zero]
      exact hc
    · cases pre <;> cases h
  | net net _ ih => exact ⟨ih.now.progress (.withNet net _), ih.issued⟩
  | thread _ h ih => exact ⟨ih.now.progress (progress_callbackThreadClient h), ih.issued⟩
  | @call calls s s' b _ h ih =>
    rcases publish_cases ih.now h with ⟨hno, hret, hhas⟩ | ⟨hp, hhas, details, hfind, hout⟩
    · rw [← Publication.Passes, passes_advanced] at hno
      refine ⟨by rwa [passed_concat, if_neg hno, Nat.add_zero], fun pre a post heq hs => ?_⟩
      rcases Trace.split_concat heq with ⟨rfl, rfl, rfl⟩ | ⟨post, rfl, rfl⟩
      · exact absurd hs hret
      · exact ih.issued pre a post rfl hs
    · rw [← Publication.Passes, passes_advanced] at hp
      rw [advanced_succ] at hhas hout
      refine ⟨by rwa [passed_concat, if_pos hp], fun pre a post heq hs => ?_⟩
      rcases Trace.split_concat heq with ⟨rfl, rfl, rfl⟩ | ⟨post, rfl, rfl⟩
      · exact ⟨hp, details, hfind, hout⟩
      · exact ih.issued pre a post rfl hs

/-! ## When handles compare equal -/

theorem seqnum_advanced {m k : Nat} :
    (advanced c m).seqnum = (advanced c k).seqnum ↔ m % 65536 = k % 65536 := by
  have hlt := c.seqnum.toNat_lt
  simp only [advanced, ← UInt16.toNat_inj, UInt16.toNat_add, UInt16.toNat_ofNat']
  omega

/-- Two handles of a client are equal if their names are, and `seqnum` has come to the same value. -/
theorem equal_issued {m k : Nat} {a b : CStr} {details details' : DeclaredEvent}
    (ha : c.declaredEventsMap.find? a = some details)
    (hb : c.declaredEventsMap.find? b = some details') :
    equalEventHandles (issued handle (advanced c m) a details.severity)
        (issued handle (advanced c k) b details'.severity) = true ↔
      strcaseEq a b = true ∧ m % 65536 = k % 65536 := by
  have hself : ∀ a : CStr, strcaseEq a a = true := fun a => KeyEq.refl a
  have heq : strcaseEq a b = true → strcaseEq details.severity details'.severity = true := by
    intro hab
    rw [KeyList.find?_congr hab, hb] at ha
    cases ha
    exact hself _
  have hid : ∀ n, (advanced c n).id = c.id := fun _ => rfl
  simp only [equalEventHandles, issued, Bool.and_eq_true, beq_iff_eq, seqnum_advanced, hself, hid,
    and_self, true_and]
  constructor
  · rintro ⟨⟨hab, -⟩, hseq⟩
    exact ⟨hab, hseq⟩
  · rintro ⟨hab, hseq⟩
    exact ⟨⟨hab, heq hab⟩, hseq⟩

/-- What `FTBC_Compare_event_handles` returns does not depend on what its `FTBCI_Check_progress`
receives. -/
theorem compare_ret {p q : EventHandle} {u u' : Lib N} {ret : Ret}
    (h : compareEventHandles w p q u = some (ret, u')) :
    ret = if equalEventHandles p q then .success else .failure := by
  simp only [compareEventHandles, Option.bind_eq_bind, Option.bind_eq_some_iff, Option.pure_def,
    Option.some.injEq, Prod.mk.injEq] at h
  obtain ⟨-, -, h, -⟩ := h
  exact h.symm

theorem compare_initial (net : N) {p q : EventHandle} (h : equalEventHandles p q = true) :
    ∃ u', compareEventHandles w p q (Lib.initial net) = some (.success, u') := by
  have hcheck : ∃ r, checkProgress w (Lib.initial net) = some r := ⟨_, rfl⟩
  obtain ⟨r, hr⟩ := hcheck
  exact ⟨r.2, by simp [compareEventHandles, hr, h]⟩

section
variable {s₀ : Lib N} {calls : List Publication}

/-- Two calls that returned `FTB_SUCCESS`, the second one later. -/
theorem Numbered.equal_iff (h : Numbered handle c calls s) {pre mid post : List Publication}
    {a b : Publication} {p q : EventHandle} (heq : calls = pre ++ a :: (mid ++ b :: post))
    (ha : a.ret = .success) (hb : b.ret = .success) (hp : a.out = some p) (hq : b.out = some q) :
    equalEventHandles p q = true ↔
      strcaseEq a.eventName b.eventName = true ∧ 65536 ∣ passed handle c mid + 1 := by
  obtain ⟨hpass, details, hfa, hoa⟩ := h.issued pre a _ heq ha
  obtain ⟨-, details', hfb, hob⟩ := h.issued (pre ++ a :: mid) b post (by simpa using heq) hb
  rw [hp, Option.some.injEq] at hoa
  rw [hq, Option.some.injEq] at hob
  have hcount : passed handle c (pre ++ a :: mid) =
      passed handle c pre + (passed handle c mid + 1) := by
    simp [passed, List.countP_append, hpass]
  rw [hoa, hob, hcount, equal_issued hfa hfb]
  refine and_congr_right fun _ => ?_
  omega

theorem equalEventHandles_comm (p q : EventHandle) : equalEventHandles p q = equalEventHandles q p := by
  have hbeq : ∀ {A : Type} [DecidableEq A] (a b : A), (a == b) = (b == a) := fun a b => by
    rw [Bool.eq_iff_iff, beq_iff_eq, beq_iff_eq]
    exact eq_comm
  simp only [equalEventHandles, KeyEq.comm strcaseEq p.clientId.region,
    KeyEq.comm strcaseEq p.clientId.compCat, KeyEq.comm strcaseEq p.clientId.comp,
    KeyEq.comm strcaseEq p.clientId.clientName, KeyEq.comm strcaseEq p.locationId.hostname,
    KeyEq.comm strcaseEq p.locationId.pidStarttime, KeyEq.comm strcaseEq p.eventName,
    KeyEq.comm strcaseEq p.severity, hbeq p.clientId.ext, hbeq p.locationId.pid, hbeq p.seqnum]

/-- **The handles of a run identify the events exactly if no two calls of one event are a multiple of
65536 steps of `seqnum` apart.** -/
theorem identify_iff (hl : lookupClientInfo handle s₀ = some (.ok c))
    (hr : Publishing w handle s₀ calls s) : Identify w calls ↔ Apart handle c calls := by
  have h := hr.numbered (Has.of_lookup hl)
  constructor
  · intro hid pre a mid b post heq ha hb hname hdvd
    obtain ⟨-, details, -, hp⟩ := h.issued pre a _ heq ha
    obtain ⟨-, details', -, hq⟩ := h.issued (pre ++ a :: mid) b post (by simpa using heq) hb
    have hequal := (h.equal_iff heq ha hb hp hq).2 ⟨hname, hdvd⟩
    obtain ⟨u', hu⟩ := compare_initial (w := w) s.manager.net hequal
    refine hid pre.length (pre.length + 1 + mid.length) a b _ _ (by omega) ?_ ?_ ha hb hp hq _ _ _
      hu rfl
    · simp [heq]
    · have hlist : calls = (pre ++ a :: mid) ++ b :: post := by simpa using heq
      have hlen : pre.length + 1 + mid.length = (pre ++ a :: mid).length := by
        rw [List.length_append, List.length_cons]
        omega
      rw [hlist, hlen, List.getElem?_append_right (Nat.le_refl _), Nat.sub_self]
      rfl
  · intro hapart
    have hlt : ∀ (i j : Nat) (a b : Publication) (p q : EventHandle), i < j →
        calls[i]? = some a → calls[j]? = some b → a.ret = .success → b.ret = .success →
        a.out = some p → b.out = some q → equalEventHandles p q = false := by
      intro i j a b p q hij hi hj ha hb hp hq
      have hj' : (calls.drop (i + 1))[j - (i + 1)]? = some b := by
        rw [List.getElem?_drop, Nat.add_sub_cancel' (by omega), hj]
      have heq := Trace.split_at hi
      rw [Trace.split_at hj'] at heq
      refine Bool.eq_false_iff.2 fun hequal => ?_
      obtain ⟨hname, hdvd⟩ := (h.equal_iff heq ha hb hp hq).1 hequal
      exact hapart _ a _ b _ heq ha hb hname hdvd
    intro i j a b p q hne hi hj ha hb hp hq u u' ret hcompare
    rw [compare_ret hcompare]
    rcases Nat.lt_or_gt_of_ne hne with hij | hij
    · simp [hlt i j a b p q hij hi hj ha hb hp hq]
    · simp [equalEventHandles_comm p q, hlt j i b a q p hij hj hi hb ha hq hp]

end

/-! ### Runs of one event -/

/-- A client that connects and declares its event. -/
def declaredRun : Option (ClientHandle × Lib (List Msg)) :=
  match simpleRun with
  | some (handle, s) =>
    match declarePublishableEvents simpleAgent handle none
      [⟨"SIMPLE_EVENT".toList, "info".toList⟩] s with
    | some (.success, s') => some (handle, s')
    | _ => none
  | none => none

/-- The client can publish its event. -/
def canPublish (r : ClientHandle × Lib (List Msg)) : Bool :=
  match lookupClientInfo r.1 r.2 with
  | some (.ok c) =>
    r.1.valid == 1 && (c.declaredEventsMap.find? "SIMPLE_EVENT".toList).isSome
      && r.2.enableCallback == 0 && r.2.manager.info.initialized
  | _ => false

/-- A call that publishes the event. -/
def simplePublication (out : EventHandle) : Publication :=
  ⟨"SIMPLE_EVENT".toList, none, some default, .success, some out⟩

theorem canPublish_iff {s : Lib (List Msg)} : canPublish (handle, s) = true ↔
    ∃ c, lookupClientInfo handle s = some (.ok c) ∧ handle.valid = 1 ∧
      (c.declaredEventsMap.find? "SIMPLE_EVENT".toList).isSome = true ∧ s.enableCallback = 0 ∧
        s.manager.info.initialized = true := by
  simp only [canPublish]
  split
  · rename_i c hl
    simp [hl, and_assoc]
  · rename_i hno
    simp only [Bool.false_eq_true, false_iff]
    rintro ⟨c, hl, -⟩
    exact hno c hl

theorem publish_simple {s : Lib (List Msg)} (h : canPublish (handle, s) = true) :
    ∃ out s', publish simpleAgent handle "SIMPLE_EVENT".toList none (some default) s =
      some (.success, some out, s') ∧ canPublish (handle, s') = true := by
  obtain ⟨c, hl, hvalid, hfind, hcallback, hinit⟩ := canPublish_iff.1 h
  obtain ⟨details, hdetails⟩ := Option.isSome_iff_exists.1 hfind
  have hcheck : checkProgress simpleAgent s = some (.noMsg, s) := by
    simp [checkProgress, hcallback, checkLoop, getMsg, FTBM.get, hinit, simpleAgent, leafOutbox]
    rw [← hcallback]
  have hsend : ∀ msg (t : Lib (List Msg)), t.manager = s.manager →
      sendMsg simpleAgent msg t = some (.success, { t with
        manager := { t.manager with net := t.manager.net ++ [msg] } }) := by
    intro msg t ht
    simp [sendMsg, FTBM.send, ht, hinit, simpleAgent, leafOutbox, outbox]
  have hname : ¬("SIMPLE_EVENT".toList.length = 0 ∨
      "SIMPLE_EVENT".toList.length ≥ maxEventName) := by decide
  refine ⟨?_, ?_, ?_, ?_⟩
  rotate_left 2
  · rw [publish, if_neg (not_not.2 hvalid), if_neg (by simp), if_neg hname, hcheck]
    simp only [Option.bind_eq_bind, Option.bind_some, hl, hdetails]
    rw [if_neg (by decide), hsend _ (s.update handle fun c => { c with seqnum := c.seqnum + 1 }) rfl]
    rfl
  · exact canPublish_iff.2 ⟨_, lookup_update local_advanced hl, hvalid, hfind, hcallback, hinit⟩

/-- A run of any length that publishes the event only. -/
theorem publishing_simple {s₀ : Lib (List Msg)} (h : canPublish (handle, s₀) = true) (n : Nat) :
    ∃ calls s, Publishing simpleAgent handle s₀ calls s ∧ canPublish (handle, s) = true ∧
      calls.length = n ∧ ∀ a ∈ calls, ∃ out, a = simplePublication out := by
  induction n with
  | zero => exact ⟨[], s₀, .start, h, rfl, by simp⟩
  | succ n ih =>
    obtain ⟨calls, s, hr, hs, hlen, hall⟩ := ih
    obtain ⟨out, s', hp, hs'⟩ := publish_simple hs
    refine ⟨_, s', .call (simplePublication out) hr hp, hs', by simp [hlen], fun a ha => ?_⟩
    rcases List.mem_append.1 ha with ha | ha
    · exact hall a ha
    · exact ⟨out, List.mem_singleton.1 ha⟩

theorem declaredRun_canPublish :
    ∃ handle s₀, declaredRun = some (handle, s₀) ∧ canPublish (handle, s₀) = true := by
  have hany : declaredRun.any canPublish = true := by decide +kernel
  obtain ⟨⟨handle, s₀⟩, hrun, hs⟩ := (Option.any_eq_true _ _).1 hany
  exact ⟨handle, s₀, hrun, hs⟩

/-- Two events of a new client have two handles. -/
theorem identify_iff_two : ∃ handle s₀ calls s, declaredRun = some (handle, s₀) ∧
    Publishing simpleAgent handle s₀ calls s ∧ calls.length = 2 ∧ ∃ c,
      lookupClientInfo handle s₀ = some (.ok c) ∧
        (Identify simpleAgent calls ↔ Apart handle c calls) := by
  obtain ⟨handle, s₀, hrun, hs⟩ := declaredRun_canPublish
  obtain ⟨calls, s, hr, -, hlen, -⟩ := publishing_simple hs 2
  obtain ⟨c, hl, -⟩ := canPublish_iff.1 hs
  exact ⟨handle, s₀, calls, s, hrun, hr, hlen, c, hl, identify_iff hl hr⟩

/-- The first and the last of 65537 events of a new client have handles that compare equal. -/
theorem seqnum_wraps : ∃ handle s₀ calls s, declaredRun = some (handle, s₀) ∧
    Publishing simpleAgent handle s₀ calls s ∧ calls.length = 65537 ∧
    (∀ a ∈ calls, a.ret = .success) ∧ ¬Identify simpleAgent calls := by
  obtain ⟨handle, s₀, hrun, hs⟩ := declaredRun_canPublish
  obtain ⟨calls, s, hr, -, hlen, hall⟩ := publishing_simple hs 65537
  obtain ⟨c, hl, -⟩ := canPublish_iff.1 hs
  refine ⟨handle, s₀, calls, s, hrun, hr, hlen, fun a ha => ?_, fun hid => ?_⟩
  · obtain ⟨out, rfl⟩ := hall a ha
    rfl
  have h := hr.numbered (Has.of_lookup hl)
  obtain ⟨a, mid, b, rfl, hmid⟩ : ∃ a mid b, calls = a :: (mid ++ [b]) ∧ mid.length = 65535 := by
    obtain ⟨a, rest, rfl⟩ := List.exists_cons_of_length_eq_add_one hlen
    rcases List.eq_nil_or_concat rest with rfl | ⟨mid, b, rfl⟩
    · cases hlen
    · exact ⟨a, mid, b, by rw [List.concat_eq_append], by simpa using hlen⟩
  obtain ⟨p, rfl⟩ := hall a (by simp)
  obtain ⟨q, rfl⟩ := hall b (by simp)
  -- every call passed the checks
  have hpassed : passed handle c mid = mid.length := by
    rw [passed, List.countP_eq_length]
    intro x hx
    obtain ⟨pre, post, rfl⟩ := List.append_of_mem hx
    obtain ⟨out, rfl⟩ := hall x (by simp)
    have heq : simplePublication p :: (pre ++ simplePublication out :: post ++ [simplePublication q]) =
        (simplePublication p :: pre) ++ simplePublication out :: (post ++ [simplePublication q]) := by
      simp
    exact decide_eq_true (h.issued _ _ _ heq rfl).1
  have heq : simplePublication p :: (mid ++ [simplePublication q]) =
      [] ++ simplePublication p :: (mid ++ simplePublication q :: []) := rfl
  have hequal := (h.equal_iff heq rfl rfl rfl rfl).2 ⟨KeyEq.refl _, by simp [hpassed, hmid]⟩
  obtain ⟨u', hu⟩ := compare_initial (w := simpleAgent) [] hequal
  have hlast : (simplePublication p :: (mid ++ [simplePublication q]))[65536]? =
      some (simplePublication q) := by
    rw [List.getElem?_cons_succ, List.getElem?_append_right (by omega), hmid]
    rfl
  exact hid 0 65536 _ _ p q (by omega) rfl hlast rfl rfl rfl rfl _ u' _ hu rfl

end FTBC
