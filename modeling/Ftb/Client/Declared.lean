import Ftb.Client.Handles
import Ftb.Client.Schema

/-!
# What a successful declaration declares

`FTBC_Declare_publishable_events` with a file declares every event of the file. With a table it stops
at the first event that is already declared, by an earlier call or an earlier entry, and returns
`FTB_SUCCESS`: the entries behind it are not looked at (`declaresAll_iff`).
-/

open FTB FTBU FTBN FTBMI FTBCI CStr

namespace FTBC

variable {N : Type} {w : LeafNetwork N} {handle : ClientHandle} {s s' : Lib N} {c c' : ClientInfo}

/-- The entries of the table, or of the file. -/
def entries (schemaFile : Option CStr) (einfo : List EventInfo) : List EventInfo :=
  match schemaFile with
  | some text => (layout (Words.words isSpace text)).events
  | none => einfo

/-- `FTBC_Publish` gets as far as the message: the name is declared. -/
def Publishes (w : LeafNetwork N) (handle : ClientHandle) (eventName : CStr) (s : Lib N) : Prop :=
  ∀ (net : N) (properties : Option EventProperties) (eventHandle out : Option EventHandle) (ret : Ret)
    (s' : Lib N), eventHandle.isSome = true →
    0 < eventName.length ∧ eventName.length < maxEventName →
    eventType properties = 1 ∨ eventType properties = 2 →
    publish w handle eventName properties eventHandle (s.withNet net) = some (ret, out, s') →
    ∃ filled, out = some filled ∧ filled.eventName = eventName

/-- A call that returns `FTB_SUCCESS` declares all its entries, and leaves what was declared. -/
def DeclaresAll (w : LeafNetwork N) (handle : ClientHandle) (schemaFile : Option CStr)
    (einfo : List EventInfo) (c : ClientInfo) (s : Lib N) : Prop :=
  ∀ s', declarePublishableEvents w handle schemaFile einfo s = some (.success, s') →
    ∃ c', lookupClientInfo handle s' = some (.ok c') ∧
      (∀ e ∈ entries schemaFile einfo, c'.declaredEventsMap.contains e.eventName = true ∧
        Publishes w handle e.eventName s') ∧
      ∀ eventName details, c.declaredEventsMap.find? eventName = some details →
        c'.declaredEventsMap.find? eventName = some details

/-- The event is declared, or is one of the entries. -/
def Known (c : ClientInfo) (table : List EventInfo) (e : EventInfo) : Prop :=
  c.declaredEventsMap.contains e.eventName = true ∨
    ∃ x ∈ table, strcaseEq x.eventName e.eventName = true

/-- The loop of `FTBCI_store_declared_events` has stored the entries. -/
structure Stored (c : ClientInfo) (table : List EventInfo) : Prop where
  valid : ∀ e ∈ table, e.Valid
  room : table ≠ [] → c.totalPublishEvents + table.length ≤ maxEventsPerClient
  new : ∀ pre e post, table = pre ++ e :: post → ¬Known c pre e

/-- The loop comes to an entry that is known. -/
structure StopsAt (c : ClientInfo) (einfo pre : List EventInfo) (e : EventInfo)
    (post : List EventInfo) : Prop where
  split : einfo = pre ++ e :: post
  stored : Stored c pre
  valid : e.Valid
  room : c.totalPublishEvents + pre.length < maxEventsPerClient
  known : Known c pre e

/-! ## Declared events -/

theorem declaredEventsMap_declare (c : ClientInfo) (e : EventInfo) :
    (c.declare e).declaredEventsMap = c.declaredEventsMap.insert ⟨e.eventName, e.severity⟩ := by
  rw [ClientInfo.declare]
  split
  · rename_i h
    exact (KeyList.insert_of_contains h).symm
  · rfl

theorem contains_declareAll {table : List EventInfo} {e : EventInfo} :
    (c.declareAll table).declaredEventsMap.contains e.eventName = true ↔ Known c table e := by
  induction table using List.reverseRecOn with
  | nil => simp [ClientInfo.declareAll, Known]
  | append_singleton table x ih =>
    rw [declareAll_concat, declaredEventsMap_declare, KeyList.contains_eq_isSome,
      KeyList.find?_insert_isSome', ← KeyList.contains_eq_isSome, ih]
    simp only [Known, List.mem_append, List.mem_singleton, or_and_right, exists_or, exists_eq_left,
      or_assoc]

theorem find?_declareAll {eventName : CStr} {details : DeclaredEvent}
    (h : c.declaredEventsMap.find? eventName = some details) (table : List EventInfo) :
    (c.declareAll table).declaredEventsMap.find? eventName = some details := by
  induction table using List.reverseRecOn with
  | nil => exact h
  | append_singleton table x ih =>
    rw [declareAll_concat, declaredEventsMap_declare]
    exact KeyList.find?_insert_of_find? ih _

/-! ## The table -/

section
variable {e x : EventInfo} {einfo table pre post : List EventInfo}

theorem known_nil : Known c [] e ↔ c.declaredEventsMap.contains e.eventName = true := by
  simp [Known]

theorem known_insertEvent : Known (c.insertEvent e) table x ↔ Known c (e :: table) x := by
  have hmap : (c.insertEvent e).declaredEventsMap =
      c.declaredEventsMap.insert ⟨e.eventName, e.severity⟩ := rfl
  rw [Known, Known, hmap, KeyList.contains_eq_isSome, KeyList.find?_insert_isSome',
    ← KeyList.contains_eq_isSome]
  simp only [List.mem_cons, or_and_right, exists_or, exists_eq_left, or_assoc]

theorem stored_cons : Stored c (e :: table) ↔
    e.Valid ∧ c.totalPublishEvents < maxEventsPerClient ∧ ¬Known c [] e ∧
      Stored (c.insertEvent e) table := by
  have htotal : (c.insertEvent e).totalPublishEvents = c.totalPublishEvents + 1 := rfl
  constructor
  · rintro ⟨hvalid, hroom, hnew⟩
    have hroom := hroom (List.cons_ne_nil e table)
    rw [List.length_cons] at hroom
    refine ⟨hvalid e List.mem_cons_self, by omega, hnew [] e table rfl,
      fun x hx => hvalid x (List.mem_cons_of_mem e hx), fun _ => by omega, fun pre x post heq => ?_⟩
    rw [known_insertEvent]
    exact hnew (e :: pre) x post (by rw [heq, List.cons_append])
  · rintro ⟨hvalid, hroom, hnew, hvalid', hroom', hnew'⟩
    refine ⟨fun x hx => ?_, fun _ => ?_, fun pre x post heq => ?_⟩
    · rcases List.mem_cons.1 hx with rfl | hx
      · exact hvalid
      · exact hvalid' x hx
    · rw [List.length_cons]
      cases table with
      | nil =>
        rw [List.length_nil]
        omega
      | cons y table =>
        have := hroom' (List.cons_ne_nil y table)
        omega
    · cases pre with
      | nil =>
        obtain ⟨rfl, rfl⟩ := List.cons.inj heq
        exact hnew
      | cons y pre =>
        obtain ⟨rfl, htable⟩ := List.cons.inj heq
        have := hnew' pre x post htable
        rwa [known_insertEvent] at this

theorem stopsAt_cons : StopsAt c (e :: einfo) (e :: pre) x post ↔
    e.Valid ∧ c.totalPublishEvents < maxEventsPerClient ∧ ¬Known c [] e ∧
      StopsAt (c.insertEvent e) einfo pre x post := by
  have htotal : (c.insertEvent e).totalPublishEvents = c.totalPublishEvents + 1 := rfl
  constructor
  · rintro ⟨hsplit, hstored, hvalid, hroom, hknown⟩
    obtain ⟨he, hlt, hnew, hstored⟩ := stored_cons.1 hstored
    rw [List.length_cons] at hroom
    exact ⟨he, hlt, hnew, (List.cons.inj hsplit).2, hstored, hvalid, by omega,
      known_insertEvent.2 hknown⟩
  · rintro ⟨he, hlt, hnew, hsplit, hstored, hvalid, hroom, hknown⟩
    refine ⟨by rw [hsplit, List.cons_append], stored_cons.2 ⟨he, hlt, hnew, hstored⟩, hvalid, ?_,
      known_insertEvent.1 hknown⟩
    rw [List.length_cons]
    omega

theorem stopsAt_nil : StopsAt c (e :: einfo) [] x post ↔
    x = e ∧ post = einfo ∧ e.Valid ∧ c.totalPublishEvents < maxEventsPerClient ∧ Known c [] e := by
  constructor
  · rintro ⟨hsplit, -, hvalid, hroom, hknown⟩
    obtain ⟨rfl, rfl⟩ := List.cons.inj hsplit
    exact ⟨rfl, rfl, hvalid, by simpa using hroom, hknown⟩
  · rintro ⟨rfl, rfl, hvalid, hroom, hknown⟩
    exact ⟨rfl, ⟨by simp, by simp, by simp⟩, hvalid, by simpa using hroom, hknown⟩

theorem declareAll_cons (h : ¬Known c [] e) :
    c.declareAll (e :: table) = (c.insertEvent e).declareAll table := by
  rw [ClientInfo.declareAll, List.foldl_cons, ClientInfo.declare, if_neg (mt known_nil.2 h)]
  rfl

theorem store_cons : storeDeclaredEvents (e :: einfo) c = (.success, c') ↔
    e.Valid ∧ c.totalPublishEvents < maxEventsPerClient ∧ (Known c [] e ∧ c' = c ∨
      ¬Known c [] e ∧ storeDeclaredEvents einfo (c.insertEvent e) = (.success, c')) := by
  rw [storeDeclaredEvents, known_nil, EventInfo.Valid]
  by_cases hroom : c.totalPublishEvents < maxEventsPerClient
  · rw [if_neg (by omega)]
    by_cases hname : isEventName e.eventName = true <;>
      by_cases hseverity : checkSeverityValues e.severity = true <;>
        by_cases hknown : c.declaredEventsMap.contains e.eventName = true <;>
          simp [hroom, hname, hseverity, hknown, eq_comm]
  · rw [if_pos (by omega)]
    simp [hroom]

/-- A table whose storing returns `FTB_SUCCESS` is stored, or up to an entry that is known. -/
theorem storeDeclaredEvents_success : storeDeclaredEvents einfo c = (.success, c') ↔
    Stored c einfo ∧ c' = c.declareAll einfo ∨
      ∃ pre e post, StopsAt c einfo pre e post ∧ c' = c.declareAll pre := by
  induction einfo generalizing c with
  | nil =>
    have hstored : Stored c [] := ⟨by simp, by simp, by simp⟩
    rw [storeDeclaredEvents, Prod.mk.injEq, and_iff_right rfl, and_iff_right hstored]
    refine ⟨fun h => .inl h.symm, fun h => ?_⟩
    rcases h with rfl | ⟨pre, e, post, hstop, -⟩
    · rfl
    · exact absurd hstop.split (by simp)
  | cons e einfo ih =>
    -- the first entry is taken, known, or refused
    have hcases : (∃ pre x post, StopsAt c (e :: einfo) pre x post ∧ c' = c.declareAll pre) ↔
        e.Valid ∧ c.totalPublishEvents < maxEventsPerClient ∧ (Known c [] e ∧ c' = c ∨
          ¬Known c [] e ∧ ∃ pre x post, StopsAt (c.insertEvent e) einfo pre x post ∧
            c' = (c.insertEvent e).declareAll pre) := by
      constructor
      · rintro ⟨_ | ⟨y, pre⟩, x, post, hstop, hc'⟩
        · obtain ⟨-, -, hv, hroom, hk⟩ := stopsAt_nil.1 hstop
          exact ⟨hv, hroom, .inl ⟨hk, hc'⟩⟩
        · obtain rfl : e = y := (List.cons.inj hstop.split).1
          obtain ⟨hv, hroom, hk, hstop⟩ := stopsAt_cons.1 hstop
          rw [declareAll_cons hk] at hc'
          exact ⟨hv, hroom, .inr ⟨hk, pre, x, post, hstop, hc'⟩⟩
      · rintro ⟨hv, hroom, ⟨hk, rfl⟩ | ⟨hk, pre, x, post, hstop, hc'⟩⟩
        · exact ⟨[], e, einfo, stopsAt_nil.2 ⟨rfl, rfl, hv, hroom, hk⟩, rfl⟩
        · refine ⟨e :: pre, x, post, stopsAt_cons.2 ⟨hv, hroom, hk, hstop⟩, ?_⟩
          rw [declareAll_cons hk, hc']
    rw [hcases, stored_cons, store_cons, ih]
    constructor
    · rintro ⟨hv, hroom, hc' | ⟨hk, ⟨hstored, hc'⟩ | hstop⟩⟩
      · exact .inr ⟨hv, hroom, .inl hc'⟩
      · exact .inl ⟨⟨hv, hroom, hk, hstored⟩, by rw [declareAll_cons hk, hc']⟩
      · exact .inr ⟨hv, hroom, .inr ⟨hk, hstop⟩⟩
    · rintro (⟨⟨hv, hroom, hk, hstored⟩, hc'⟩ | ⟨hv, hroom, hc' | ⟨hk, hstop⟩⟩)
      · rw [declareAll_cons hk] at hc'
        exact ⟨hv, hroom, .inr ⟨hk, .inl ⟨hstored, hc'⟩⟩⟩
      · exact ⟨hv, hroom, .inl hc'⟩
      · exact ⟨hv, hroom, .inr ⟨hk, .inr hstop⟩⟩

end

/-! ## The call -/

section
variable {schemaFile : Option CStr} {einfo : List EventInfo}

theorem publishes_of_has {e : EventInfo} (hvalid : handle.valid = 1) (hc : Has handle c s)
    (he : c.declaredEventsMap.contains e.eventName = true) : Publishes w handle e.eventName s := by
  rintro net properties eventHandle out ret s' hpointer hname htype h
  rw [KeyList.contains_eq_isSome] at he
  rcases publish_cases (hc.progress (.withNet net s)) h with ⟨hno, -⟩ | ⟨-, -, details, -, hout⟩
  · exact absurd ⟨hvalid, hpointer, hname, he, htype⟩ hno
  · exact ⟨_, hout, rfl⟩

theorem lookup_declareAll (hl : lookupClientInfo handle s = some (.ok c)) (table : List EventInfo) :
    lookupClientInfo handle (s.update handle fun _ => c.declareAll table) =
      some (.ok (c.declareAll table)) := by
  have hown : (c.declareAll table).clientHandle = c.clientHandle ∧
      (c.declareAll table).freed = c.freed := by
    induction table using List.reverseRecOn with
    | nil => exact ⟨rfl, rfl⟩
    | append_singleton table e ih =>
      have he := declare_own (c.declareAll table) e
      rw [declareAll_concat]
      exact ⟨he.1.trans ih.1, he.2.trans ih.2⟩
  exact lookup_update_own hl hown.1 (hown.2.trans (freed_of_lookup hl))

/-- What a call leaves of the client, when it returns `FTB_SUCCESS`. -/
theorem declare_success (hl : lookupClientInfo handle s = some (.ok c))
    (h : declarePublishableEvents w handle schemaFile einfo s = some (.success, s')) :
    handle.valid = 1 ∧ ∃ table, Has handle (c.declareAll table) s' ∧
      (table = entries schemaFile einfo ∨
        schemaFile = none ∧ ∃ e post, StopsAt c einfo table e post) := by
  simp only [declarePublishableEvents] at h
  split at h
  · cases h
  rename_i hvalid
  refine ⟨not_not.1 hvalid, ?_⟩
  cases schemaFile with
  | some text =>
    simp only [Option.bind_eq_bind, Option.bind_eq_some_iff] at h
    obtain ⟨⟨ret, t⟩, hcheck, h⟩ := h
    split at h
    · rename_i hret
      cases h
      exact absurd rfl hret
    · rename_i hret
      simp only [Option.bind_eq_some_iff, Option.pure_def, Option.some.injEq, Prod.mk.injEq,
        true_and] at h
      obtain ⟨⟨ret', u⟩, hprogress, rfl⟩ := h
      obtain rfl : ret = .success := not_not.1 hret
      exact ⟨_, (Has.of_lookup (checkSchemaFile_success hl hcheck)).progress
        (progress_checkProgress hprogress), .inl rfl⟩
  | none =>
    rw [hl] at h
    dsimp only at h
    rw [Option.some.injEq, Prod.mk.injEq] at h
    obtain ⟨hret, rfl⟩ := h
    have hstored : ∀ table, (storeDeclaredEvents einfo c).2 = c.declareAll table →
        Has handle (c.declareAll table)
          (s.update handle fun _ => (storeDeclaredEvents einfo c).2) := by
      intro table htable
      rw [htable]
      exact Has.of_lookup (lookup_declareAll hl table)
    rcases storeDeclaredEvents_success.1 (Prod.ext hret rfl) with
      ⟨-, hc'⟩ | ⟨pre, e, post, hstop, hc'⟩
    · exact ⟨einfo, hstored einfo hc', .inl rfl⟩
    · exact ⟨pre, hstored pre hc', .inr ⟨rfl, e, post, hstop⟩⟩

/-- **A call with a file declares everything; a call with a table does exactly if no entry is known
before one that is not.** -/
theorem declaresAll_iff (hl : lookupClientInfo handle s = some (.ok c)) :
    DeclaresAll w handle schemaFile einfo c s ↔
      (handle.valid = 1 → schemaFile = none → ∀ pre e post, StopsAt c einfo pre e post →
        ∀ x ∈ post, Known c pre x) := by
  constructor
  · rintro hall hvalid rfl pre e post hstop x hx
    have hstore : storeDeclaredEvents einfo c = (.success, c.declareAll pre) :=
      storeDeclaredEvents_success.2 (.inr ⟨pre, e, post, hstop, rfl⟩)
    have hcall : declarePublishableEvents w handle none einfo s =
        some (.success, s.update handle fun _ => c.declareAll pre) := by
      simp [declarePublishableEvents, hvalid, hl, hstore]
    obtain ⟨c', hl', hentries, -⟩ := hall _ hcall
    rw [lookup_declareAll hl pre, Option.some.injEq, Except.ok.injEq] at hl'
    have hmem : x ∈ entries none einfo := by
      rw [entries, hstop.split]
      simp [hx]
    have hx' := (hentries x hmem).1
    rw [← hl'] at hx'
    exact contains_declareAll.1 hx'
  · intro hcond s' h
    obtain ⟨hvalid, table, hhas, htable⟩ := declare_success hl h
    have hknown : ∀ e ∈ entries schemaFile einfo, Known c table e := by
      intro e he
      rcases htable with rfl | ⟨rfl, x, post, hstop⟩
      · exact .inr ⟨e, he, KeyEq.refl _⟩
      · rw [entries, hstop.split, List.mem_append, List.mem_cons] at he
        rcases he with he | rfl | he
        · exact .inr ⟨e, he, KeyEq.refl _⟩
        · exact hstop.known
        · exact hcond hvalid rfl table x post hstop e he
    obtain ⟨c', hl', hcore⟩ := hhas
    have hmap : c'.declaredEventsMap = (c.declareAll table).declaredEventsMap :=
      eq_of_core (fun _ => rfl) hcore
    refine ⟨c', hl', fun e he => ?_, fun eventName details hfind => ?_⟩
    · have he' := contains_declareAll.2 (hknown e he)
      rw [← hmap] at he'
      exact ⟨he', publishes_of_has hvalid (Has.of_lookup hl') he'⟩
    · rw [hmap]
      exact find?_declareAll hfind table

end

/-! ### A table with an event that is declared -/

def simpleTable : List EventInfo :=
  [⟨"SIMPLE_EVENT".toList, "info".toList⟩, ⟨"SECOND_EVENT".toList, "info".toList⟩]

/-- The client has declared the event. -/
def hasDeclared (eventName : CStr) (handle : ClientHandle) (s : Lib (List Msg)) : Bool :=
  match lookupClientInfo handle s with
  | some (.ok c) => c.declaredEventsMap.contains eventName
  | _ => false

theorem declaresAll_iff_simple : ∃ handle s c, simpleRun = some (handle, s) ∧
    lookupClientInfo handle s = some (.ok c) ∧
      (DeclaresAll simpleAgent handle none simpleTable c s ↔
        (handle.valid = 1 → (none : Option CStr) = none → ∀ pre e post,
          StopsAt c simpleTable pre e post → ∀ x ∈ post, Known c pre x)) := by
  have hany : simpleRun.any hasClient = true := by decide +kernel
  obtain ⟨⟨handle, s⟩, hrun, hclient⟩ := (Option.any_eq_true _ _).1 hany
  obtain ⟨c, hl⟩ := hasClient_iff.1 hclient
  exact ⟨handle, s, c, hrun, hl, declaresAll_iff hl⟩

/-- A client that declared the first event of the table, and now declares the table: the call returns
`FTB_SUCCESS`, and the second event is not declared. -/
theorem secondEvent_undeclared : ∃ handle s c, declaredRun = some (handle, s) ∧
    lookupClientInfo handle s = some (.ok c) ∧
      ¬DeclaresAll simpleAgent handle none simpleTable c s := by
  have hany : (declaredRun.any fun r => hasClient r &&
      (declarePublishableEvents simpleAgent r.1 none simpleTable r.2).any fun x =>
        x.1 = .success && !hasDeclared "SECOND_EVENT".toList r.1 x.2) = true := by
    decide +kernel
  obtain ⟨⟨handle, s⟩, hrun, hr⟩ := (Option.any_eq_true _ _).1 hany
  obtain ⟨hclient, hcall⟩ := (Bool.and_eq_true _ _).mp hr
  obtain ⟨c, hl⟩ := hasClient_iff.1 hclient
  refine ⟨handle, s, c, hrun, hl, fun hall => ?_⟩
  obtain ⟨⟨ret, s'⟩, hcall, hs'⟩ := (Option.any_eq_true _ _).1 hcall
  simp only [Bool.and_eq_true, decide_eq_true_eq, Bool.not_eq_true'] at hs'
  obtain ⟨rfl, hno⟩ := hs'
  obtain ⟨c', hl', hentries, -⟩ := hall s' hcall
  have hdeclared := (hentries ⟨"SECOND_EVENT".toList, "info".toList⟩ (by simp [entries, simpleTable])).1
  rw [hasDeclared, hl'] at hno
  dsimp only at hno
  rw [hno] at hdeclared
  cases hdeclared

end FTBC
