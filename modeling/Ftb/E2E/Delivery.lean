import Ftb.E2E.Proof.Run

/-!
# From `FTBC_Publish` to the application

What the applications are given of the events of others, over any run of processes and agents: nothing
that no client has published, the events of one client in the order of its calls of `FTBC_Publish`, and
none more often than it was published (`given_in_order`).
-/

open FTB FTBU FTBN FTBMI FTBCI FTBC Backplane

namespace E2E

variable {ι κ : Type} {S : Site ι κ}

/-! ## The first state -/

theorem Peopled.start (r : ι) : Peopled S (State.start S r) where
  housed _ := ⟨fun _ hc => (nomatch hc), ⟨nofun, nofun, fun _ => ⟨rfl, rfl, nofun⟩⟩⟩
  up _ _ hm := nomatch hm

theorem Drawn.start {queue : ClientInfo → List EventInst} {h : ClientHandle} :
    Drawn queue h [] (Lib.initial (⟨[], []⟩ : Line)) :=
  ⟨fun hn => absurd rfl hn, List.nil_sublist _, fun _ hc => nomatch hc⟩

/-! ## Events of a process -/

/-- The handle of an event, as `FTBC_Publish` gives it. -/
def handleOf (e : Backplane.Publication) : EventHandle := publishedHandle ⟨.notify, e.src, default, e.event⟩

/-- The events of the client in a queue. -/
def eventsFrom (S : Site ι κ) (p : κ) (g : ClientHandle) (es : List EventInst) :
    List Backplane.Publication :=
  (es.filter fun e => isEqualFtbId e.src (S.client p g)).map fun e => ⟨e.src, e.eventInst⟩

theorem eventsFrom_append (p : κ) (g : ClientHandle) (es es' : List EventInst) :
    eventsFrom S p g (es ++ es') = eventsFrom S p g es ++ eventsFrom S p g es' := by
  simp [eventsFrom]

theorem matching_eventsFrom (mask : Event) (p : κ) (g : ClientHandle) (es : List EventInst) :
    matching mask (eventsFrom S p g es) = eventsFrom S p g (matched mask es) := by
  unfold matching eventsFrom matched
  rw [List.filter_map, List.filter_filter, List.filter_filter]
  congr 1
  exact List.filter_congr fun e _ => Bool.and_comm _ _

theorem handles_eq (p : κ) (g : ClientHandle) (msgs : List Msg) :
    handles S p g msgs = (events (S.client p g) msgs).map handleOf := by
  unfold handles events
  rw [List.map_map]
  rfl

theorem events_filter {publisher : Id} {q : Msg → Bool}
    (hq : ∀ msg, isEventOf publisher msg = true → q msg = true) (msgs : List Msg) :
    events publisher (msgs.filter q) = events publisher msgs := by
  unfold events
  rw [List.filter_filter]
  congr 1
  refine List.filter_congr fun msg _ => ?_
  rw [Bool.and_eq_left_iff_imp]
  exact hq msg

/-- What a client publishes comes from its process. -/
theorem published_told (p : κ) (g : ClientHandle) (acts : List (Action ι)) :
    published (S.client p g) acts = events (S.client p g) (told S p acts) := by
  unfold told published
  rw [events_filter fun msg hm => ?_]
  exact isEqualLocationId_of_ftbId (Bool.and_eq_true_iff.1 hm).2

/-- The arrivals of a client are what is sent to it. -/
theorem arrivals_toward (p q : κ) (g h : ClientHandle) (msgs : List Msg) :
    eventsFrom S p g (arrivals h (toward (S.loc q) msgs)) =
      received (S.client p g) (S.client q h) msgs := by
  unfold eventsFrom arrivals toward received events
  rw [List.filter_map, List.map_map, List.filter_filter, List.filter_filter, List.filter_filter]
  congr 1
  refine List.filter_congr fun msg _ => ?_
  have hdst := isEqualFtbId_site (S := S) (k := q) msg.dst h
  simp only [Function.comp_apply, isEventOf, isControl, hdst]
  cases isEqualFtbId msg.src (S.client p g) <;>
    cases isEqualLocationId msg.dst.locationId (S.loc q) <;> simp [bne]

theorem isClient_of_named (q : κ) {h : ClientHandle} (hn : Named h) :
    S.places.IsClient (S.client q h) := by
  obtain ⟨id, hname, heq⟩ := hn
  refine ⟨S.apart q, ?_⟩
  have hsame : isEqualFtbId ⟨S.loc q, id.clientId⟩ (S.client q h) = true := by
    rw [isEqualFtbId_client rfl]
    exact heq
  rw [← isManagerNameCase_congr hsame]
  exact hname

/-! ## What arrives in a run -/

/-- Events of clients, those of one client in the order of `published`. -/
structure Given (S : Site ι κ) (published : κ → ClientHandle → List EventHandle)
    (es : List EventInst) : Prop where
  source : ∀ e ∈ es, ∃ p g, isEqualFtbId e.src (S.client p g) = true
  order : ∀ p g, ((eventsFrom S p g es).map handleOf).Sublist (published p g)

theorem Given.sublist {pub : κ → ClientHandle → List EventHandle} {es es' : List EventInst}
    (hg : Given S pub es) (hs : es'.Sublist es) : Given S pub es' where
  source e he := hg.source e (hs.subset he)
  order p g := (((hs.filter _).map _).map _).trans (hg.order p g)

section
variable [DecidableEq ι] [DecidableEq κ] {s s' : State ι κ} {out : κ → List Msg}
  {acts : List (Action ι)} {moves : List (Move ι κ)} {r : ι}

omit [DecidableEq κ] in
/-- The events of a client come to the agent of its process. -/
theorem Moves.onlyAt (h : Moves S out acts s s') (p : κ) (g : ClientHandle) :
    ∀ c ∈ acts, OnlyAt (S.client p g) (S.parent p) c := by
  intro c hc
  cases c with
  | client x msg =>
    intro hevent
    obtain ⟨k, rfl, hown⟩ := h.clients x msg hc
    have hloc := isEqualLocationId_of_ftbId (Bool.and_eq_true_iff.1 hevent).2
    rw [hown.loc] at hloc
    rw [S.distinct k p hloc]
  | _ => trivial

omit [DecidableEq κ] in
/-- Every event that is sent comes from a client. -/
theorem Moves.sourced (h : Moves S out acts (State.start S r) s') (i : ι) :
    ∀ msg ∈ s'.world.sent i, msg.msgType = .notify → ∃ k, msg.src.locationId = S.loc k := by
  have hl : Live S.places (start S.places r) := Busy.live (.init ⟨r, rfl⟩)
  have hbefore : Sourced (fun e => ∃ k, e.src.locationId = S.loc k) (start S.places r) :=
    ⟨fun _ _ _ hm => (nomatch hm), fun _ _ hm => nomatch hm⟩
  have hafter := hbefore.run hl h.traffic (fun x msg hm _ => by
    obtain ⟨k, -, hown⟩ := h.clients x msg hm
    exact ⟨k, hown.loc⟩) h.run
  exact fun msg hm ht => hafter.sent i msg hm (isControl_eq_false.2 ht)

/-- **What arrives at a client in a run.** -/
theorem given_arrivals (hm : ∀ m ∈ moves, Proper m) (hr : (State.start S r).run S moves = some s')
    (q : κ) {h : ClientHandle} (hn : Named h) :
    Given S (fun p g => (State.start S r).collect S (publishes S p g) moves)
      (arrivals h (s'.procs q).handled) := by
  obtain ⟨out, acts, -, hmoves, hpub, -⟩ := (Peopled.start r).run hm hr
  have hl : Live S.places (start S.places r) := Busy.live (.init ⟨r, rfl⟩)
  obtain ⟨got, new, hsent, hdown, hhandled⟩ := hmoves.down q
  -- what was handled is an initial part of what the agent sent
  have harrived : (arrivals h (s'.procs q).handled).Sublist
      (arrivals h (toward (S.loc q) (s'.world.sent (S.parent q)))) := by
    have hnew : s'.world.sent (S.parent q) = new := hsent
    have hdown : toward (S.loc q) new = got ++ (s'.procs q).manager.net.down := hdown
    have hhandled : (s'.procs q).handled = got := hhandled
    rw [hnew, hdown, hhandled, arrivals_append]
    exact List.sublist_append_left _ _
  refine Given.sublist ⟨fun e he => ?_, fun p g => ?_⟩ harrived
  · obtain ⟨msg, hmsg, rfl⟩ := List.mem_map.1 he
    obtain ⟨hmsg, hfor⟩ := List.mem_filter.1 hmsg
    have hnotify : msg.msgType = .notify := by
      simpa using (Bool.and_eq_true_iff.1 hfor).1
    obtain ⟨k, hk⟩ := hmoves.sourced (S.parent q) msg (mem_toward.1 hmsg).1 hnotify
    refine ⟨k, convertClientidToClienthandle msg.src.clientId, ?_⟩
    rw [isEqualFtbId_client hk]
    exact KeyEq.refl _
  · obtain ⟨all, hall, hsub⟩ := hl.in_order ⟨r, List.mem_singleton_self r⟩
      (fun _ _ => rfl) hmoves.traffic (hmoves.onlyAt p g) hmoves.run (S.parent q)
    -- the agent was told an initial part of what was sent to it
    have htold : (handles S p g (told S p acts)).Sublist
        ((State.start S r).collect S (publishes S p g) moves) := by
      have hup : out p = told S p acts ++ (s'.procs p).manager.net.up := hmoves.up p
      rw [← hpub, hup, handles_append]
      exact List.sublist_append_left _ _
    have hsent : s'.world.sent (S.parent q) = all := hall
    rw [arrivals_toward, hsent]
    refine ((hsub _ (isClient_of_named q hn)).map handleOf).trans ?_
    rw [published_told, ← handles_eq]
    exact htold

/-- **What the applications are given**, by `FTBC_Poll_event` with one subscription and in the callbacks
of one client: events that clients published, those of one client in the order of its calls of
`FTBC_Publish`, and each no more often. -/
theorem given_in_order (hm : ∀ m ∈ moves, Proper m)
    (hr : (State.start S r).run S moves = some s') (q : κ) :
    (∀ sub, ∃ es,
      List.Forall₂ (HoldsMatch sub.subscriptionEvent) es
        ((State.start S r).collect S (polls S q sub) moves) ∧
      Given S (fun p g => (State.start S r).collect S (publishes S p g) moves) es) ∧
    ∀ h, ∃ es,
      List.Forall₂ Holds es ((State.start S r).collect S (callsBack q h) moves) ∧
      Given S (fun p g => (State.start S r).collect S (publishes S p g) moves) es := by
  have given : ∀ {queue : ClientInfo → List EventInst} {h : ClientHandle} {es : List EventInst},
      Drawn queue h es (s'.procs q) →
      Given S (fun p g => (State.start S r).collect S (publishes S p g) moves) es := by
    intro queue h es hd
    by_cases hes : es = []
    · subst hes
      exact ⟨fun e he => (nomatch he), fun p g => List.nil_sublist _⟩
    · exact (given_arrivals hm hr q (hd.named hes)).sublist hd.gone
  refine ⟨fun sub => ?_, fun h => ?_⟩
  · have hstart : Drawn (polling sub.subscriptionEvent) sub.clientHandle []
        ((State.start S r).procs q) := .start
    obtain ⟨es, hes, hd⟩ := given_run (fun hmem hs ht hd => drawn_polls hs (hm _ hmem) ht hd)
      (Peopled.start r) hm hr hstart
    exact ⟨es, hes, given hd⟩
  · have hstart : Drawn ClientInfo.callbackEventQueue h [] ((State.start S r).procs q) := .start
    obtain ⟨es, hes, hd⟩ := given_run (fun hmem hs ht hd => drawn_callsBack hs (hm _ hmem) ht hd)
      (Peopled.start r) hm hr hstart
    exact ⟨es, hes, given hd⟩

end

/-! ## Two processes -/

/-- A process at each of two agents. -/
def twoProcesses : Site Bool Bool where
  places := twoAgents
  loc b := ⟨[], [], if b then 4 else 3⟩
  parent b := b
  distinct := by decide
  apart := by decide

def exampleClient (clientName style : CStr) : Client where
  eventSpace := "FTB.FTB_EXAMPLES.SIMPLE".toList
  clientName := clientName
  clientJobid := []
  clientSubscriptionStyle := style
  clientPollingQueueLen := 0

def exampleHandle (clientName : CStr) : ClientHandle :=
  ⟨1, ⟨"FTB".toList, "FTB_EXAMPLES".toList, "SIMPLE".toList, clientName, 0⟩⟩

/-- Every event matches this mask, that of an empty subscription string. -/
def anyEvent : Event :=
  { (default : Event) with
    region := "all".toList, compCat := "all".toList, comp := "all".toList
    eventName := "all".toList, severity := "all".toList, clientJobid := "all".toList
    clientName := "all".toList, hostname := "all".toList }

/-- The client `watch` connects at the second agent, and subscribes. -/
def watching (style : CStr) (subscribe : ApiCall) : List (Move Bool Bool) :=
  [.world (.join true false), .world (.deliver true false),
    .api true (.connect (exampleClient "watch".toList style) 0 (some default)), .api true subscribe,
    .up true, .up true, .world (.deliver true false)]

/-- The client `simple` publishes at the first agent. -/
def exchange : List (Move Bool Bool) :=
  [.api false (.connect (exampleClient "simple".toList "FTB_SUBSCRIPTION_NONE".toList) 0
      (some default)),
    .declare false (exampleHandle "simple".toList) none [⟨"SIMPLE_EVENT".toList, "info".toList⟩],
    .api false (.publish (exampleHandle "simple".toList) "simple_event".toList none (some default)),
    .up false, .up false, .world (.deliver false true)]

theorem proper_connect (k : Bool) (clientName style : CStr) (extension : UInt8)
    (handle : Option ClientHandle) :
    Proper (.api k (.connect (exampleClient clientName style) extension handle) : Move Bool Bool) := by
  intro region compCat comp h
  have hsplit : splitNamespace "FTB.FTB_EXAMPLES.SIMPLE".toList =
      some (.ok ("FTB".toList, "FTB_EXAMPLES".toList, "SIMPLE".toList)) := by
    decide +kernel
  cases hsplit.symm.trans h
  decide

theorem proper_watching (style : CStr) {subscribe : ApiCall}
    (h : Proper (.api true subscribe : Move Bool Bool)) : ∀ m ∈ watching style subscribe, Proper m := by
  intro m hm
  simp only [watching, List.mem_cons, List.not_mem_nil, or_false] at hm
  obtain rfl | rfl | rfl | rfl | rfl | rfl | rfl := hm
  case inr.inr.inl => exact proper_connect _ _ _ _ _
  case inr.inr.inr.inl => exact h
  all_goals trivial

theorem proper_exchange : ∀ m ∈ exchange, Proper m := by
  intro m hm
  simp only [exchange, List.mem_cons, List.not_mem_nil, or_false] at hm
  obtain rfl | rfl | rfl | rfl | rfl | rfl := hm
  case inl => exact proper_connect _ _ _ _ _
  all_goals trivial

/-- The client `watch` polls, with a subscription that every event matches. -/
def pollingRun : List (Move Bool Bool) :=
  watching "FTB_SUBSCRIPTION_POLLING".toList
      (.subscribeWithPolling (some default) (exampleHandle "watch".toList) (some [])) ++
    exchange ++
    [.api true (.pollEvent ⟨exampleHandle "watch".toList, anyEvent, 1, 1⟩ (some Cell.blank))]

/-- The client `watch` is given the event of `simple`. -/
theorem given_in_order_two : ∃ s', (State.start twoProcesses false).run twoProcesses pollingRun =
      some s' ∧
    ((State.start twoProcesses false).collect twoProcesses (polls twoProcesses true
      ⟨exampleHandle "watch".toList, anyEvent, 1, 1⟩) pollingRun).length = 1 ∧
    ∃ es, List.Forall₂ (HoldsMatch anyEvent) es
        ((State.start twoProcesses false).collect twoProcesses (polls twoProcesses true
          ⟨exampleHandle "watch".toList, anyEvent, 1, 1⟩) pollingRun) ∧
      Given twoProcesses (fun p g => (State.start twoProcesses false).collect twoProcesses
        (publishes twoProcesses p g) pollingRun) es := by
  have hrun : ((State.start twoProcesses false).run twoProcesses pollingRun).isSome = true := by
    decide +kernel
  obtain ⟨s', hs'⟩ := Option.isSome_iff_exists.1 hrun
  have hproper : ∀ m ∈ pollingRun, Proper m := by
    intro m hm
    obtain hm | hm := List.mem_append.1 hm
    · exact (List.mem_append.1 hm).elim (proper_watching _ (by trivial) m) (proper_exchange m)
    · exact List.mem_singleton.1 hm ▸ trivial
  refine ⟨s', hs', by decide +kernel, ?_⟩
  exact (given_in_order hproper hs' true).1 ⟨exampleHandle "watch".toList, anyEvent, 1, 1⟩

end E2E
