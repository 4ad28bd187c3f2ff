import Mathlib.Data.List.Nodup
import Ftb.Manager.History

/-!
# The catcher list (`FTBM_Get_catcher_comp_list`)

The list is filled from two loops over `catch_event_map` and one that writes its slots from the
back. `collectCatchers_spec` says which ids the loops collect, `applyWrites_fillWrites` that the
writes fill the list, and `catchers_of_history` puts both on top of the history of the agent.
-/

open FTB FTBU FTBN FTBMI

namespace FTBM

/-! ## The loops over `catch_event_map` -/

/-- A collected set and its count. -/
def Counted (acc : CatcherSet × Nat) : Prop := acc.2 = acc.1.nodes.length

/-- The step of the inner loop. -/
def addCatcher (acc : CatcherSet × Nat) (comp : CompRef) : CatcherSet × Nat :=
  if acc.1.contains comp.id then acc else (acc.1.insert comp.id, acc.2 + 1)

theorem addCatcher_spec {acc : CatcherSet × Nat} (h : Counted acc) (comp : CompRef) :
    Counted (addCatcher acc comp) ∧ ∀ i, (addCatcher acc comp).1.contains i = true ↔
      acc.1.contains i = true ∨ isEqualFtbId comp.id i = true := by
  have hset : (addCatcher acc comp).1 = acc.1.insert comp.id := by
    unfold addCatcher
    split
    · rename_i hc
      exact (KeyList.insert_of_contains (v := comp.id) hc).symm
    · rfl
  refine ⟨?_, fun i => ?_⟩
  · unfold addCatcher Counted
    split
    · exact h
    · rename_i hc
      have hn := KeyList.nodes_insert (v := comp.id) (Bool.eq_false_iff.2 hc)
      rw [hn, List.length_append, h]
      rfl
  · rw [hset, KeyList.contains_eq_isSome, KeyList.find?_insert_isSome',
      KeyList.contains_eq_isSome]

theorem foldl_addCatcher_spec (comps : List CompRef) {acc : CatcherSet × Nat} (h : Counted acc) :
    Counted (comps.foldl addCatcher acc) ∧ ∀ i, (comps.foldl addCatcher acc).1.contains i = true ↔
      acc.1.contains i = true ∨ ∃ r ∈ comps, isEqualFtbId r.id i = true := by
  induction comps generalizing acc with
  | nil => exact ⟨h, fun i => by simp⟩
  | cons r comps ih =>
    obtain ⟨hc, ha⟩ := addCatcher_spec h r
    obtain ⟨hc', ha'⟩ := ih hc
    refine ⟨hc', fun i => ?_⟩
    rw [List.foldl_cons, ha', ha, or_assoc]
    simp only [List.mem_cons, exists_eq_or_imp]

/-- The ids the loops collect, each once: those listed under a mask that the event matches. -/
theorem collectCatchers_spec (event : Event) (s : NodeInfo) :
    Counted (collectCatchers event s) ∧
      ∀ i, (collectCatchers event s).1.contains i = true ↔
        ∃ m, matchMask event m = true ∧ s.listed i m = true := by
  have loop : ∀ (ents : List CatchEntry) (acc : CatcherSet × Nat), Counted acc →
      Counted (ents.foldl (fun acc ent => if matchMask event ent.mask then
        ent.comps.nodes.foldl addCatcher acc else acc) acc) ∧
      ∀ i, (ents.foldl (fun acc ent => if matchMask event ent.mask then
        ent.comps.nodes.foldl addCatcher acc else acc) acc).1.contains i = true ↔
        acc.1.contains i = true ∨ ∃ ent ∈ ents, matchMask event ent.mask = true ∧
          ∃ r ∈ ent.comps.nodes, isEqualFtbId r.id i = true := by
    intro ents
    induction ents with
    | nil => exact fun acc h => ⟨h, fun i => by simp⟩
    | cons ent ents ih =>
      intro acc h
      rw [List.foldl_cons]
      by_cases hm : matchMask event ent.mask = true
      · obtain ⟨hc, ha⟩ := foldl_addCatcher_spec ent.comps.nodes h
        obtain ⟨hc', ha'⟩ := ih _ hc
        rw [if_pos hm]
        refine ⟨hc', fun i => ?_⟩
        rw [ha', ha, or_assoc]
        simp only [List.mem_cons, exists_eq_or_imp, hm, true_and]
      · obtain ⟨hc', ha'⟩ := ih _ h
        rw [if_neg hm]
        refine ⟨hc', fun i => ?_⟩
        rw [ha']
        simp only [List.mem_cons, exists_eq_or_imp, hm, false_and, false_or, Bool.false_eq_true]
  obtain ⟨hc, ha⟩ := loop s.catchEventMap.nodes (.empty, 0) rfl
  refine ⟨hc, fun i => (ha i).trans ?_⟩
  have he : ((.empty : CatcherSet)).contains i = false := rfl
  rw [he]
  refine ⟨?_, ?_⟩
  · intro h
    rcases h with h | ⟨ent, hent, hm, r, hr, hi⟩
    · cases h
    · exact ⟨ent.mask, hm, lists_iff.2 ⟨ent, hent, KeyEq.refl _, r, hr, hi⟩⟩
  · intro ⟨m, hm, hl⟩
    obtain ⟨ent, hent, hem, r, hr, hi⟩ := lists_iff.1 hl
    exact .inr ⟨ent, hent, (matchMask_congr hem event).trans hm, r, hr, hi⟩

/-! ## The loop that writes the list -/

/-- The writes go from the last slot to the first, and fill the free part of the list. -/
theorem foldl_fillWrites (ids : List Id) (rest : List (Option Id)) :
    (fillWrites ids ids.length).foldl
      (fun slots w => if w.1 < 0 then slots else slots.set w.1.toNat (some w.2))
      (List.replicate ids.length none ++ rest) = ids.reverse.map some ++ rest := by
  induction ids generalizing rest with
  | nil => rfl
  | cons id ids ih =>
    have hk : ((ids.length + 1 : Nat) : Int) - 1 = ids.length := by omega
    have hset : (List.replicate (ids.length + 1) none ++ rest).set ids.length (some id) =
        List.replicate ids.length none ++ some id :: rest := by
      rw [List.replicate_succ', List.append_assoc, List.set_append_right _ _ (by simp)]
      simp
    rw [List.length_cons, fillWrites, List.foldl_cons, hk]
    simp only [Int.toNat_natCast]
    rw [if_neg (by omega), hset, ih]
    simp

theorem applyWrites_fillWrites (ids : List Id) :
    applyWrites ids.length (fillWrites ids ids.length) = ids.reverse.map some := by
  have h := foldl_fillWrites ids []
  rwa [List.append_nil, List.append_nil] at h

/-- The slots that are written, in order. -/
theorem map_fst_fillWrites (ids : List Id) :
    (fillWrites ids ids.length).map Prod.fst = (List.range ids.length).reverse.map Nat.cast := by
  induction ids with
  | nil => rfl
  | cons id ids ih =>
    have hk : ((ids.length + 1 : Nat) : Int) - 1 = ids.length := by omega
    rw [List.length_cons, fillWrites, List.map_cons, hk, ih, List.range_succ, List.reverse_append]
    rfl

/-- Every slot is written once, and nothing else is. -/
theorem count_fillWrites (ids : List Id) (j : Int) :
    ((fillWrites ids ids.length).map Prod.fst).count j =
      if 0 ≤ j ∧ j < ids.length then 1 else 0 := by
  have hnd : ((List.range ids.length).reverse.map (Nat.cast : Nat → Int)).Nodup :=
    (List.nodup_reverse.2 List.nodup_range).map fun _ _ h => Int.ofNat.inj h
  rw [map_fst_fillWrites, hnd.count]
  congr 1
  rw [eq_iff_iff]
  simp only [List.mem_map, List.mem_reverse, List.mem_range]
  refine ⟨fun ⟨k, hk, he⟩ => by omega, fun h => ⟨j.toNat, by omega, by omega⟩⟩

/-- **The list holds the components that are listed under a mask that the event matches**, each
once, and every slot is written once. -/
theorem getCatcherCompList_spec {s : NodeInfo} (hs : s.initialized = true) (event : Event) :
    ∃ (l : CatcherList) (ids : List Id), getCatcherCompList event s = .ok l ∧
      l.list = ids.map some ∧ l.len = ids.length ∧
      (∀ j : Int, (l.writes.map Prod.fst).count j = if 0 ≤ j ∧ j < l.len then 1 else 0) ∧
      ids.Pairwise (fun i j => isEqualFtbId i j = false) ∧
      ∀ i, (∃ x ∈ ids, isEqualFtbId x i = true) ↔
        ∃ m, matchMask event m = true ∧ s.listed i m = true := by
  obtain ⟨hc, ha⟩ := collectCatchers_spec event s
  unfold getCatcherCompList
  generalize collectCatchers event s = acc at hc ha
  obtain ⟨set, n⟩ := acc
  have hn : n = set.nodes.length := hc
  subst hn
  rw [hs]
  refine ⟨_, set.nodes.reverse, rfl, applyWrites_fillWrites set.nodes, List.length_reverse.symm,
    count_fillWrites set.nodes, ?_, fun i => ?_⟩
  · rw [List.pairwise_reverse]
    exact set.distinct.imp fun hd => (KeyEq.comm isEqualFtbId _ _).trans hd
  · have hmem : (∃ x ∈ set.nodes.reverse, isEqualFtbId x i = true) ↔ set.contains i = true := by
      simp [KeyList.contains]
    rw [hmem, ha]

end FTBM

namespace Agent

open FTBM Trace

/-! ## The list is the history -/

/-- The catcher list of an event after a history: exactly once each, the components that are
registered and hold a mask that the event matches, and every slot written once. -/
structure CatchersOf (hist : List Incident) (event : Event) (l : CatcherList) : Prop where
  ids : ∃ ids : List Id, l.list = ids.map some ∧ l.len = ids.length ∧
    ids.Pairwise (fun i j => isEqualFtbId i j = false) ∧
    ∀ i, (∃ x ∈ ids, isEqualFtbId x i = true) ↔
      Registered hist i ∧ ∃ m, matchMask event m = true ∧ Holds hist i m
  once : ∀ j : Int, (l.writes.map Prod.fst).count j = if 0 ≤ j ∧ j < l.len then 1 else 0

theorem Sim.catchers {s : NodeInfo} {hist : List Incident} (h : Sim s hist) (event : Event) :
    ∃ l, getCatcherCompList event s = .ok l ∧ CatchersOf hist event l := by
  obtain ⟨l, ids, hl, hlist, hlen, honce, hd, hmem⟩ := getCatcherCompList_spec h.initialized event
  refine ⟨l, hl, ⟨ids, hlist, hlen, hd, fun i => (hmem i).trans ⟨?_, ?_⟩⟩, honce⟩
  · intro ⟨m, hm, hl⟩
    exact ⟨(h.isPeer i).1 (h.inv.isPeer_of_listed hl), m, hm, (h.listed i m).1 hl⟩
  · intro ⟨_, m, hm, hh⟩
    exact ⟨m, hm, (h.listed i m).2 hh⟩

/-! ## Runs -/

section
variable {N : Type} (w : Network N)

/-- The network layer, which also writes down the parents that the agent attaches to. -/
def logged : Network (N × List Incident) where
  sendMsg msg net := ((w.sendMsg msg net.1).1, (w.sendMsg msg net.1).2, net.2)
  connect msg parent net :=
    let (ret, parent, net') := w.connect msg parent net.1
    (ret, parent, net', net.2 ++ if parent.pid != 0 then [.attach (agentId parent)] else [])
  disconnectPeer l net := ((w.disconnectPeer l net.1).1, (w.disconnectPeer l net.1).2, net.2)

/-- What a message tells the agent. -/
def incidents (msg : Msg) (incomingSrc : LocationId) : List Incident :=
  match msg.msgType with
  | .clientReg => [.register msg.src]
  | .clientDereg => [.deregister msg.src]
  | .cleanupConn => [.cleanup incomingSrc]
  | .regSubscription => [.subscribe msg.src msg.event]
  | .subscriptionCancel => [.cancel msg.src msg.event]
  | _ => []

/-- One turn of `progress_loop`, with the message added to the history. -/
def turn (a : Manager (N × List Incident)) (m : Msg × LocationId) :
    Option (Manager (N × List Incident)) :=
  progressLoop (logged w) m.1 m.2
    { a with net := (a.net.1, a.net.2 ++ incidents m.1 m.2) }

/-- An agent that starts and handles the messages. -/
def run (location : LocationId) (net : N) (msgs : List (Msg × LocationId)) :
    Option (Manager (N × List Incident)) :=
  msgs.foldlM (turn w) (FTBM.init (logged w) false location (net, [])).2

theorem log_of_traffic {net net' : N × List Incident} (h : Traffic (logged w) net net') :
    net'.2 = net.2 := by
  induction h with
  | refl => rfl
  | send msg _ ih => exact ih
  | disconnect l _ ih => exact ih

theorem log_sendAll (msgs : List Msg) (net : N × List Incident) :
    ((logged w).sendAll msgs net).2 = net.2 :=
  log_of_traffic w (Traffic.sendAll _ (.refl _) msgs)

theorem Sim.utilReconnect {a : Manager (N × List Incident)} (h : Sim a.info a.net.2) :
    Sim (utilReconnect (logged w) a).info (utilReconnect (logged w) a).net.2 := by
  rw [utilReconnect_eq, log_sendAll]
  exact h.attachInfo _

theorem sim_init (location : LocationId) (net : N) :
    let a := (FTBM.init (logged w) false location (net, [])).2
    Sim a.info a.net.2 := by
  have blank : Sim { blankInfo false location with initialized := true } [] := by
    refine ⟨?_, rfl, fun i => ?_, fun i m => ?_⟩
    · have h := inv_blankInfo false location
      exact ⟨h.noEmpty, h.held, h.sync, h.fresh, h.addrs⟩
    · simp [Registered, NodeInfo.isPeer, blankInfo, KeyList.contains]
    · simp [Holds, NodeInfo.listed, lists, blankInfo]
  have hr : ∀ parent, { attachInfo (blankInfo false location) parent with initialized := true } =
      attachInfo { blankInfo false location with initialized := true } parent := by
    intro parent
    unfold attachInfo
    simp only [blankInfo, Bool.false_and, Bool.false_eq_true, if_false]
    split <;> rfl
  have h := blank.attachInfo (initResult (logged w) false location (net, [])).2.1
  rw [← hr] at h
  simp only [init_eq]
  exact h

/-- Every turn keeps the simulation, and there is one. -/
theorem Sim.turn {a : Manager (N × List Incident)} (h : Sim a.info a.net.2)
    (m : Msg × LocationId) (hm : m.1.msgType ≠ .notify) :
    ∃ a', turn w a m = some a' ∧ Sim a'.info a'.net.2 := by
  obtain ⟨msg, src⟩ := m
  obtain ⟨s, net⟩ := a
  unfold Agent.turn progressLoop incidents
  cases ht : msg.msgType with
  | notify => exact absurd ht hm
  | clientReg =>
    refine ⟨_, rfl, ?_⟩
    simp only [clientRegister_eq, h.ready, if_true, log_sendAll]
    exact h.registerInfo (.inl rfl)
  | clientDereg =>
    refine ⟨_, rfl, ?_⟩
    have hd := h.dropInfo msg.src
    rcases clientDeregister_cases (logged w) msg.src ⟨s, net.1, net.2 ++ [.deregister msg.src]⟩
      with ⟨he, hn⟩ | ⟨net', hn, he | he⟩
    · simp only [he]
      rwa [hn h.ready] at hd
    · simp only [he, log_of_traffic w hn]
      exact hd
    · simp only [he]
      exact Sim.utilReconnect w (by rw [log_of_traffic w hn]; exact hd)
  | cleanupConn =>
    refine ⟨_, rfl, ?_⟩
    have hd := h.cleanupInfo src
    rcases cleanupConnection_cases (logged w) src ⟨s, net.1, net.2 ++ [.cleanup src]⟩
      with ⟨_, hn⟩ | ⟨net', hn, he | he⟩
    · exact absurd (hn.symm.trans h.initialized) (by decide)
    · simp only [he, log_of_traffic w hn]
      exact hd
    · simp only [he]
      exact Sim.utilReconnect w (by rw [log_of_traffic w hn]; exact hd)
  | regSubscription =>
    refine ⟨_, rfl, ?_⟩
    simp only [registerSubscription_eq, h.ready, if_true, log_sendAll]
    exact h.subscribeInfo msg.src msg.event
  | subscriptionCancel =>
    refine ⟨_, rfl, ?_⟩
    simp only [cancelSubscription_eq, h.ready, if_true, log_sendAll]
    exact h.cancelInfo msg.src msg.event
  | regPublishableEvent => exact ⟨_, rfl, by simpa using h⟩
  | publishableEventRegCancel => exact ⟨_, rfl, by simpa using h⟩
  | unknown t => exact ⟨_, rfl, by simpa using h⟩

theorem Sim.foldlM_turn (msgs : List (Msg × LocationId))
    (hm : ∀ m ∈ msgs, m.1.msgType ≠ .notify) {a : Manager (N × List Incident)}
    (h : Sim a.info a.net.2) :
    ∃ a', msgs.foldlM (Agent.turn w) a = some a' ∧ Sim a'.info a'.net.2 := by
  induction msgs generalizing a with
  | nil => exact ⟨a, rfl, h⟩
  | cons m msgs ih =>
    obtain ⟨b, hb, hs⟩ := h.turn w m (hm m List.mem_cons_self)
    obtain ⟨a', ha, hs'⟩ := ih (fun m' h' => hm m' (List.mem_cons_of_mem _ h')) hs
    exact ⟨a', by rw [List.foldlM_cons, hb]; exact ha, hs'⟩

/-- **The catcher list of any event is what the history of the agent says**, after any messages
but notifications, over any network layer. -/
theorem catchers_of_history (location : LocationId) (net : N) (msgs : List (Msg × LocationId))
    (hm : ∀ m ∈ msgs, m.1.msgType ≠ .notify) (event : Event) :
    ∃ a l, run w location net msgs = some a ∧ getCatcherCompList event a.info = .ok l ∧
      CatchersOf a.net.2 event l := by
  obtain ⟨a, ha, hs⟩ := Sim.foldlM_turn w msgs hm (sim_init w location net)
  obtain ⟨l, hl, hc⟩ := hs.catchers event
  exact ⟨a, l, ha, hl, hc⟩

end

/-- A client that registers and subscribes. -/
theorem catchers_of_history_client : ∃ a l,
    run FTBN.outbox default []
      [(⟨.clientReg, default, default, default⟩, default),
        (⟨.regSubscription, default, default, default⟩, default)] = some a ∧
    getCatcherCompList default a.info = .ok l ∧ CatchersOf a.net.2 default l :=
  catchers_of_history FTBN.outbox default [] _ (by decide) default

end Agent
