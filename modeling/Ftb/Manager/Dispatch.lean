import Ftb.Manager.Calls
import Ftb.Manager.Catchers

/-!
# The dispatch of an event under failures

`progress_loop` reads the catcher list once and sends to each of its ids; a send that fails drops
its destination, and may attach a new parent. `Kept` says what the tables hold when some
destinations failed, `kept_send` what one send does, and `dispatch_kept` follows for every pattern
of failures: the lookup of a failed destination never comes back empty, and no component but those
that failed loses anything.
-/

open FTB FTBU FTBN FTBMI

namespace FTBM

variable {N : Type} (w : Network N)

/-- `gone` holds the id. -/
def isGone (gone : List Id) (i : Id) : Bool := gone.any fun id => isEqualFtbId id i

theorem isGone_singleton (id i : Id) : isGone [id] i = isEqualFtbId id i := by
  rw [isGone, List.any_cons, List.any_nil, Bool.or_false]

theorem isGone_append (gone gone' : List Id) (i : Id) :
    isGone (gone ++ gone') i = (isGone gone i || isGone gone' i) := List.any_append

/-- The tables of an agent after the components of `gone` failed: nothing of them is listed,
everything of the others is as it was, and all that is new is a parent without a mask. -/
structure Kept (s : NodeInfo) (gone : List Id) (s' : NodeInfo) : Prop where
  inv : Inv s'
  ready : s'.ready = true
  listed : ∀ i m, s'.listed i m = (s.listed i m && !isGone gone i)
  peers : ∀ c ∈ s.peers.nodes, isGone gone c.id = false → c ∈ s'.peers.nodes
  added : ∀ c ∈ s'.peers.nodes, c ∈ s.peers.nodes ∧ isGone gone c.id = false ∨
    gone ≠ [] ∧ (∃ parent, c.id = agentId parent) ∧ c.catchEventSet = .empty

namespace Kept

variable {s s' s'' : NodeInfo} {gone gone' : List Id}

theorem refl (h : Inv s) (hr : s.ready = true) : Kept s [] s where
  inv := h
  ready := hr
  listed _ _ := (Bool.and_true _).symm
  peers _ hc _ := hc
  added _ hc := .inl ⟨hc, rfl⟩

theorem trans (h : Kept s gone s') (h' : Kept s' gone' s'') : Kept s (gone ++ gone') s'' where
  inv := h'.inv
  ready := h'.ready
  listed i m := by
    rw [h'.listed, h.listed, isGone_append, Bool.not_or, Bool.and_assoc]
  peers c hc hg := by
    rw [isGone_append, Bool.or_eq_false_iff] at hg
    exact h'.peers c (h.peers c hc hg.1) hg.2
  added c hc := by
    rw [isGone_append, Bool.or_eq_false_iff]
    rcases h'.added c hc with ⟨hc, hg'⟩ | ⟨hn, hnew⟩
    · rcases h.added c hc with ⟨hc, hg⟩ | ⟨hn, hnew⟩
      · exact .inl ⟨hc, hg, hg'⟩
      · exact .inr ⟨List.append_ne_nil_of_left_ne_nil hn _, hnew⟩
    · exact .inr ⟨List.append_ne_nil_of_right_ne_nil _ hn, hnew⟩

/-- A component that did not fail is found as before. -/
theorem find?_eq (h : Kept s gone s') {i : Id} (hp : s.isPeer i = true)
    (hg : isGone gone i = false) : s'.peers.find? i = s.peers.find? i := by
  obtain ⟨c, hc, hci⟩ := NodeInfo.isPeer_iff.1 hp
  have hgc : isGone gone c.id = false := by
    rw [← hg]
    simp only [isGone, KeyEq.congr_right hci]
  rw [← KeyList.find?_congr hci, ← KeyList.find?_congr hci, KeyList.find?_of_mem hc]
  exact KeyList.find?_of_mem (h.peers c hc hgc)

theorem isPeer (h : Kept s gone s') {i : Id} (hp : s.isPeer i = true)
    (hg : isGone gone i = false) : s'.isPeer i = true := by
  have hf := h.find?_eq hp hg
  rw [NodeInfo.isPeer, KeyList.contains_eq_isSome] at hp ⊢
  rwa [hf]

end Kept

/-! ## One send -/

theorem mem_dropInfo {s : NodeInfo} {id : Id} (hp : s.isPeer id = true) (c : CompInfo) :
    c ∈ (dropInfo s id).peers.nodes ↔ c ∈ s.peers.nodes ∧ isEqualFtbId id c.id = false := by
  obtain ⟨comp, hf⟩ := NodeInfo.find?_of_isPeer hp
  rw [dropInfo_of_find? hf]
  show c ∈ (s.peers.erase comp.id).nodes ↔ _
  rw [KeyList.mem_erase, KeyEq.comm isEqualFtbId, KeyEq.congr_left (KeyList.mem_of_find? hf).2]

theorem kept_dropInfo {s : NodeInfo} (h : Inv s) (hr : s.ready = true) {id : Id}
    (hp : s.isPeer id = true) : Kept s [id] (dropInfo s id) where
  inv := h.dropInfo id
  ready := (frame_dropInfo s id).ready.trans hr
  listed i m := by
    rw [listed_dropInfo h, isGone_singleton]
  peers c hc hg := by
    rw [isGone_singleton] at hg
    exact (mem_dropInfo hp c).2 ⟨hc, hg⟩
  added c hc := by
    obtain ⟨hc, hi⟩ := (mem_dropInfo hp c).1 hc
    exact .inl ⟨hc, (isGone_singleton id c.id).trans hi⟩

/-- A reconnection adds the parent, unless it is there already. -/
theorem Kept.attachInfo {s s' : NodeInfo} {gone : List Id} (h : Kept s gone s') (hg : gone ≠ [])
    (parent : LocationId) : Kept s gone (attachInfo s' parent) := by
  obtain ⟨hi, -, hl⟩ := attachInfo_spec h.inv parent
  have hleaf : s'.leaf = false := (NodeInfo.ready_iff.1 h.ready).2
  -- whatever the parent, the peers are the old ones or one more
  have hmem : ∀ c, c ∈ (FTBMI.attachInfo s' parent).peers.nodes ↔ c ∈ s'.peers.nodes ∨
      c = ⟨s'.nextAddr, agentId parent, .empty⟩ ∧ parent.pid ≠ 0 ∧
        s'.isPeer (agentId parent) = false := by
    intro c
    by_cases hp : parent.pid = 0
    · have he : FTBMI.attachInfo s' parent = { s' with parent } := by
        simp [FTBMI.attachInfo, hleaf, hp]
      rw [he]
      simp [hp]
    · rw [(attach_found hleaf hp).1]
      cases hc : s'.isPeer (agentId parent) with
      | true =>
        have he : FTBMI.registerInfo { s' with parent } (agentId parent) =
            { s' with parent, nextAddr := s'.nextAddr + 1 } := registerInfo_of_contains hc
        rw [he]
        simp
      | false =>
        have hn : s'.peers.contains (CompInfo.id ⟨s'.nextAddr, agentId parent, .empty⟩) = false :=
          hc
        refine (KeyList.mem_insert hn).trans ?_
        simp [hp]
  refine ⟨hi, ?_, ?_, ?_, ?_⟩
  · rw [(frame_attachInfo hleaf parent).ready]
    exact h.ready
  · intro i m
    rw [hl, h.listed]
  · intro c hc hgc
    exact (hmem c).2 (.inl (h.peers c hc hgc))
  · intro c hc
    rcases (hmem c).1 hc with hc | ⟨rfl, -, -⟩
    · exact h.added c hc
    · exact .inr ⟨hg, ⟨parent, rfl⟩, rfl⟩

/-- **A send of an agent to a peer has a value.** If it fails, it takes away the destination. -/
theorem kept_send {a : Manager N} (h : Inv a.info) (hr : a.info.ready = true) {msg : Msg}
    (hp : a.info.isPeer msg.dst = true) :
    ∃ a', send w msg a = some ((w.sendMsg msg a.net).1, a') ∧
      Kept a.info (if (w.sendMsg msg a.net).1 = .success then [] else [msg.dst]) a'.info := by
  obtain ⟨hi, hleaf⟩ := NodeInfo.ready_iff.1 hr
  by_cases hret : (w.sendMsg msg a.net).1 = .success
  · rw [send_of_success w hi hret, if_pos hret, hret]
    exact ⟨_, rfl, .refl h hr⟩
  · obtain ⟨comp, hf⟩ := NodeInfo.find?_of_isPeer hp
    have hk := kept_dropInfo h hr hp
    rw [dropInfo_of_find? hf] at hk
    rw [send_of_failure w hi hleaf hret, hf, if_neg hret]
    refine ⟨_, rfl, ?_⟩
    rcases reattach_cases w msg ⟨dropComp a.info comp, dropNet w comp a.info
      (w.sendMsg msg a.net).2⟩ with he | he
    · rw [he]
      exact hk
    · rw [he, utilReconnect_eq]
      exact hk.attachInfo (List.cons_ne_nil _ _) _

end FTBM

namespace Agent

open FTBM Trace

variable {N : Type} (w : Network N)

/-! ## The loop -/

/-- A call of `FTBM_Send` in `notifyLoop`: the result of `FTBN_Send_msg`, and what a lookup of the
destination in `peers` gives. -/
structure Attempt where
  dst : Id
  ret : Ret
  found : Option CompInfo

/-- The calls that `notifyLoop` makes. -/
def attempts (msg : Msg) (incomingSrc : LocationId) : List (Option Id) → Manager N → List Attempt
  | [], _ => []
  | none :: _, _ => []
  | some id :: ids, a =>
    if isIncomingAgent id incomingSrc then attempts msg incomingSrc ids a
    else
      let copy : Msg := { msgType := .notify, src := msg.src, dst := id, event := msg.event }
      ⟨id, (w.sendMsg copy a.net).1, a.info.peers.find? id⟩ ::
        ((send w copy a).elim [] fun r => attempts msg incomingSrc ids r.2)

/-- The destinations whose send failed. -/
def failed (sends : List Attempt) : List Id :=
  (sends.filter fun x => x.ret ≠ .success).map Attempt.dst

theorem failed_cons (x : Attempt) (sends : List Attempt) :
    failed (x :: sends) = (if x.ret = .success then [] else [x.dst]) ++ failed sends := by
  unfold failed
  by_cases h : x.ret = .success
  · rw [List.filter_cons_of_neg (by simp [h]), if_pos h, List.nil_append]
  · rw [List.filter_cons_of_pos (by simp [h]), if_neg h]
    rfl

/-- **The loop over different peers goes to the end.** Every lookup finds what it would have found
before the loop. -/
theorem notifyLoop_kept (msg : Msg) (incomingSrc : LocationId) {ids : List Id} {a : Manager N}
    (h : Inv a.info) (hr : a.info.ready = true)
    (hd : ids.Pairwise fun i j => isEqualFtbId i j = false)
    (hp : ∀ i ∈ ids, a.info.isPeer i = true) :
    ∃ a', notifyLoop w msg incomingSrc (ids.map some) a = some a' ∧
      (attempts w msg incomingSrc (ids.map some) a).map Attempt.dst =
        ids.filter (fun id => !isIncomingAgent id incomingSrc) ∧
      (∀ x ∈ attempts w msg incomingSrc (ids.map some) a,
        x.dst ∈ ids ∧ x.found = a.info.peers.find? x.dst) ∧
      Kept a.info (failed (attempts w msg incomingSrc (ids.map some) a)) a'.info := by
  induction ids generalizing a with
  | nil => exact ⟨a, rfl, rfl, by simp [attempts], .refl h hr⟩
  | cons id ids ih =>
    obtain ⟨hid, hd⟩ := List.pairwise_cons.1 hd
    have hps : ∀ i ∈ ids, a.info.isPeer i = true := fun i hi => hp i (List.mem_cons_of_mem _ hi)
    rw [List.map_cons, notifyLoop, attempts]
    cases hin : isIncomingAgent id incomingSrc with
    | true =>
      obtain ⟨a', hrun, hdst, hfound, hk⟩ := ih h hr hd hps
      refine ⟨a', hrun, ?_, fun x hx => ?_, hk⟩
      · rw [List.filter_cons_of_neg (by simp [hin])]
        exact hdst
      · obtain ⟨hx, hf⟩ := hfound x hx
        exact ⟨List.mem_cons_of_mem _ hx, hf⟩
    | false =>
      let copy : Msg := { msgType := .notify, src := msg.src, dst := id, event := msg.event }
      have hpc : a.info.isPeer copy.dst = true := hp id List.mem_cons_self
      obtain ⟨b, hsend, hb⟩ := kept_send w h hr hpc
      -- the ids that follow did not fail with this one
      have hgone : ∀ i ∈ ids, isGone
          (if (w.sendMsg copy a.net).1 = .success then [] else [id]) i = false := by
        intro i hi
        split
        · rfl
        · rw [isGone_singleton]
          exact hid i hi
      obtain ⟨a', hrun, hdst, hfound, hk⟩ := ih hb.inv hb.ready hd
        fun i hi => hb.isPeer (hps i hi) (hgone i hi)
      have hrest : (send w copy a).elim [] (fun r => attempts w msg incomingSrc (ids.map some) r.2) =
          attempts w msg incomingSrc (ids.map some) b := by
        rw [hsend]
        rfl
      simp only [Bool.false_eq_true, if_false]
      rw [hrest]
      refine ⟨a', ?_, ?_, fun x hx => ?_, ?_⟩
      · show (send w copy a).bind _ = _
        rw [hsend]
        exact hrun
      · rw [List.map_cons, hdst, List.filter_cons_of_pos (by simp [hin])]
      · rcases List.mem_cons.1 hx with rfl | hx
        · exact ⟨List.mem_cons_self, rfl⟩
        · obtain ⟨hx, hf⟩ := hfound x hx
          exact ⟨List.mem_cons_of_mem _ hx, hf.trans (hb.find?_eq (hps _ hx) (hgone _ hx))⟩
      · rw [failed_cons]
        exact hb.trans hk

/-! ## Every reachable state -/

theorem ready_runCalls {location : LocationId} {net : N} {calls : List Call} {a : Manager N}
    (h : runCalls w false location net calls = some a) : a.info.ready = true := by
  have hinit : (FTBM.init w false location net).2.info.ready = true := by
    rw [init_eq, NodeInfo.ready]
    exact congrArg (true && !·) (frame_attachInfo (s := blankInfo false location) rfl _).leaf
  exact foldlM_invariant (f := call w) (I := fun a => a.info.ready = true)
    (fun _ _ _ hr hc => ready_call w hc hr) calls hinit h

/-- **An event is dispatched whatever fails.** In every state that an agent reaches, `progress_loop`
sends a notification to every id of the catcher list but those at the agent it came from; each
destination is found in `peers`, as it was there before; and those whose send failed lose all
their entries, the others nothing. -/
theorem dispatch_kept {location : LocationId} {net : N} {calls : List Call} {a : Manager N}
    (h : runCalls w false location net calls = some a) {msg : Msg} (hm : msg.msgType = .notify)
    (incomingSrc : LocationId) :
    ∃ (l : CatcherList) (ids : List Id) (a' : Manager N),
      getCatcherCompList msg.event a.info = .ok l ∧ l.list = ids.map some ∧
      progressLoop w msg incomingSrc a = some a' ∧
      (attempts w msg incomingSrc l.list a).map Attempt.dst =
        ids.filter (fun id => !isIncomingAgent id incomingSrc) ∧
      (∀ x ∈ attempts w msg incomingSrc l.list a, ∃ c ∈ a.info.peers.nodes,
        x.found = some c ∧ isEqualFtbId c.id x.dst = true) ∧
      Kept a.info (failed (attempts w msg incomingSrc l.list a)) a'.info := by
  have hi := inv_runCalls w h
  have hr := ready_runCalls w h
  have hinit : a.info.initialized = true := (NodeInfo.ready_iff.1 hr).1
  obtain ⟨l, ids, hl, hlist, -, -, hd, hmem⟩ := getCatcherCompList_spec hinit msg.event
  have hp : ∀ i ∈ ids, a.info.isPeer i = true := by
    intro i hx
    obtain ⟨m, -, hm⟩ := (hmem i).1 ⟨i, hx, KeyEq.refl i⟩
    exact hi.isPeer_of_listed hm
  obtain ⟨a', hrun, hdst, hfound, hk⟩ := notifyLoop_kept w msg incomingSrc hi hr hd hp
  rw [← hlist] at hrun hdst hfound hk
  refine ⟨l, ids, a', hl, hlist, ?_, hdst, fun x hx => ?_, hk⟩
  · unfold progressLoop
    simp only [hm, hl]
    exact hrun
  · obtain ⟨hx, hf⟩ := hfound x hx
    obtain ⟨c, hc⟩ := NodeInfo.find?_of_isPeer (hp _ hx)
    obtain ⟨hcm, hci⟩ := KeyList.mem_of_find? hc
    exact ⟨c, hcm, hf.trans hc, hci⟩

/-- The layer whose sends end as the state says, and then succeed. -/
def scripted : Network (List Ret) where
  sendMsg _ net := (net.headD .success, net.tail)
  connect _ _ net := (.success, default, net)
  disconnectPeer _ net := (.success, net)

/-- Two clients of the event, and the send to the first one fails. -/
def twoClients : List Call :=
  let second : Id := { (default : Id) with locationId := { (default : LocationId) with pid := 1 } }
  [.clientRegister default, .registerSubscription default default, .clientRegister second,
    .registerSubscription second default]

theorem dispatch_kept_two : ∃ (a a' : Manager (List Ret)) (l : CatcherList) (ids : List Id),
    runCalls scripted false default [.errNetworkGeneral] twoClients = some a ∧
    getCatcherCompList default a.info = .ok l ∧ l.list = ids.map some ∧
    progressLoop scripted ⟨.notify, default, default, default⟩ default a = some a' ∧
    (∀ x ∈ attempts scripted ⟨.notify, default, default, default⟩ default l.list a,
      ∃ c ∈ a.info.peers.nodes, x.found = some c ∧ isEqualFtbId c.id x.dst = true) ∧
    Kept a.info (failed (attempts scripted ⟨.notify, default, default, default⟩ default l.list a))
      a'.info := by
  have hs : (runCalls scripted false default [.errNetworkGeneral] twoClients).isSome = true := rfl
  obtain ⟨a, ha⟩ := Option.isSome_iff_exists.1 hs
  have hm : Msg.msgType ⟨.notify, default, default, default⟩ = .notify := rfl
  obtain ⟨l, ids, a', hl, hlist, hrun, -, hfound, hk⟩ := dispatch_kept scripted ha hm default
  exact ⟨a, a', l, ids, ha, hl, hlist, hrun, hfound, hk⟩

end Agent
