import Ftb.Agent
import Ftb.Manager.Calls
import Ftb.Tcp.Proof.Covered

/-!
# Peers without a connection

A connection is closed inside the network layer, while `peers` is cleaned by the manager library. Only
`FTBN_Grab_messages` announces a closed connection with a `CLEANUP_CONN` message; `FTBN_Send_msg`,
`FTBN_Disconnect_peer` and `FTBN_Connect` leave it to their caller, and most callers ignore it.
`noOrphans` says which runs of an agent have no component in `peers` that is left without both.
-/

open FTB FTBU FTBN FTBMI FTBM FTBN.Sock Trace

namespace Agent.Peering

/-- An agent over its connections. -/
abbrev State := Manager Net

/-- `FTBM_Init(0)` in the process at `location`; nothing else runs yet. -/
def start (location : LocationId) (found : Found) : State :=
  (init sock false location { Net.init with slots := [{ Slot.quiet with found }] }).2

/-- A step of the thread that fills the message queue, or a turn of `progress_loop` with what its calls
of the network layer meet. -/
inductive Ev
  | fill (f : Fill)
  | turn (slots : List Slot)
  deriving DecidableEq, Repr

/-- A turn without a message waits in `FTBM_Recv`. -/
def step (a : State) : Ev → Option State
  | .fill f => some { a with net := a.net.fill f }
  | .turn slots =>
    match a.net.line.take with
    | none => some a
    | some ((msg, src), line) => progressLoop sock msg src { a with net := { a.net with line, slots } }

def run (location : LocationId) (found : Found) (evs : List Ev) : Option State :=
  evs.foldlM step (start location found)

/-- Every component in `peers` has a connection to its location or a `CLEANUP_CONN` message on its
way. -/
def NoOrphans (a : State) : Prop :=
  ∀ c ∈ a.info.peers.nodes, a.net.covered c.id.locationId = true

instance (a : State) : Decidable (NoOrphans a) :=
  inferInstanceAs (Decidable (∀ c ∈ a.info.peers.nodes, a.net.covered c.id.locationId = true))

/-! ## Steps that are careful with connections -/

/-- No other component in `peers` is in the process of `id`. -/
def Alone (a : State) (id : Id) : Prop :=
  ∀ c ∈ a.info.peers.nodes, isEqualLocationId c.id.locationId id.locationId = true →
    isEqualFtbId c.id id = true

/-- The losses that a call takes care of: the destination of a failed send of an event and the
component of a deregistration leave `peers`, and nobody else was there. -/
inductive Harmless (a : State) : Call → Loss → Prop
  | send {msg : Msg} : msg.msgType = .notify → Alone a msg.dst → Harmless a (.send msg) (.send msg)
  | close {msg : Msg} {location : LocationId} :
      isEqualLocationId location msg.dst.locationId = true → Alone a msg.dst →
      Harmless a (.send msg) (.disconnect location)
  | deregister {id : Id} {location : LocationId} :
      isEqualLocationId location id.locationId = true → Alone a id →
      Harmless a (.clientDeregister id) (.disconnect location)

/-- The losses of a step from `a` to `a'`. -/
def newLosses (a a' : State) : List Loss := a'.net.losses.drop a.net.losses.length

/-- The call has no other losses, and a component that it registers is not without a connection. -/
structure CarefulCall (a : State) (c : Call) : Prop where
  losses : ∀ a', call sock a c = some a' → ∀ x ∈ newLosses a a', Harmless a c x
  registers : ∀ id, c = .clientRegister id → a.net.covered id.locationId = true

/-- The sends of `notifyLoop`. -/
def CarefulLoop (msg : Msg) (incomingSrc : LocationId) : List (Option Id) → State → Prop
  | [], _ => True
  | none :: _, _ => True
  | some id :: ids, a =>
    if isIncomingAgent id incomingSrc then CarefulLoop msg incomingSrc ids a
    else
      let c : Call := .send { msgType := .notify, src := msg.src, dst := id, event := msg.event }
      CarefulCall a c ∧ ∀ a', call sock a c = some a' → CarefulLoop msg incomingSrc ids a'

/-- The calls of a turn. -/
def CarefulTurn (msg : Msg) (incomingSrc : LocationId) (a : State) : Prop :=
  match msg.msgType with
  | .notify =>
    match getCatcherCompList msg.event a.info with
    | .error _ => True
    | .ok l => CarefulLoop msg incomingSrc l.list a
  | .clientReg => CarefulCall a (.clientRegister msg.src)
  | .clientDereg => CarefulCall a (.clientDeregister msg.src)
  | .cleanupConn => CarefulCall a (.cleanupConnection incomingSrc)
  | .regSubscription => CarefulCall a (.registerSubscription msg.src msg.event)
  | .subscriptionCancel => CarefulCall a (.cancelSubscription msg.src msg.event)
  | _ => True

/-- A step of the other thread loses no batch. -/
def CarefulStep (a : State) : Ev → Prop
  | .fill f => newLosses a { a with net := a.net.fill f } = []
  | .turn slots =>
    match a.net.line.take with
    | none => True
    | some ((msg, src), line) => CarefulTurn msg src { a with net := { a.net with line, slots } }

/-! ## One call -/

/-- The components with the property are covered. -/
def Covers (p : Id → Prop) (a : State) : Prop :=
  ∀ i, a.info.isPeer i = true → p i → a.net.covered i.locationId = true

theorem noOrphans_iff {a : State} : NoOrphans a ↔ Covers (fun _ => True) a := by
  constructor
  · intro h i hi _
    obtain ⟨c, hc, he⟩ := NodeInfo.isPeer_iff.1 hi
    rw [← covered_congr (isEqualLocationId_of_ftbId he)]
    exact h c hc
  · intro h c hc
    exact h c.id (NodeInfo.isPeer_iff.2 ⟨c, hc, KeyEq.refl _⟩) trivial

theorem Alone.peer {a : State} {id i : Id} (h : Alone a id) (hi : a.info.isPeer i = true)
    (hl : isEqualLocationId i.locationId id.locationId = true) : isEqualFtbId id i = true := by
  obtain ⟨c, hc, he⟩ := NodeInfo.isPeer_iff.1 hi
  have hcl : isEqualLocationId c.id.locationId id.locationId = true :=
    KeyEq.trans (isEqualLocationId_of_ftbId he) hl
  exact KeyEq.trans (KeyEq.symm (h c hc hcl)) he

section
variable {a a' : State} {c : Call} {n : Net} {s : NodeInfo}

/-- The losses of the first part of a call are losses of the call. -/
theorem mem_newLosses {P Q : Loss → Prop} (h : Kept P a.net n) (h' : Kept Q n a'.net) {x : Loss} :
    (x ∈ n.losses.drop a.net.losses.length ∨ x ∈ a'.net.losses.drop n.losses.length) →
      x ∈ newLosses a a' := by
  obtain ⟨new, hl, -, -⟩ := h
  obtain ⟨new', hl', -, -⟩ := h'
  have hfirst : n.losses.drop a.net.losses.length = new := by rw [hl, List.drop_left]
  have hsecond : a'.net.losses.drop n.losses.length = new' := by rw [hl', List.drop_left]
  have hboth : newLosses a a' = new ++ new' := by
    rw [newLosses, hl', hl, List.append_assoc, List.drop_left]
  rw [hfirst, hsecond, hboth, List.mem_append]
  exact id

/-- What `FTBMI_util_reconnect` may lose: no call takes care of it. -/
def Unattended (x : Loss) : Prop :=
  x.IsAppend ∨ (∃ parent, x = .connect parent) ∨ ∃ msg, x = .send msg ∧ msg.msgType = .regSubscription

theorem Harmless.attended {x : Loss} (h : Harmless a c x) : ¬Unattended x := by
  rintro (hx | ⟨parent, rfl⟩ | ⟨msg, rfl, hm⟩)
  · cases h <;> exact hx
  · cases h
  · cases h with
    | send ht _ =>
      rw [ht] at hm
      cases hm

/-- A reconnection keeps what is covered, and covers the parent that it puts into `peers`. -/
theorem covers_utilReconnect (hi : Inv s) :
    Kept Unattended n (utilReconnect sock ⟨s, n⟩).net ∧
      ((∀ x ∈ (utilReconnect sock ⟨s, n⟩).net.losses.drop n.losses.length, ¬Unattended x) →
        ∀ p, Covers p ⟨s, n⟩ → Covers p (utilReconnect sock ⟨s, n⟩)) := by
  rw [utilReconnect_eq]
  have hconnect : let r := reconnectResult sock ⟨s, n⟩
      Kept (fun x => x.IsAppend ∨ x = .connect r.2.1) n r.2.2 ∧
        (r.2.1.pid = 0 ∨ r.2.2.covered r.2.1 = true ∨
          .connect r.2.1 ∈ r.2.2.losses.drop n.losses.length) :=
    kept_connect { msgType := .clientReg, src := s.self, dst := default, event := default } s.parent n
  generalize reconnectResult sock ⟨s, n⟩ = r at hconnect ⊢
  obtain ⟨ret, parent, n₁⟩ := r
  obtain ⟨hconnect, hparent⟩ := hconnect
  dsimp only at hconnect hparent ⊢
  have hsent := kept_sendAll (attachMsgs s parent) n₁
  have hattach : ∀ msg ∈ attachMsgs s parent, msg.msgType = .regSubscription := by
    intro msg hm
    unfold attachMsgs registerMsgs greetMsgs at hm
    split at hm
    · split at hm
      · obtain ⟨ent, -, rfl⟩ := List.mem_map.1 hm
        rfl
      · cases hm
    · cases hm
  have hfirst : Kept Unattended n n₁ := hconnect.mono fun x hx => hx.imp_right fun he => .inl ⟨_, he⟩
  have hsecond : Kept Unattended n₁ (sock.sendAll (attachMsgs s parent) n₁) :=
    hsent.mono fun x hx => hx.imp_right fun ⟨msg, hm, he⟩ => .inr ⟨msg, he, hattach msg hm⟩
  refine ⟨hfirst.trans hsecond, fun hnone p hp => ?_⟩
  let a : State := ⟨s, n⟩
  let a' : State := ⟨attachInfo s parent, sock.sendAll (attachMsgs s parent) n₁⟩
  have hboth : ∀ x, _ → x ∈ newLosses a a' := fun x => mem_newLosses hfirst hsecond
  have hcov₁ := fun l => hfirst.covered (l := l) fun x hx => hnone x (hboth x (.inl hx))
  have hcov₂ := fun l => hsecond.covered (l := l) fun x hx => hnone x (hboth x (.inr hx))
  intro i hip hpi
  rw [(attachInfo_spec hi parent).2.1 i, Bool.or_eq_true] at hip
  rcases hip with hip | hip
  · exact hcov₂ _ (hcov₁ _ (hp i hip hpi))
  · simp only [Bool.and_eq_true, bne_iff_ne, ne_eq] at hip
    have hl : isEqualLocationId parent i.locationId = true := isEqualLocationId_of_ftbId hip.2
    rcases hparent with h0 | hc | hloss
    · exact absurd h0 hip.1.2
    · exact hcov₂ _ (by rwa [← covered_congr hl])
    · exact absurd (.inr (.inl ⟨parent, rfl⟩)) (hnone _ (hboth _ (.inl hloss)))

/-- The component that leaves `peers` by the call. -/
def target : Call → Option Id
  | .send msg => some msg.dst
  | .clientDeregister id => some id
  | _ => none

/-- A harmless loss is in the process of that component, and nobody else is there. -/
theorem Harmless.target {x : Loss} (h : Harmless a c x) : ∃ id, target c = some id ∧ Alone a id ∧
    ∀ l, x.Hits l → isEqualLocationId l id.locationId = true := by
  cases h with
  | send _ ha => exact ⟨_, rfl, ha, fun l hl => KeyEq.symm hl⟩
  | close he ha => exact ⟨_, rfl, ha, fun l hl => KeyEq.trans (KeyEq.symm hl) he⟩
  | deregister he ha => exact ⟨_, rfl, ha, fun l hl => KeyEq.trans (KeyEq.symm hl) he⟩

/-- A call without such a component uncovers nothing. -/
theorem covered_quiet {P : Loss → Prop} (hc : CarefulCall a c) (h : call sock a c = some a')
    (hk : Kept P a.net a'.net) (ht : target c = none) {l : LocationId}
    (hl : a.net.covered l = true) : a'.net.covered l = true := by
  refine hk.covered (fun x hx => ?_) hl
  obtain ⟨id, hid, -⟩ := (hc.losses a' h x hx).target
  rw [ht] at hid
  cases hid

/-- While the component leaves `peers`, the others stay covered. -/
theorem covers_drop {P : Loss → Prop} (hk : Kept P a.net n)
    (hlosses : ∀ x ∈ n.losses.drop a.net.losses.length, Harmless a c x) {id : Id}
    (ht : target c = some id) (h : NoOrphans a) : Covers (fun _ => True) ⟨dropInfo a.info id, n⟩ := by
  obtain ⟨new, hl, -, hcov⟩ := hk
  rw [hl, List.drop_left] at hlosses
  intro i hi _
  have hpeer : (dropInfo a.info id).isPeer i = true := hi
  rw [isPeer_dropInfo, Bool.and_eq_true, Bool.not_eq_true'] at hpeer
  rcases hcov _ (noOrphans_iff.1 h i hpeer.1 trivial) with hc | ⟨x, hx, hit⟩
  · exact hc
  · obtain ⟨id', hid, halone, hloc⟩ := (hlosses x hx).target
    rw [ht, Option.some.injEq] at hid
    subst hid
    rw [halone.peer hpeer.1 (hloc _ hit)] at hpeer
    cases hpeer.2

/-- What a drop, with or without a reconnection after it, leaves. -/
theorem noOrphans_drop {P : Loss → Prop} (hc : CarefulCall a c) (h : call sock a c = some a')
    (hi : Inv a.info) (hno : NoOrphans a) {id : Id} (ht : target c = some id) (hk : Kept P a.net n)
    (hend : a' = ⟨dropInfo a.info id, n⟩ ∨ a' = utilReconnect sock ⟨dropInfo a.info id, n⟩) :
    NoOrphans a' := by
  have hlosses := hc.losses a' h
  rcases hend with rfl | rfl
  · exact noOrphans_iff.2 (covers_drop hk hlosses ht hno)
  · obtain ⟨hk', hcovers⟩ := covers_utilReconnect (n := n) (hi.dropInfo id)
    have hmem := fun x => mem_newLosses (x := x) hk hk'
    refine noOrphans_iff.2 (hcovers (fun x hx => ?_) _ (covers_drop hk (fun x hx => ?_) ht hno))
    · exact (hlosses x (hmem x (.inr hx))).attended
    · exact hlosses x (hmem x (.inl hx))

/-- Messages that are sent lose nothing else. -/
theorem kept_sent {info : NodeInfo} {msgs : List Msg}
    (h : a' = ⟨info, sock.sendAll msgs a.net⟩) : Kept (fun _ => True) a.net a'.net := by
  rw [h]
  exact (kept_sendAll msgs a.net).mono fun _ _ => trivial

/-- **A careful call leaves no orphans.** -/
theorem noOrphans_call (hc : CarefulCall a c) (h : call sock a c = some a') (hi : Inv a.info)
    (hr : a.info.ready = true) (hne : ∀ location, c ≠ .cleanupConnection location)
    (hno : NoOrphans a) : NoOrphans a' := by
  have hall := noOrphans_iff.1 hno
  cases c with
  | clientRegister id =>
    have heq := clientRegister_eq sock id a
    rw [if_pos hr, Option.some.inj h] at heq
    have hk := kept_sent heq
    rw [noOrphans_iff]
    intro i hip _
    refine covered_quiet hc h hk rfl ?_
    have hpeer : (registerInfo a.info id).isPeer i = true := by rwa [heq] at hip
    rw [isPeer_registerInfo, Bool.or_eq_true] at hpeer
    rcases hpeer with hp | hid
    · exact hall i hp trivial
    · rw [← covered_congr (isEqualLocationId_of_ftbId hid)]
      exact hc.registers id rfl
  | registerSubscription id event =>
    have heq := registerSubscription_eq sock id event a
    rw [if_pos hr, Option.some.inj h] at heq
    have hk := kept_sent heq
    rw [noOrphans_iff]
    intro i hip _
    refine covered_quiet hc h hk rfl (hall i ?_ trivial)
    rwa [heq, isPeer_subscribeInfo] at hip
  | cancelSubscription id event =>
    have heq := cancelSubscription_eq sock id event a
    rw [if_pos hr, Option.some.inj h] at heq
    have hk := kept_sent heq
    rw [noOrphans_iff]
    intro i hip _
    refine covered_quiet hc h hk rfl (hall i ?_ trivial)
    rwa [heq, isPeer_cancelInfo] at hip
  | clientDeregister id =>
    have ha' : (clientDeregister sock id a).2 = a' := Option.some.inj h
    rcases clientDeregister_cases sock id a with ⟨he, -⟩ | ⟨n, ht, hend⟩
    · rw [ha'] at he
      rwa [he]
    · rw [ha'] at hend
      exact noOrphans_drop hc h hi hno rfl (kept_traffic ht) hend
  | cleanupConnection location => exact absurd rfl (hne location)
  | send msg =>
    obtain ⟨r, hsend, rfl⟩ := Option.map_eq_some_iff.1 h
    obtain ⟨s, n, ht, ⟨rfl, hsame⟩ | rfl, hend⟩ := send_cases sock hsend
    · obtain ⟨hret, he⟩ := hsame hr
      have hk : Kept Loss.IsAppend a.net r.2.net := by
        rw [he]
        exact (kept_sendMsg msg a.net).2 hret
      have hcov := fun l => hk.covered (l := l) fun x hx =>
        fun hx' => (hc.losses r.2 h x hx).attended (.inl hx')
      intro d hd
      rw [he] at hd
      exact hcov _ (hno d hd)
    · exact noOrphans_drop hc h hi hno rfl (kept_traffic ht) hend

/-- A careful cleanup covers what it keeps, when all others were covered. -/
theorem noOrphans_cleanup {location : LocationId} (hc : CarefulCall a (.cleanupConnection location))
    (h : call sock a (.cleanupConnection location) = some a') (hi : Inv a.info)
    (hr : a.info.ready = true)
    (hall : Covers (fun i => isEqualLocationId location i.locationId = false) a) : NoOrphans a' := by
  obtain ⟨hinv, hpeer, -⟩ := cleanupInfo_spec hi location
  have hdropped : ∀ {n : Net}, (∀ l, a.net.covered l = true → n.covered l = true) →
      Covers (fun _ => True) ⟨cleanupInfo a.info location, n⟩ := by
    intro n hcov i hip _
    have hp : (cleanupInfo a.info location).isPeer i = true := hip
    rw [hpeer, Bool.and_eq_true, Bool.not_eq_true'] at hp
    exact hcov _ (hall i hp.1 hp.2)
  have ha' : (cleanupConnection sock location a).2 = a' := Option.some.inj h
  have hnone : ∀ x ∈ newLosses a a', False := by
    intro x hx
    obtain ⟨id, hid, -⟩ := (hc.losses a' h x hx).target
    cases hid
  rcases cleanupConnection_cases sock location a with ⟨-, hinit⟩ | ⟨n, ht, hend⟩
  · simp [NodeInfo.ready, hinit] at hr
  · have hk := kept_traffic ht
    rw [ha'] at hend
    rcases hend with rfl | rfl
    · refine noOrphans_iff.2 (hdropped fun l hl => ?_)
      exact hk.covered (fun x hx => (hnone x hx).elim) hl
    · obtain ⟨hk', hcovers⟩ := covers_utilReconnect (n := n) hinv
      have hmem := fun x => mem_newLosses (x := x) hk hk'
      refine noOrphans_iff.2 (hcovers (fun x hx => (hnone x (hmem x (.inr hx))).elim) _
        (hdropped fun l hl => ?_))
      exact hk.covered (fun x hx => (hnone x (hmem x (.inl hx))).elim) hl

end

/-! ## Whole runs -/

/-- What every step keeps. -/
structure Good (a : State) : Prop where
  inv : Inv a.info
  ready : a.info.ready = true
  noOrphans : NoOrphans a

theorem good_call {a a' : State} {c : Call} (hg : Good a)
    (hne : ∀ location, c ≠ .cleanupConnection location) (hc : CarefulCall a c)
    (h : call sock a c = some a') : Good a' :=
  ⟨inv_call sock c hg.inv h, ready_call sock h hg.ready,
    noOrphans_call hc h hg.inv hg.ready hne hg.noOrphans⟩

theorem good_notifyLoop {msg : Msg} {src : LocationId} : ∀ {ids : List (Option Id)} {a a' : State},
    Good a → CarefulLoop msg src ids a → notifyLoop sock msg src ids a = some a' → Good a' := by
  intro ids
  induction ids with
  | nil =>
    intro a a' hg _ h
    cases h
    exact hg
  | cons id ids ih =>
    intro a a' hg hc h
    cases id with
    | none => cases h
    | some id =>
      simp only [CarefulLoop] at hc
      simp only [notifyLoop] at h
      split at h
      · rename_i hin
        rw [if_pos hin] at hc
        exact ih hg hc h
      · rename_i hin
        rw [if_neg hin] at hc
        obtain ⟨⟨ret, b⟩, hsend, h⟩ := Option.bind_eq_some_iff.1 h
        have hcall := congrArg (Option.map Prod.snd) hsend
        exact ih (good_call hg (by simp) hc.1 hcall) (hc.2 b hcall) h

/-- Taking a message uncovers the location that it cleans, and no other. -/
theorem covered_take {n : Net} {item : Queue.Item} {line : Queue.Line} (h : n.line.take = some (item, line))
    (slots : List Slot) {l : LocationId} (hl : n.covered l = true) (hc : cleans l item = false) :
    { n with line, slots }.covered l = true := by
  have hitems : n.line.items = item :: line.items := by
    unfold Queue.Line.take at h
    split at h
    · cases h
    · rename_i heq
      cases h
      exact heq
  rw [covered_iff] at hl ⊢
  refine hl.imp_right (Or.imp_left fun ⟨x, hx, hxc⟩ => ?_)
  rw [hitems, List.mem_cons] at hx
  rcases hx with rfl | hx
  · rw [hc] at hxc
    cases hxc
  · exact ⟨x, hx, hxc⟩

theorem good_turn {a a' : State} {msg : Msg} {src : LocationId} {line : Queue.Line} {slots : List Slot}
    (hg : Good a) (ht : a.net.line.take = some ((msg, src), line))
    (hc : CarefulTurn msg src { a with net := { a.net with line, slots } })
    (h : progressLoop sock msg src { a with net := { a.net with line, slots } } = some a') :
    Good a' := by
  have hcov := fun l hl => covered_take ht slots (l := l) hl
  generalize hb : ({ a with net := { a.net with line, slots } } : State) = b at hc h
  have hinfo : b.info = a.info := by rw [← hb]
  have hnet : b.net = { a.net with line, slots } := by rw [← hb]
  rw [← hnet] at hcov
  -- a message other than `CLEANUP_CONN` uncovers nothing
  have hgood : msg.msgType ≠ .cleanupConn → Good b := by
    intro hm
    refine ⟨hinfo ▸ hg.inv, hinfo ▸ hg.ready, fun c hcp => ?_⟩
    rw [hinfo] at hcp
    refine hcov _ (hg.noOrphans c hcp) ?_
    simp [cleans, hm]
  unfold CarefulTurn at hc
  unfold progressLoop at h
  cases hm : msg.msgType with
  | cleanupConn =>
    simp only [hm] at hc h
    have hcall : call sock b (.cleanupConnection src) = some a' := h
    have hinv : Inv b.info := hinfo ▸ hg.inv
    have hready : b.info.ready = true := hinfo ▸ hg.ready
    refine ⟨inv_call sock _ hinv hcall, ready_call sock hcall hready,
      noOrphans_cleanup hc hcall hinv hready fun i hi hne => ?_⟩
    rw [hinfo] at hi
    refine hcov _ (noOrphans_iff.1 hg.noOrphans i hi trivial) ?_
    simp [cleans, hne]
  | notify =>
    simp only [hm] at hc h
    split at h
    · rename_i heq
      cases h
      exact hgood (by simp [hm])
    · rename_i l heq
      simp only [heq] at hc
      exact good_notifyLoop (hgood (by simp [hm])) hc h
  | clientReg =>
    simp only [hm] at hc h
    exact good_call (hgood (by simp [hm])) (by simp) hc h
  | clientDereg =>
    simp only [hm] at hc h
    exact good_call (hgood (by simp [hm])) (by simp) hc h
  | regSubscription =>
    simp only [hm] at hc h
    exact good_call (hgood (by simp [hm])) (by simp) hc h
  | subscriptionCancel =>
    simp only [hm] at hc h
    exact good_call (hgood (by simp [hm])) (by simp) hc h
  | _ =>
    simp only [hm] at h
    cases h
    exact hgood (by simp [hm])

theorem good_step {a a' : State} {e : Ev} (hg : Good a) (hc : CarefulStep a e)
    (h : step a e = some a') : Good a' := by
  cases e with
  | fill f =>
    cases h
    refine ⟨hg.inv, hg.ready, fun c hcp => ?_⟩
    exact (kept_fill f).covered (fun x hx => absurd (hc ▸ hx : x ∈ []) List.not_mem_nil)
      (hg.noOrphans c hcp)
  | turn slots =>
    simp only [CarefulStep] at hc
    simp only [step] at h
    split at h
    · cases h
      exact hg
    · rename_i heq
      simp only [heq] at hc
      exact good_turn hg heq hc h

/-- The parent of a new agent has a connection. -/
theorem good_start (location : LocationId) (found : Found) : Good (start location found) := by
  let net : Net := { Net.init with slots := [{ Slot.quiet with found }] }
  let r := initResult sock false location net
  have hparent : r.2.1.pid = 0 ∨ r.2.2.covered r.2.1 = true := by
    cases found with
    | attached parent =>
      right
      rw [covered_iff]
      left
      have hself : isEqualLocationId parent parent = true := KeyEq.refl parent
      exact Bool.or_eq_true_iff.2 (.inl hself)
    | root => exact .inl rfl
    | failed cleared =>
      left
      cases cleared <;> rfl
  refine ⟨inv_init sock false location _, ?_, noOrphans_iff.2 fun i hi _ => ?_⟩
  · rw [start, init_eq]
    show (true && !(attachInfo (blankInfo false location) _).leaf) = true
    rw [(frame_attachInfo (s := blankInfo false location) rfl _).leaf]
    rfl
  · rw [start, init_eq] at hi ⊢
    have hpeer : (attachInfo (blankInfo false location) _).isPeer i = true := hi
    rw [(attachInfo_spec (inv_blankInfo false location) _).2.1 i, Bool.or_eq_true] at hpeer
    rcases hpeer with hp | hp
    · cases hp
    · simp only [Bool.and_eq_true, bne_iff_ne, ne_eq] at hp
      rcases hparent with h0 | hc
      · exact absurd h0 hp.1.2
      · rw [← covered_congr (isEqualLocationId_of_ftbId hp.2)]
        exact hc

/-- Each step of the run is careful. -/
def CarefulRun : State → List Ev → Prop
  | _, [] => True
  | a, e :: evs => CarefulStep a e ∧ ∀ a', step a e = some a' → CarefulRun a' evs

theorem good_run : ∀ {evs pre post : List Ev} {a a' : State}, Good a → CarefulRun a evs →
    evs = pre ++ post → pre.foldlM step a = some a' → Good a' := by
  intro evs
  induction evs with
  | nil =>
    intro pre post a a' hg _ he h
    obtain ⟨rfl, -⟩ := List.append_eq_nil_iff.1 he.symm
    cases h
    exact hg
  | cons e evs ih =>
    intro pre post a a' hg hc he h
    cases pre with
    | nil =>
      cases h
      exact hg
    | cons e' pre =>
      rw [List.cons_append, List.cons.injEq] at he
      obtain ⟨rfl, rfl⟩ := he
      rw [List.foldlM_cons] at h
      obtain ⟨b, hb, h⟩ := Option.bind_eq_some_iff.1 h
      exact ih (good_step hg hc.1 hb) (hc.2 b hb) rfl h

/-- **No component in `peers` is an orphan in any state of a run whose steps are careful.** -/
theorem noOrphans_of_careful {location : LocationId} {found : Found} {evs : List Ev}
    (hc : CarefulRun (start location found) evs) {pre post : List Ev} (he : evs = pre ++ post)
    {a : State} (h : run location found pre = some a) : NoOrphans a :=
  (good_run (good_start location found) hc he h).noOrphans

/-! ### An agent with a parent -/

/-- The process with this id, on a host without a name. -/
def process (pid : Int) : LocationId := { (default : LocationId) with pid }

/-- The connection to the parent breaks, and the cleanup attaches the agent to another parent. -/
def lostParent : List Ev :=
  [.fill (.read [.broken]), .fill .append, .turn [{ Slot.quiet with found := .attached (process 3) }]]

/-- The turn that cleans up is careful when nothing is lost in it. -/
theorem carefulStep_cleanup {a : State} {src : LocationId} {line : Queue.Line} {slots : List Slot}
    (ht : a.net.line.take = some ((Queue.cleanupMsg, src), line))
    (hnone : let b : State := { a with net := { a.net with line, slots } }
      newLosses b (cleanupConnection sock src b).2 = []) : CarefulStep a (.turn slots) := by
  simp only [CarefulStep, ht, CarefulTurn, Queue.cleanupMsg]
  refine ⟨fun a' h x hx => ?_, by simp⟩
  cases h
  rw [hnone] at hx
  cases hx

/-- The new parent is covered. -/
theorem noOrphans_of_careful_lostParent : ∃ a, run (process 1) (.attached (process 2)) lostParent =
    some a ∧ a.info.isPeer (agentId (process 3)) = true ∧ NoOrphans a := by
  have hany : (run (process 1) (.attached (process 2)) lostParent).any (fun a =>
      a.info.isPeer (agentId (process 3))) = true := by
    decide +kernel
  obtain ⟨a, ha, hpeer⟩ := (Option.any_eq_true _ _).1 hany
  refine ⟨a, ha, hpeer, noOrphans_of_careful ?_ (List.append_nil _).symm ha⟩
  refine ⟨?_, fun a₁ h₁ => ?_⟩
  · unfold CarefulStep
    decide +kernel
  cases h₁
  refine ⟨?_, fun a₂ h₂ => ?_⟩
  · unfold CarefulStep
    decide +kernel
  cases h₂
  exact ⟨carefulStep_cleanup rfl (by decide +kernel), fun _ _ => trivial⟩

/-- A client subscribes, and the agent cannot write its subscription to the parent. -/
def lostSend : List Ev :=
  [.fill (.accept (process 3) ⟨.clientReg, { (default : Id) with locationId := process 3 }, default, default⟩),
    .fill (.read []), .fill .append, .turn [],
    .fill (.read [.msg ⟨.regSubscription, { (default : Id) with locationId := process 3 }, default, default⟩]),
    .fill .append, .turn [{ Slot.quiet with writes := false }]]

/-- The parent stays in `peers` without a connection. -/
theorem lostSend_orphans : ¬∀ location found evs a, run location found evs = some a → NoOrphans a := by
  intro h
  have hany : (run (process 1) (.attached (process 2)) lostSend).any (fun a =>
      !decide (NoOrphans a)) = true := by
    decide +kernel
  obtain ⟨a, ha, hn⟩ := (Option.any_eq_true _ _).1 hany
  simp [h _ _ _ a ha] at hn

end Agent.Peering
