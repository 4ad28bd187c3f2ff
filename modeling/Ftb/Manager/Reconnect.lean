import Ftb.Manager.Proof.Inv
import Ftb.Tcp.Exits
import Ftb.Tcp.Proof.Covered

/-!
# What a reconnection leaves

`FTBMI_util_reconnect` does not look at what `FTBN_Connect` returns: it takes a process id other
than 0 in `FTBMI_info.parent` for a new parent. That is right for three of the four ways out of
`FTBN_Connect` (`Dial.Exit`). On the fourth the lost parent is still in the out-parameter and goes
back into `peers` without a connection. `reconnect_iff` says when the agent is attached as it should
be, for every run of `FTBN_Connect` that returns.

The other thread may work during the call, too. It is only assumed that it closes no connection and
that the lost parent does not come back as a child.
-/

open FTB FTBU FTBN FTBNI FTBMI FTBN.Sock

namespace Agent.Reconnect

/-- `FTBN_Connect` with these answers. -/
def dial (link : Linked) (c : Conn) (answers : List Answer) (parent : LocationId) (n : Net) :
    Dial :=
  (Dial.start link c parent n.meet.2.conns).run answers

/-- The network layer of an agent, with the loop of `FTBN_Connect`. It also writes down the messages
that were sent. -/
def dialing (link : Linked) (c : Conn) (answers : List Answer) : Network (Net × List Msg) where
  sendMsg msg net :=
    let (ret, n) := sendMsg msg net.1
    (ret, n, if ret = .success then net.2 ++ [msg] else net.2)
  connect _ parent net :=
    let t := dial link c answers parent net.1
    let ret := match t.conn.pc with
      | .done ret => ret
      | _ => .errNetworkGeneral
    (ret, t.parentLocationId, { net.1.meet.2 with conns := t.conns }, net.2)
  disconnectPeer location net :=
    let (ret, n) := disconnectPeer location net.1
    (ret, n, net.2)

/-- Every component in `peers` has a connection. -/
def Connected (info : NodeInfo) (n : Net) : Prop :=
  ∀ c ∈ info.peers.nodes, findConnection c.id.locationId n.conns = true

/-- The message registers the mask with the agent at the location. -/
def registers (parent : LocationId) (mask : Event) (msg : Msg) : Bool :=
  msg.msgType = .regSubscription && isEqualFtbId msg.dst (agentId parent)
    && isEqualEventMask msg.event mask

/-- The agent has a connection to its parent, the parent is an agent in `peers`, and it was sent
each mask of `catch_event_map` once. -/
structure Attached (a : Manager (Net × List Msg)) : Prop where
  connection : findConnection a.info.parent a.net.1.conns = true
  peer : a.info.isPeer (agentId a.info.parent) = true
  told : ∀ ent ∈ a.info.catchEventMap.nodes, a.net.2.countP (registers a.info.parent ent.mask) = 1

/-- What `FTBMI_util_reconnect` is to leave: no parent or one that the agent is attached to, and no
component without a connection. -/
def Reconnected (a : Manager (Net × List Msg)) : Prop :=
  (a.info.parent.pid = 0 ∨ Attached a) ∧ Connected a.info a.net.1

instance (info : NodeInfo) (n : Net) : Decidable (Connected info n) :=
  inferInstanceAs
    (Decidable (∀ c ∈ info.peers.nodes, findConnection c.id.locationId n.conns = true))

instance (a : Manager (Net × List Msg)) : Decidable (Attached a) :=
  decidable_of_iff
    (findConnection a.info.parent a.net.1.conns = true ∧
      a.info.isPeer (agentId a.info.parent) = true ∧
      ∀ ent ∈ a.info.catchEventMap.nodes,
        a.net.2.countP (registers a.info.parent ent.mask) = 1)
    ⟨fun h => ⟨h.1, h.2.1, h.2.2⟩, fun h => ⟨h.connection, h.peer, h.told⟩⟩

instance (a : Manager (Net × List Msg)) : Decidable (Reconnected a) :=
  inferInstanceAs (Decidable ((a.info.parent.pid = 0 ∨ Attached a) ∧ Connected a.info a.net.1))

/-- The writes of the next `k` sends succeed. -/
def Writes (k : Nat) (slots : List Slot) : Prop := ∀ slot ∈ slots.take k, slot.writes = true

/-- `FTBN_Connect` leaves no parent. Or it succeeds, and the parent is new in `peers` and every write
to it succeeds; where the parent is in `peers` already it is told nothing, so there is no mask. -/
def Reattaches (ret : Ret) (parent : LocationId) (info : NodeInfo) (slots : List Slot) : Prop :=
  parent.pid = 0 ∨ ret = .success ∧
    if info.isPeer (agentId parent) then info.catchEventMap.nodes = []
    else Writes info.catchEventMap.nodes.length slots

instance (k : Nat) (slots : List Slot) : Decidable (Writes k slots) :=
  inferInstanceAs (Decidable (∀ slot ∈ slots.take k, slot.writes = true))

instance (ret : Ret) (parent : LocationId) (info : NodeInfo) (slots : List Slot) :
    Decidable (Reattaches ret parent info slots) :=
  inferInstanceAs (Decidable (parent.pid = 0 ∨ ret = .success ∧
    if info.isPeer (agentId parent) then info.catchEventMap.nodes = []
    else Writes info.catchEventMap.nodes.length slots))

/-- The step of the other thread closes no connection and accepts none from the location. -/
def Undisturbing (lost : LocationId) : Fill → Prop
  | .accept location _ => isEqualLocationId location lost = false
  | .read reads => .broken ∉ reads
  | .append => True

/-- The other thread is undisturbing during the calls. -/
def Quiet (lost : LocationId) (slots : List Slot) : Prop :=
  ∀ slot ∈ slots, ∀ f ∈ slot.fills, Undisturbing lost f

/-! ## The other thread -/

/-- The connections that stay, and none to the location that is lost. -/
structure Grown (lost : LocationId) (n n' : Net) : Prop where
  stays : ∀ l, findConnection l n.conns = true → findConnection l n'.conns = true
  lost : findConnection lost n.conns = false → findConnection lost n'.conns = false

section
variable {lost : LocationId} {n n' n'' : Net}

theorem Grown.of_conns (h : n'.conns = n.conns) : Grown lost n n' := by
  refine ⟨fun l hl => ?_, fun hl => ?_⟩ <;> rwa [h]

theorem Grown.trans (h : Grown lost n n') (h' : Grown lost n' n'') : Grown lost n n'' :=
  ⟨fun l hl => h'.stays l (h.stays l hl), fun hl => h'.lost (h.lost hl)⟩

theorem findConnection_cons (l dst : LocationId) (conns : List LocationId) :
    findConnection l (dst :: conns) = (isEqualLocationId dst l || findConnection l conns) := rfl

/-- Reads that find no broken connection leave all. -/
theorem readAll_conns {reads : List Read} (h : Read.broken ∉ reads) :
    ∀ conns, (readAll conns reads).2.2 = conns := by
  induction reads with
  | nil =>
    intro conns
    cases conns <;> rfl
  | cons read reads ih =>
    rw [List.mem_cons, not_or] at h
    intro conns
    cases conns with
    | nil => cases read <;> rfl
    | cons dst conns =>
      cases read with
      | idle => simp only [readAll, ih h.2]
      | msg msg => simp only [readAll, ih h.2]
      | broken => exact absurd rfl h.1

theorem grown_fill {f : Fill} (h : Undisturbing lost f) (n : Net) : Grown lost n (n.fill f) := by
  cases f with
  | accept location msg =>
    cases hf : n.filler with
    | idle =>
      simp only [Net.fill, hf]
      constructor
      · intro l hl
        rw [findConnection_cons, hl, Bool.or_true]
      · intro hl
        have hne : isEqualLocationId location lost = false := h
        rw [findConnection_cons, hl, hne]
        rfl
    | accepted item => simp only [Net.fill, hf]; exact .of_conns rfl
    | grabbed b => simp only [Net.fill, hf]; exact .of_conns rfl
  | read reads =>
    have hread : (readAll n.conns reads).2.2 = n.conns := readAll_conns h _
    cases hf : n.filler with
    | idle => simp only [Net.fill, hf]; exact .of_conns hread
    | accepted item => simp only [Net.fill, hf]; exact .of_conns hread
    | grabbed b => simp only [Net.fill, hf]; exact .of_conns rfl
  | append =>
    cases hf : n.filler with
    | grabbed b =>
      simp only [Net.fill, hf]
      split <;> exact .of_conns rfl
    | idle => simp only [Net.fill, hf]; exact .of_conns rfl
    | accepted item => simp only [Net.fill, hf]; exact .of_conns rfl

theorem slots_fill (n : Net) (f : Fill) : (n.fill f).slots = n.slots := by
  unfold Net.fill
  split
  · rfl
  · rfl
  · rfl
  · dsimp only
    split <;> rfl
  · rfl

theorem fills_spec {fills : List Fill} (h : ∀ f ∈ fills, Undisturbing lost f) (n : Net) :
    Grown lost n (fills.foldl Net.fill n) ∧ (fills.foldl Net.fill n).slots = n.slots := by
  induction fills generalizing n with
  | nil => exact ⟨.of_conns rfl, rfl⟩
  | cons f fills ih =>
    obtain ⟨hg, hs⟩ := ih (fun g hg => h g (List.mem_cons_of_mem _ hg)) (n.fill f)
    exact ⟨(grown_fill (h f List.mem_cons_self) n).trans hg, hs.trans (slots_fill n f)⟩

/-- What a call meets. -/
theorem meet_spec (h : Quiet lost n.slots) :
    Grown lost n n.meet.2 ∧ n.meet.2.slots = n.slots.tail ∧
      n.meet.1 = n.slots.headD .quiet := by
  unfold Net.meet
  cases hs : n.slots with
  | nil => exact ⟨.of_conns rfl, hs, rfl⟩
  | cons slot slots =>
    rw [hs] at h
    obtain ⟨hg, hf⟩ := fills_spec (h slot List.mem_cons_self) { n with slots }
    have hslots : Grown lost n { n with slots } := .of_conns rfl
    exact ⟨hslots.trans hg, hf, rfl⟩

theorem Quiet.tail {slots : List Slot} (h : Quiet lost slots) : Quiet lost slots.tail :=
  fun slot hs => h slot (List.mem_of_mem_tail hs)

end

/-! ## The sends -/

section
variable {link : Linked} {c : Conn} {answers : List Answer} {lost : LocationId} {n : Net}
  {msgs log : List Msg}

theorem writes_succ (k : Nat) (slots : List Slot) :
    Writes (k + 1) slots ↔ (slots.headD .quiet).writes = true ∧ Writes k slots.tail := by
  unfold Writes
  cases slots with
  | nil => simp [Slot.quiet]
  | cons slot slots => simp

theorem sendAll_cons {N : Type} (w : Network N) (msg : Msg) (msgs : List Msg) (net : N) :
    w.sendAll (msg :: msgs) net = w.sendAll msgs (w.sendMsg msg net).2 := rfl

/-- What one send leaves. -/
theorem send_noRoute {msg : Msg}
    (hf : findConnection msg.dst.locationId n.meet.2.conns = false) :
    ((dialing link c answers).sendMsg msg (n, log)).2 = (n.meet.2, log) := by
  simp [dialing, sendMsg, hf]

theorem send_writes {msg : Msg} (hf : findConnection msg.dst.locationId n.meet.2.conns = true)
    (hw : n.meet.1.writes = true) :
    ((dialing link c answers).sendMsg msg (n, log)).2 = (n.meet.2, log ++ [msg]) := by
  simp [dialing, sendMsg, hf, hw]

theorem send_fails {msg : Msg} (hf : findConnection msg.dst.locationId n.meet.2.conns = true)
    (hw : n.meet.1.writes = false) :
    ∃ n', ((dialing link c answers).sendMsg msg (n, log)).2 = (n', log) ∧
      n'.slots = n.meet.2.slots := by
  refine ⟨(n.meet.2.drop msg.dst.locationId).record msg.dst.locationId (.send msg), ?_, ?_⟩
  · simp [dialing, sendMsg, hf, hw]
  · unfold Net.record
    split <;> rfl

/-- Over a connection, the messages whose writes succeed are all sent. -/
theorem sendAll_writes (hq : Quiet lost n.slots) (hw : Writes msgs.length n.slots)
    (hto : ∀ msg ∈ msgs, findConnection msg.dst.locationId n.conns = true) :
    let net := (dialing link c answers).sendAll msgs (n, log)
    Grown lost n net.1 ∧ net.2 = log ++ msgs := by
  induction msgs generalizing n log with
  | nil => exact ⟨.of_conns rfl, (List.append_nil log).symm⟩
  | cons msg msgs ih =>
    obtain ⟨hgrown, hslots, hhead⟩ := meet_spec hq
    rw [List.length_cons, writes_succ] at hw
    have hfound : findConnection msg.dst.locationId n.meet.2.conns = true :=
      hgrown.stays _ (hto msg List.mem_cons_self)
    have hrest := @ih n.meet.2 (log ++ [msg]) (by rw [hslots]; exact hq.tail)
      (by rw [hslots]; exact hw.2)
      fun m hm => hgrown.stays _ (hto m (List.mem_cons_of_mem _ hm))
    rw [sendAll_cons, send_writes hfound (by rw [hhead]; exact hw.1)]
    refine ⟨hgrown.trans hrest.1, hrest.2.trans ?_⟩
    rw [List.append_assoc]
    rfl

/-- Without a connection none comes back. -/
theorem sendAll_lost (hq : Quiet lost n.slots) (hlost : findConnection lost n.conns = false)
    (hto : ∀ msg ∈ msgs, msg.dst.locationId = lost) :
    findConnection lost ((dialing link c answers).sendAll msgs (n, log)).1.conns = false := by
  induction msgs generalizing n log with
  | nil => exact hlost
  | cons msg msgs ih =>
    obtain ⟨hgrown, hslots, -⟩ := meet_spec hq
    have hfound : findConnection msg.dst.locationId n.meet.2.conns = false := by
      rw [hto msg List.mem_cons_self]
      exact hgrown.lost hlost
    rw [sendAll_cons, send_noRoute hfound]
    apply ih (by rw [hslots]; exact hq.tail) (hgrown.lost hlost)
    exact fun m hm => hto m (List.mem_cons_of_mem _ hm)

/-- What was sent is a part of the messages, and it is all of them only if every write succeeded. -/
theorem sendAll_sent (hq : Quiet lost n.slots) :
    ∃ sent, ((dialing link c answers).sendAll msgs (n, log)).2 = log ++ sent ∧
      sent.Sublist msgs ∧ (sent = msgs → Writes msgs.length n.slots) := by
  induction msgs generalizing n log with
  | nil => exact ⟨[], (List.append_nil log).symm, List.Sublist.refl _, fun _ => by simp [Writes]⟩
  | cons msg msgs ih =>
    obtain ⟨-, hslots, hhead⟩ := meet_spec hq
    rw [sendAll_cons, List.length_cons]
    -- a message that is not sent makes what is sent shorter
    have hshort : ∀ sent : List Msg, sent.Sublist msgs → sent ≠ msg :: msgs := by
      intro sent hsub he
      have := hsub.length_le
      rw [he, List.length_cons] at this
      omega
    cases hfound : findConnection msg.dst.locationId n.meet.2.conns with
    | false =>
      rw [send_noRoute hfound]
      obtain ⟨sent, hsent, hsub, -⟩ := @ih n.meet.2 log (by rw [hslots]; exact hq.tail)
      exact ⟨sent, hsent, hsub.cons msg, fun he => absurd he (hshort sent hsub)⟩
    | true =>
      cases hw : n.meet.1.writes with
      | false =>
        obtain ⟨n', hsend, hs⟩ := @send_fails link c answers n log msg hfound hw
        obtain ⟨sent, hsent, hsub, -⟩ := @ih n' log (by rw [hs, hslots]; exact hq.tail)
        rw [hsend]
        exact ⟨sent, hsent, hsub.cons msg, fun he => absurd he (hshort sent hsub)⟩
      | true =>
        rw [send_writes hfound hw]
        obtain ⟨sent, hsent, hsub, hall⟩ := @ih n.meet.2 (log ++ [msg])
          (by rw [hslots]; exact hq.tail)
        refine ⟨msg :: sent, ?_, hsub.cons_cons msg, fun he => ?_⟩
        · rw [hsent, List.append_assoc]
          rfl
        · rw [writes_succ, ← hhead, ← hslots]
          exact ⟨hw, hall (List.cons.inj he).2⟩

/-- The message that tells an agent one mask. -/
def greeting (info : NodeInfo) (parent : LocationId) (ent : CatchEntry) : Msg :=
  { msgType := .regSubscription, src := info.self, dst := agentId parent, event := ent.mask }

theorem registers_greeting (info : NodeInfo) (parent : LocationId) (mask : Event)
    (ent : CatchEntry) :
    registers parent mask (greeting info parent ent) = isEqualEventMask ent.mask mask := by
  have hid : isEqualFtbId (agentId parent) (agentId parent) = true := KeyEq.refl _
  simp [registers, greeting, hid]

/-- A part of the messages that greet an agent has each mask once only if it is all of them. -/
theorem greetMsgs_told {info : NodeInfo} {parent : LocationId} {sent : List Msg}
    (hsub : sent.Sublist (greetMsgs info (agentId parent))) :
    (∀ ent ∈ info.catchEventMap.nodes, sent.countP (registers parent ent.mask) = 1) ↔
      sent = greetMsgs info (agentId parent) := by
  have hgreet : greetMsgs info (agentId parent) =
      info.catchEventMap.nodes.map (greeting info parent) := rfl
  rw [hgreet] at hsub ⊢
  constructor
  · intro h
    obtain ⟨ents, hents, rfl⟩ := List.sublist_map_iff.1 hsub
    rw [KeyList.eq_nodes_of_sublist hents]
    intro ent he
    have hpos : 0 < (ents.map (greeting info parent)).countP (registers parent ent.mask) := by
      rw [h ent he]
      exact Nat.one_pos
    obtain ⟨msg, hm, hr⟩ := List.countP_pos_iff.1 hpos
    obtain ⟨ent', he', rfl⟩ := List.mem_map.1 hm
    exact ⟨ent', he', (registers_greeting info parent ent.mask ent').symm.trans hr⟩
  · intro h ent he
    have hcomp : registers parent ent.mask ∘ greeting info parent =
        fun ent' => isEqualEventMask ent'.mask ent.mask :=
      funext fun ent' => registers_greeting info parent ent.mask ent'
    rw [h, List.countP_map, hcomp]
    exact KeyList.countP_key he

end

/-! ## The call -/

section
variable {link : Linked} {c : Conn} {answers : List Answer} {info : NodeInfo} {n : Net}
  {parent lost : LocationId} {ret : Ret}

theorem connected_iff : Connected info n ↔
    ∀ i, info.isPeer i = true → findConnection i.locationId n.conns = true := by
  constructor
  · intro h i hi
    obtain ⟨c, hc, he⟩ := NodeInfo.isPeer_iff.1 hi
    rw [← findConnection_congr (isEqualLocationId_of_ftbId he)]
    exact h c hc
  · exact fun h c hc => h c.id (NodeInfo.isPeer_iff.2 ⟨c, hc, KeyEq.refl _⟩)

/-- The agent after `FTBN_Connect` left the parent and the connections. -/
def attached (link : Linked) (c : Conn) (answers : List Answer) (info : NodeInfo)
    (parent : LocationId) (n : Net) : Manager (Net × List Msg) :=
  ⟨attachInfo info parent, (dialing link c answers).sendAll (attachMsgs info parent) (n, [])⟩

theorem reconnect_eq (link : Linked) (c : Conn) (answers : List Answer) (info : NodeInfo)
    (n : Net) :
    let t := dial link c answers info.parent n
    utilReconnect (dialing link c answers) ⟨info, n, []⟩ =
      attached link c answers info t.parentLocationId { n.meet.2 with conns := t.conns } := by
  rw [utilReconnect_eq]
  rfl

/-- Without a parent nothing is inserted and nothing is sent. -/
theorem reconnected_none (hp : parent.pid = 0) (hpeers : Connected info n) :
    Reconnected (attached link c answers info parent n) := by
  have hpid : (parent.pid != 0) = false := by rw [hp]; rfl
  have hmsgs : attachMsgs info parent = [] := by
    simp only [attachMsgs, hpid, Bool.and_false, Bool.false_eq_true, if_false]
  have hinfo : (attachInfo info parent).parent = parent ∧
      (attachInfo info parent).peers = info.peers := by
    unfold attachInfo
    rw [hpid, Bool.and_false]
    split <;> exact ⟨rfl, rfl⟩
  unfold Reconnected Connected attached
  rw [hmsgs, hinfo.1, hinfo.2]
  exact ⟨.inl hp, hpeers⟩

/-- The parent is in `peers`, and its connection serves it. -/
theorem registered (hfound : findConnection parent n.conns = true) (hpeers : Connected info n) :
    (registerInfo { info with parent } (agentId parent)).isPeer (agentId parent) = true ∧
      Connected (registerInfo { info with parent } (agentId parent)) n := by
  constructor
  · rw [isPeer_registerInfo]
    exact Bool.or_eq_true_iff.2 (.inr (KeyEq.refl _))
  · rw [connected_iff] at hpeers ⊢
    intro i hi
    rw [isPeer_registerInfo, Bool.or_eq_true] at hi
    rcases hi with hi | hi
    · exact hpeers i hi
    · rwa [← findConnection_congr (isEqualLocationId_of_ftbId hi)]

/-- A parent that `peers` has already is told nothing. -/
theorem reconnected_known (hleaf : info.leaf = false) (hp : parent.pid ≠ 0)
    (hknown : info.isPeer (agentId parent) = true)
    (hfound : findConnection parent n.conns = true) (hpeers : Connected info n) :
    Reconnected (attached link c answers info parent n) ↔ info.catchEventMap.nodes = [] := by
  obtain ⟨hinfo, hmsgs⟩ := attach_found hleaf hp
  have hnone : registerMsgs info (agentId parent) = [] := by
    simp only [registerMsgs, hknown, Bool.not_true, Bool.false_and, Bool.false_eq_true, if_false]
  obtain ⟨hpeer, hconn⟩ := registered hfound hpeers
  unfold Reconnected attached
  rw [hinfo, hmsgs, hnone]
  constructor
  · intro h
    have htold := (h.1.resolve_left hp).told
    -- no message was sent, so there is no mask
    refine List.eq_nil_iff_forall_not_mem.2 fun ent he => ?_
    have hone : ([] : List Msg).countP (registers parent ent.mask) = 1 := htold ent he
    rw [List.countP_nil] at hone
    omega
  · intro hnil
    refine ⟨.inr ⟨hfound, hpeer, fun ent he => ?_⟩, hconn⟩
    have hmem : ent ∈ info.catchEventMap.nodes := he
    rw [hnil] at hmem
    cases hmem

/-- A new parent is told every mask exactly if every write succeeds. -/
theorem reconnected_new (hleaf : info.leaf = false) (hp : parent.pid ≠ 0)
    (hnew : info.isPeer (agentId parent) = false)
    (hfound : findConnection parent n.conns = true) (hpeers : Connected info n)
    (hq : Quiet lost n.slots) :
    Reconnected (attached link c answers info parent n) ↔
      Writes info.catchEventMap.nodes.length n.slots := by
  obtain ⟨hinfo, hmsgs⟩ := attach_found hleaf hp
  have hgreet : registerMsgs info (agentId parent) = greetMsgs info (agentId parent) := by
    simp only [registerMsgs, hnew, isAgent_agentId, Bool.not_false, Bool.true_and, if_true]
  have hlen : (greetMsgs info (agentId parent)).length = info.catchEventMap.nodes.length :=
    List.length_map _
  unfold Reconnected attached
  rw [hinfo, hmsgs, hgreet]
  constructor
  · intro h
    have htold := (h.1.resolve_left hp).told
    obtain ⟨sent, hsent, hsub, hall⟩ :=
      @sendAll_sent link c answers lost n (greetMsgs info (agentId parent)) [] hq
    rw [hsent] at htold
    rw [← hlen]
    exact hall ((greetMsgs_told hsub).1 htold)
  · intro hw
    have hto : ∀ msg ∈ greetMsgs info (agentId parent),
        findConnection msg.dst.locationId n.conns = true := by
      intro msg hm
      obtain ⟨ent, -, rfl⟩ := List.mem_map.1 hm
      exact hfound
    rw [← hlen] at hw
    obtain ⟨hgrown, hsent⟩ := @sendAll_writes link c answers lost n _ [] hq hw hto
    obtain ⟨hpeer, hconn⟩ := registered hfound hpeers
    refine ⟨.inr ⟨hgrown.stays _ hfound, hpeer, ?_⟩, fun c hc => hgrown.stays _ (hconn c hc)⟩
    rw [hsent, List.nil_append]
    exact (greetMsgs_told (List.Sublist.refl _)).2 rfl

/-- The lost parent is put back, and nothing reaches it. -/
theorem not_reconnected_lost (hleaf : info.leaf = false) (hp : parent.pid ≠ 0)
    (hlost : findConnection parent n.conns = false) (hq : Quiet parent n.slots) :
    ¬Reconnected (attached link c answers info parent n) := by
  obtain ⟨hinfo, hmsgs⟩ := attach_found hleaf hp
  have hto : ∀ msg ∈ registerMsgs info (agentId parent), msg.dst.locationId = parent := by
    intro msg hm
    unfold registerMsgs at hm
    split at hm
    · obtain ⟨ent, -, rfl⟩ := List.mem_map.1 hm
      rfl
    · cases hm
  intro h
  have hconn := (h.1.resolve_left (by rw [attached, hinfo]; exact hp)).connection
  have hnone := @sendAll_lost link c answers parent n _ [] hq hlost hto
  rw [attached, hinfo, hmsgs] at hconn
  exact Bool.false_ne_true (hnone.symm.trans hconn)

/-- After a call in which `FTBN_Connect` returns, the agent is attached as it should be exactly if
`FTBN_Connect` leaves no parent or succeeds with a parent that is told every mask. -/
theorem reconnect_iff (link : Linked) (c : Conn) (answers : List Answer) (info : NodeInfo) (n : Net)
    (ret : Ret) (hleaf : info.leaf = false) (hpeers : Connected info n)
    (hlost : info.parent.pid ≠ 0 → findConnection info.parent n.conns = false)
    (hquiet : Quiet info.parent n.slots)
    (hret : (dial link c answers info.parent n).conn.pc = .done ret) :
    Reconnected (utilReconnect (dialing link c answers) ⟨info, n, []⟩) ↔
      Reattaches ret (dial link c answers info.parent n).parentLocationId info n.slots.tail := by
  obtain ⟨hgrown, hslots, -⟩ := meet_spec hquiet
  have hexit := @Dial.exit_run info.parent n.meet.2.conns ret link c answers hret
  have hmet : Connected info n.meet.2 := fun c hc => hgrown.stays _ (hpeers c hc)
  have htail : Quiet info.parent n.meet.2.slots := by
    rw [hslots]
    exact hquiet.tail
  rw [reconnect_eq, ← hslots]
  have hdial : (Dial.start link c info.parent n.meet.2.conns).run answers =
      dial link c answers info.parent n := rfl
  rw [hdial] at hexit
  dsimp only at hexit ⊢
  generalize (dial link c answers info.parent n).parentLocationId = parent at hexit ⊢
  generalize (dial link c answers info.parent n).conns = conns at hexit ⊢
  by_cases hp : parent.pid = 0
  · have hpeers' : Connected info { n.meet.2 with conns } := by
      cases hexit with
      | attached dst =>
        intro c hc
        exact Bool.or_eq_true_iff.2 (.inr (hmet c hc))
      | root => exact hmet
      | kept => exact hmet
      | cleared => exact hmet
    exact iff_of_true (reconnected_none hp hpeers') (.inl hp)
  · cases hexit with
    | attached dst =>
      have hpeers' : Connected info { n.meet.2 with conns := parent :: n.meet.2.conns } :=
        fun c hc => Bool.or_eq_true_iff.2 (.inr (hmet c hc))
      have hfound : findConnection parent (parent :: n.meet.2.conns) = true :=
        Bool.or_eq_true_iff.2 (.inl (KeyEq.refl _))
      cases hk : info.isPeer (agentId parent) with
      | false =>
        rw [reconnected_new hleaf hp hk hfound hpeers' htail]
        simp [Reattaches, hp, hk]
      | true =>
        rw [reconnected_known hleaf hp hk hfound hpeers']
        simp [Reattaches, hp, hk]
    | root => exact absurd rfl hp
    | kept =>
      refine iff_of_false (not_reconnected_lost hleaf hp (hgrown.lost (hlost hp)) htail) fun h => ?_
      cases (h.resolve_left hp).1
    | cleared => exact absurd rfl hp

/-- An agent that lost its parent `p`, with one client that holds one mask. -/
def bereft : NodeInfo where
  parent := ⟨"p".toList, [], 7⟩
  self := agentId ⟨"a".toList, [], 1⟩
  errHandling := errHandleRecover
  leaf := false
  peers := KeyList.empty.insert ⟨0, clientOf, KeyList.empty.insert default⟩
  catchEventMap := KeyList.empty.insert ⟨default, KeyList.empty.insert ⟨0, clientOf⟩⟩
  initialized := true
  nextAddr := 1
where
  clientOf : Id := { agentId ⟨"a".toList, [], 2⟩ with clientId := default }

/-- Its connections. -/
def bereftNet : Net := { Net.init with conns := [⟨"a".toList, [], 2⟩] }

/-- It asks the server again, below its old parent. -/
def asking : Conn :=
  ⟨false, ⟨"a".toList, 10809⟩, 3, ⟨"p".toList, 10809⟩, 2, 0, .request⟩

/-- The server names the agent at `q`, and the attempts to connect to it all end in the same way. -/
def named (link : Linked) : Answer where
  reply := some { bootstrapMsgType := addrRep, level := 1, parentAddr := ⟨"q".toList, 10809⟩,
                  addr := ⟨"a".toList, 10809⟩ }
  link := link

theorem reconnect_iff_new :
    Reconnected (utilReconnect
      (dialing .noRoute asking (List.replicate 3 (named (.attached ⟨"q".toList, [], 9⟩))))
      ⟨bereft, bereftNet, []⟩) :=
  (reconnect_iff .noRoute asking _ bereft bereftNet .success rfl (by decide) (fun _ => by decide)
    (fun _ hs => absurd hs List.not_mem_nil) (by decide)).2 (by decide)

/-- Twice the greeting fails: `FTBN_Connect` returns an error, and `p` is a peer again. -/
theorem failedConnect_orphans :
    ¬∀ link c answers info n ret, info.leaf = false → Connected info n →
      (info.parent.pid ≠ 0 → findConnection info.parent n.conns = false) →
      Quiet info.parent n.slots → (dial link c answers info.parent n).conn.pc = .done ret →
      Reconnected (utilReconnect (dialing link c answers) ⟨info, n, []⟩) := by
  intro h
  have hpost := h .noRoute asking (List.replicate 4 (named .general)) bereft bereftNet
    .errNetworkGeneral rfl (by decide) (fun _ => by decide)
    (fun _ hs => absurd hs List.not_mem_nil) (by decide)
  exact absurd hpost (by decide)

end

end Agent.Reconnect
