import Ftb.Backplane.Routing

/-!
# A backplane with events in flight

Clients publish at any time, while others register, subscribe, cancel and deregister, agents join and
earlier events are still on their way. `World.hush` is such a world without its events: as an event
changes no table, it is a world that the backplane reaches when nothing is published (`Live`), and what
an action does is a turn on a message that was taken (`Takes`), of control or with an event, or an agent
that joins (`traffic_cases`).

`events` are the events of one publisher among messages, in order, and `received` those among them
that are for one component.
-/

open FTB FTBU FTBN FTBMI Trace

namespace Backplane

variable {ι : Type} (P : Places ι)

/-- What clients do: as in `Control`, and they publish. -/
def Traffic : Action ι → Prop
  | .client _ msg => P.IsClient msg.src ∧ msg.msgType ≠ .cleanupConn
  | _ => True

section
variable [DecidableEq ι]

/-- The worlds that these actions reach, from one agent. -/
def Busy : World ι → Prop :=
  Reachable (fun w => ∃ r, w = start P r) fun w w' => ∃ c, Traffic P c ∧ act P w c = some w'

end

/-- A message that carries no event. -/
def isControl (msg : Msg) : Bool := msg.msgType != .notify

/-- Without the events. -/
def World.hush (w : World ι) : World ι :=
  { w with
    chan := fun i j => (w.chan i j).filter isControl
    sent := fun i => (w.sent i).filter isControl }

/-- A message with an event of the publisher. -/
def isEventOf (publisher : Id) (msg : Msg) : Bool :=
  !isControl msg && isEqualFtbId msg.src publisher

/-- An event, and the component that published it. -/
structure Publication where
  src : Id
  event : Event
  deriving DecidableEq

def publication (msg : Msg) : Publication := ⟨msg.src, msg.event⟩

/-- The events of the publisher among the messages. -/
def events (publisher : Id) (msgs : List Msg) : List Publication :=
  (msgs.filter (isEventOf publisher)).map publication

/-- Those in messages to the component. -/
def received (publisher id : Id) (msgs : List Msg) : List Publication :=
  events publisher (msgs.filter fun msg => isEqualFtbId msg.dst id)

/-- The message of a client. -/
def Action.message : Action ι → Option Msg
  | .client _ msg => some msg
  | _ => none

/-- The events that the publisher publishes in the run. -/
def published (publisher : Id) (acts : List (Action ι)) : List Publication :=
  events publisher (acts.filterMap Action.message)

variable {P}

/-! ## Lists of messages -/

section
variable {publisher : Id} {msg : Msg}

@[simp] theorem events_nil : events publisher [] = [] := rfl

@[simp] theorem events_append (l₁ l₂ : List Msg) :
    events publisher (l₁ ++ l₂) = events publisher l₁ ++ events publisher l₂ := by
  simp [events]

theorem events_cons (l : List Msg) :
    events publisher (msg :: l) =
      if isEventOf publisher msg then publication msg :: events publisher l
      else events publisher l := by
  unfold events
  rw [List.filter_cons]
  split <;> rfl

theorem isControl_eq_false : isControl msg = false ↔ msg.msgType = .notify := by
  simp [isControl]

theorem isControl_eq_true : isControl msg = true ↔ msg.msgType ≠ .notify := by
  simp [isControl]

theorem isEventOf_of_control (h : isControl msg = true) : isEventOf publisher msg = false := by
  simp [isEventOf, h]

theorem events_of_control {l : List Msg} (h : ∀ m ∈ l, isControl m = true) :
    events publisher l = [] := by
  refine List.map_eq_nil_iff.2 (List.filter_eq_nil_iff.2 fun m hm => ?_)
  rw [isEventOf_of_control (h m hm)]
  exact Bool.false_ne_true

theorem received_of_control {id : Id} {l : List Msg} (h : ∀ m ∈ l, isControl m = true) :
    received publisher id l = [] :=
  events_of_control fun m hm => h m (List.mem_of_mem_filter hm)

@[simp] theorem received_append {id : Id} (l₁ l₂ : List Msg) :
    received publisher id (l₁ ++ l₂) = received publisher id l₁ ++ received publisher id l₂ := by
  simp [received]

/-- What carries an event on carries it for the same publisher. -/
theorem isEventOf_carries {o : Msg} (h : Carries msg o) :
    isEventOf publisher o = isEqualFtbId msg.src publisher := by
  unfold isEventOf isControl
  rw [h.1, h.2.1]
  rfl

theorem isControl_of_carries {o : Msg} (h : Carries msg o) : isControl o = false :=
  isControl_eq_false.2 h.1

end

/-! ## The world without its events -/

section
variable {w : World ι}

@[simp] theorem hush_nodes : w.hush.nodes = w.nodes := rfl

@[simp] theorem hush_agents : w.hush.agents = w.agents := rfl

@[simp] theorem hush_adj : w.hush.Adj = w.Adj := rfl

theorem hush_chan (i j : ι) : w.hush.chan i j = (w.chan i j).filter isControl := rfl

theorem toward_filter (l : LocationId) (q : Msg → Bool) (msgs : List Msg) :
    toward l (msgs.filter q) = (toward l msgs).filter q := by
  unfold toward
  rw [List.filter_filter, List.filter_filter]
  exact List.filter_congr fun m _ => Bool.and_comm _ _

variable [DecidableEq ι]

theorem hush_drain (i j : ι) (rest : List Msg) :
    (w.drain i j rest).hush = w.hush.drain i j (rest.filter isControl) := by
  refine World.ext rfl rfl rfl ?_ rfl
  funext k l
  show (if k = i ∧ l = j then rest else w.chan k l).filter isControl =
    if k = i ∧ l = j then rest.filter isControl else (w.chan k l).filter isControl
  split <;> rfl

theorem hush_post (x : ι) (a : Manager (List Msg × List Agent.Incident)) :
    (w.post P x a).hush = w.hush.post P x ⟨a.info, a.net.1.filter isControl, a.net.2⟩ := by
  refine World.ext rfl rfl rfl ?_ ?_
  · funext i j
    show (if i = x then w.chan i j ++ toward (P.loc j) a.net.1 else w.chan i j).filter isControl =
      if i = x then (w.chan i j).filter isControl ++ toward (P.loc j) (a.net.1.filter isControl)
      else (w.chan i j).filter isControl
    rw [toward_filter]
    split
    · rw [List.filter_append]
    · rfl
  · funext i
    show (Function.update w.sent x (w.sent x ++ a.net.1) i).filter isControl =
      Function.update (fun i => (w.sent i).filter isControl) x
        ((w.sent x).filter isControl ++ a.net.1.filter isControl) i
    by_cases hi : i = x
    · subst hi
      rw [Function.update_self, Function.update_self, List.filter_append]
    · rw [Function.update_of_ne hi, Function.update_of_ne hi]

/-- A turn on a control message sends control messages. -/
theorem isControl_react {s : NodeInfo} {msg out : Msg} (h : out ∈ reactMsgs s msg) :
    isControl out = true := by
  obtain ht | ht := (spoken_react h).type <;> exact isControl_eq_true.2 (by rw [ht]; decide)

theorem hush_turned (x : ι) (msg : Msg) (incomingSrc : LocationId) :
    (w.turned P x msg incomingSrc).hush = w.hush.turned P x msg incomingSrc := by
  unfold World.turned
  rw [hush_post, List.filter_eq_self.2 fun out ho => isControl_react ho]
  rfl

omit [DecidableEq ι] in
/-- An agent starts with its registration. -/
theorem isControl_boot {n p : ι} {m : Msg}
    (hm : m ∈ (boot (connecting (P.loc p)) (P.loc n)).net.1) : isControl m = true := by
  rw [boot_connecting (P.pid p)] at hm
  rw [List.mem_singleton.1 hm]
  rfl

theorem hush_joined (n p : ι) : (w.joined P n p).hush = w.hush.joined P n p := by
  have hf := List.filter_eq_self.2 fun m => isControl_boot (P := P) (n := n) (p := p) (m := m)
  refine World.ext rfl rfl rfl ?_ ?_
  · funext i j
    show (if i = n ∧ j = p then w.chan i j ++ _ else w.chan i j).filter isControl =
      if i = n ∧ j = p then (w.chan i j).filter isControl ++ _ else (w.chan i j).filter isControl
    split
    · rw [List.filter_append, hf]
    · rfl
  · funext i
    show (Function.update w.sent n (w.sent n ++ _) i).filter isControl =
      Function.update (fun i => (w.sent i).filter isControl) n ((w.sent n).filter isControl ++ _) i
    by_cases hi : i = n
    · subst hi
      rw [Function.update_self, Function.update_self, List.filter_append, hf]
    · rw [Function.update_of_ne hi, Function.update_of_ne hi]

end

/-! ## What an action does -/

/-- The world without its events is good, and messages are in flight between neighbours only. -/
structure Live (P : Places ι) (w : World ι) : Prop where
  good : Good P w.hush
  away : ∀ i j, ¬w.Adj i j → w.chan i j = []

section
variable [DecidableEq ι]

/-- The action hands `x` the message, with the location it came from; `b` is the world without it. -/
inductive Takes (P : Places ι) (w : World ι) (x : ι) (msg : Msg) :
    Action ι → LocationId → World ι → Prop
  | told : P.IsClient msg.src → Takes P w x msg (.client x msg) msg.src.locationId w
  | taken (i : ι) (rest : List Msg) : w.chan i x = msg :: rest → w.Adj i x →
      Takes P w x msg (.deliver i x) (P.loc i) (w.drain i x rest)

variable {w w' b : World ι} {x : ι} {msg : Msg} {c : Action ι} {src : LocationId}

namespace Takes

theorem nodes (h : Takes P w x msg c src b) : b.nodes = w.nodes := by cases h <;> rfl

theorem agents (h : Takes P w x msg c src b) : b.agents = w.agents := by cases h <;> rfl

theorem parent (h : Takes P w x msg c src b) : b.parent = w.parent := by cases h <;> rfl

theorem sent (h : Takes P w x msg c src b) : b.sent = w.sent := by cases h <;> rfl

theorem chan_suffix (h : Takes P w x msg c src b) (i j : ι) : b.chan i j <:+ w.chan i j := by
  cases h with
  | told => exact List.suffix_refl _
  | taken k rest hw =>
    unfold World.drain
    simp only
    split
    · rename_i hc
      rw [hc.1, hc.2, hw]
      exact List.suffix_cons msg rest
    · exact List.suffix_refl _

/-- Without its events, the world has lost nothing with an event. -/
theorem hush_of_event (h : Takes P w x msg c src b) (hm : msg.msgType = .notify) :
    b.hush = w.hush := by
  cases h with
  | told => rfl
  | taken k rest hw =>
    have hrest : rest.filter isControl = w.hush.chan k x := by
      rw [hush_chan, hw, List.filter_cons_of_neg (by simp [isControl_eq_false.2 hm])]
    rw [hush_drain, hrest]
    refine World.ext rfl rfl rfl ?_ rfl
    funext i j
    show (if i = k ∧ j = x then w.hush.chan k x else w.hush.chan i j) = w.hush.chan i j
    split
    · rename_i hc
      rw [hc.1, hc.2]
    · rfl

/-- A control message arrives as it does when there are no events. -/
theorem arrives (h : Takes P w x msg c src b) (hl : Live P w) (hm : isControl msg = true)
    (hc : Traffic P c) : Arrives P w.hush x msg b.hush := by
  cases h with
  | told hs => exact .client hs (isControl_eq_true.1 hm) hc.2
  | taken i rest hw hadj =>
    have hw' : w.hush.chan i x = msg :: rest.filter isControl := by
      rw [hush_chan, hw, List.filter_cons_of_pos hm]
    rw [hush_drain]
    exact arrives_of_chan hl.good.wired.but hadj hw'

end Takes

/-- A turn on a control message. -/
theorem handle_control (hl : Live P w) (hx : x ∈ w.agents) (hb : b.nodes = w.nodes)
    (ha : Arrives P w.hush x msg b.hush) (src : LocationId) :
    b.handle P x msg src = some (b.turned P x msg src) := by
  have hn : Node P w.hush x := hl.good.wired.node x hx
  have hsim : Agent.Sim (w.nodes x).info (w.nodes x).net.2 := hn.sim
  obtain ⟨h1, h2, h3⟩ := ha.control
  have hnode : b.nodes x = ⟨(w.nodes x).info, [], (w.nodes x).net.2⟩ := by
    rw [hb, ← hn.idle]
    rfl
  unfold World.handle World.turned
  rw [hnode, turn_react hsim h1 h2 (fun hd => (h3 hd).2) src]
  rfl

/-- **An action is a turn on a message of control, a turn on an event, or an agent that joins.** -/
theorem traffic_cases (hl : Live P w) (hc : Traffic P c) (ha : act P w c = some w') :
    (∃ x msg src b, x ∈ w.agents ∧ Takes P w x msg c src b ∧
      ((isControl msg = true ∧ Arrives P w.hush x msg b.hush ∧ w' = b.turned P x msg src) ∨
        (msg.msgType = .notify ∧ ∃ out, Fan P w.hush x msg src out ∧
          w' = b.post P x ⟨(w.nodes x).info, out, (w.nodes x).net.2⟩))) ∨
    ∃ n p, c = .join n p ∧ n ∉ w.agents ∧ p ∈ w.agents ∧ w' = w.joined P n p := by
  have turn : ∀ x msg src b, x ∈ w.agents → Takes P w x msg c src b →
      b.handle P x msg src = some w' →
      ((isControl msg = true ∧ Arrives P w.hush x msg b.hush ∧ w' = b.turned P x msg src) ∨
        (msg.msgType = .notify ∧ ∃ out, Fan P w.hush x msg src out ∧
          w' = b.post P x ⟨(w.nodes x).info, out, (w.nodes x).net.2⟩)) := by
    intro x msg src b hx ht hh
    cases hm : isControl msg with
    | true =>
      have harr := ht.arrives hl hm hc
      rw [handle_control hl hx ht.nodes harr] at hh
      exact .inl ⟨rfl, harr, (Option.some.inj hh).symm⟩
    | false =>
      have hnotify := isControl_eq_false.1 hm
      have hself : Carries msg msg := ⟨hnotify, rfl, rfl⟩
      obtain ⟨out, ho, hfan⟩ := handle_event hl.good.wired ht.nodes hx hself src
      rw [hh] at ho
      exact .inr ⟨hnotify, out, hfan, Option.some.inj ho⟩
  cases c with
  | client x msg =>
    have ha : w.client P x msg = some w' := ha
    unfold World.client at ha
    split at ha
    · rename_i hx
      exact .inl ⟨x, msg, _, w, hx, .told hc.1, turn x msg _ w hx (.told hc.1) ha⟩
    · cases ha
  | join n p =>
    have ha : w.join P n p = some w' := ha
    unfold World.join at ha
    split at ha
    · rename_i hj
      exact .inr ⟨n, p, rfl, hj.1, hj.2, (Option.some.inj ha).symm⟩
    · cases ha
  | deliver i x =>
    have ha : w.deliver P i x = some w' := ha
    unfold World.deliver at ha
    split at ha
    · cases ha
    · rename_i msg rest hw
      have hadj : w.Adj i x := by
        by_contra hn
        rw [hl.away i x hn] at hw
        cases hw
      have hx : x ∈ w.agents := (hl.good.wired.edge i x hadj).2.1
      have ht : Takes P w x msg (.deliver i x) (P.loc i) (w.drain i x rest) := .taken i rest hw hadj
      exact .inl ⟨x, msg, _, _, hx, ht, turn x msg _ _ hx ht ha⟩

omit [DecidableEq ι] in
/-- What an agent sends on an event is for neighbours, or for clients. -/
theorem Fan.adj {out : List Msg} (hf : Fan P w.hush x msg src out) (hl : Live P w)
    (hx : x ∈ w.agents) {v : ι} (hv : toward (P.loc v) out ≠ []) :
    w.Adj x v ∧ isEqualLocationId (P.loc v) src = false := by
  have hq := mt (hf.quiet v) hv
  rw [not_or, not_not, Bool.not_eq_true] at hq
  exact ⟨adj_of_catches hl.good.wired hx hq.1, hq.2⟩

/-- An event changes no table, and nothing but the events in flight. -/
theorem hush_of_fan (hl : Live P w) (hx : x ∈ w.agents) (ht : Takes P w x msg c src b)
    (hm : msg.msgType = .notify) {out : List Msg} (hf : Fan P w.hush x msg src out) :
    (b.post P x ⟨(w.nodes x).info, out, (w.nodes x).net.2⟩).hush = w.hush := by
  have hnone : out.filter isControl = [] := List.filter_eq_nil_iff.2 fun o ho => by
    rw [isControl_of_carries (hf.carries o ho)]
    exact Bool.false_ne_true
  rw [hush_post, ht.hush_of_event hm, hnone]
  refine World.ext (nodes_post hl.good.wired rfl hx []) rfl rfl ?_ ?_
  · funext i j
    show (if i = x then w.hush.chan i j ++ toward (P.loc j) [] else w.hush.chan i j) = w.hush.chan i j
    rw [show toward (P.loc j) [] = [] from rfl, List.append_nil, ite_self]
  · funext i
    show Function.update w.hush.sent x (w.hush.sent x ++ []) i = w.hush.sent i
    rw [List.append_nil, Function.update_eq_self]

theorem Live.act (hl : Live P w) (hc : Traffic P c) (ha : act P w c = some w') : Live P w' := by
  obtain ⟨x, msg, src, b, hx, ht, ⟨hm, harr, rfl⟩ | ⟨hm, out, hf, rfl⟩⟩ | ⟨n, p, -, hn, hp, rfl⟩ :=
    traffic_cases hl hc ha
  · have hg : Good P (b.turned P x msg src).hush := by
      rw [hush_turned]
      exact ⟨hl.good.wired.turned hx harr, hl.good.complete.turned hl.good.wired.but hx harr⟩
    refine ⟨hg, fun i j hij => ?_⟩
    have hadj : ¬w.Adj i j := by
      unfold World.Adj at hij ⊢
      rwa [show (b.turned P x msg src).parent = w.parent from ht.parent] at hij
    have hb : b.chan i j = [] := List.suffix_nil.1 (hl.away i j hadj ▸ ht.chan_suffix i j)
    by_cases hi : i = x
    · subst hi
      have hnone : (b.turned P i msg src).hush.chan i j = [] := hg.wired.away i j hij
      rw [hush_chan, chan_turned, hb, List.nil_append, List.filter_eq_self.2] at hnone
      · rw [chan_turned, hb, List.nil_append, hnone]
      · exact fun o ho => isControl_react (mem_toward.1 ho).1
    · rw [chan_turned_of_ne hi, hb]
  · refine ⟨?_, fun i j hij => ?_⟩
    · rw [hush_of_fan hl hx ht hm hf]
      exact hl.good
    · have hadj : ¬w.Adj i j := by
        unfold World.Adj at hij ⊢
        rwa [show (b.post P x _).parent = w.parent from ht.parent] at hij
      have hb : b.chan i j = [] := List.suffix_nil.1 (hl.away i j hadj ▸ ht.chan_suffix i j)
      show (if i = x then b.chan i j ++ toward (P.loc j) out else b.chan i j) = []
      rw [hb]
      split
      · rename_i hi
        subst hi
        by_contra hne
        exact hadj (hf.adj hl hx hne).1
      · rfl
  · refine ⟨?_, fun i j hij => ?_⟩
    · rw [hush_joined]
      exact ⟨hl.good.wired.joined hn hp, hl.good.complete.joined hl.good.wired.but hn hp⟩
    · have hadj := mt (adj_joined (P := P) (p := p) hl.good.wired.but hn i j).2 hij
      rw [not_or, not_or] at hadj
      rw [chan_joined_of_ne hadj.2.1]
      exact hl.away i j hadj.1

theorem Busy.live (h : Busy P w) : Live P w := by
  refine h.invariant (I := Live P) (fun w ⟨r, hr⟩ => ?_) fun _ _ hl ⟨_, hc, ha⟩ => hl.act hc ha
  subst hr
  exact ⟨good_start r, fun _ _ _ => rfl⟩

theorem Busy.run (hw : Busy P w) {acts : List (Action ι)} (hc : ∀ c ∈ acts, Traffic P c)
    (hr : w.run P acts = some w') : Busy P w' := by
  induction acts generalizing w with
  | nil => exact Option.some.inj hr ▸ hw
  | cons c acts ih =>
    unfold World.run at hr
    rw [List.foldlM_cons] at hr
    obtain ⟨v, hv, hr⟩ := Option.bind_eq_some_iff.1 hr
    exact ih (hw.step ⟨c, hc c List.mem_cons_self, hv⟩)
      (fun c' hc' => hc c' (List.mem_cons_of_mem c hc')) hr

/-- Every message in flight can be delivered. -/
theorem Live.deliver (hl : Live P w) {i j : ι} (hne : w.chan i j ≠ []) :
    ∃ w', w.deliver P i j = some w' := by
  obtain ⟨msg, rest, hw⟩ := List.exists_cons_of_ne_nil hne
  have hadj : w.Adj i j := by
    by_contra hn
    exact hne (hl.away i j hn)
  have hj : j ∈ w.agents := (hl.good.wired.edge i j hadj).2.1
  have ht : Takes P w j msg (.deliver i j) (P.loc i) (w.drain i j rest) := .taken i rest hw hadj
  have hd : w.deliver P i j = (w.drain i j rest).handle P j msg (P.loc i) := by
    unfold World.deliver
    rw [hw]
  rw [hd]
  cases hm : isControl msg with
  | true => exact ⟨_, handle_control hl hj ht.nodes (ht.arrives hl hm trivial) _⟩
  | false =>
    have hself : Carries msg msg := ⟨isControl_eq_false.1 hm, rfl, rfl⟩
    obtain ⟨out, ho, -⟩ := handle_event hl.good.wired ht.nodes hj hself (P.loc i)
    exact ⟨_, ho⟩

/-! ## Where the events come from -/

/-- The events in flight, and all that were sent, are among `known`. -/
structure Sourced (known : Publication → Prop) (w : World ι) : Prop where
  chan : ∀ i j, ∀ m ∈ w.chan i j, isControl m = false → known (publication m)
  sent : ∀ i, ∀ m ∈ w.sent i, isControl m = false → known (publication m)

namespace Sourced

variable {known : Publication → Prop}

theorem post (hs : Sourced known b) {a : Manager (List Msg × List Agent.Incident)}
    (hout : ∀ o ∈ a.net.1, isControl o = false → known (publication o)) :
    Sourced known (b.post P x a) where
  chan i j m hm := by
    unfold World.post at hm
    dsimp only at hm
    split at hm
    · obtain hm | hm := List.mem_append.1 hm
      · exact hs.chan i j m hm
      · exact hout m (mem_toward.1 hm).1
    · exact hs.chan i j m hm
  sent i m hm := by
    unfold World.post at hm
    dsimp only at hm
    by_cases hi : i = x
    · subst hi
      rw [Function.update_self] at hm
      exact (List.mem_append.1 hm).elim (hs.sent i m) (hout m)
    · rw [Function.update_of_ne hi] at hm
      exact hs.sent i m hm

/-- An agent sends on what it is told, and makes up no event. -/
theorem act (hs : Sourced known w) (hl : Live P w) (hc : Traffic P c) (ha : act P w c = some w')
    (hk : ∀ x msg, c = .client x msg → isControl msg = false → known (publication msg)) :
    Sourced known w' := by
  obtain ⟨x, msg, src, b, hx, ht, hcase⟩ | ⟨n, p, rfl, hn, hp, rfl⟩ := traffic_cases hl hc ha
  · have hb : Sourced known b := by
      refine ⟨fun i j m hm => hs.chan i j m ((ht.chan_suffix i j).subset hm), fun i m hm => ?_⟩
      rw [ht.sent] at hm
      exact hs.sent i m hm
    obtain ⟨hm, harr, rfl⟩ | ⟨hm, out, hfan, rfl⟩ := hcase
    · exact hb.post fun o ho hcontrol => absurd hcontrol (by rw [isControl_react ho]; nofun)
    · refine hb.post fun o ho _ => ?_
      have hmsg : known (publication msg) := by
        cases ht with
        | told => exact hk x msg rfl (isControl_eq_false.2 hm)
        | taken i rest hw =>
          exact hs.chan i x msg (hw ▸ List.mem_cons_self) (isControl_eq_false.2 hm)
      obtain ⟨-, hsrc, hevent⟩ := hfan.carries o ho
      unfold publication at hmsg ⊢
      rwa [hsrc, hevent]
  · have hboot : ∀ m ∈ (boot (connecting (P.loc p)) (P.loc n)).net.1,
        isControl m = false → known (publication m) := fun m hm hcontrol =>
      absurd (isControl_boot hm) (by rw [hcontrol]; nofun)
    refine ⟨fun i j m hm => ?_, fun i m hm => ?_⟩
    · unfold World.joined at hm
      dsimp only at hm
      split at hm
      · exact (List.mem_append.1 hm).elim (hs.chan i j m) (hboot m)
      · exact hs.chan i j m hm
    · unfold World.joined at hm
      dsimp only at hm
      by_cases hi : i = n
      · subst hi
        rw [Function.update_self] at hm
        exact (List.mem_append.1 hm).elim (hs.sent i m) (hboot m)
      · rw [Function.update_of_ne hi] at hm
        exact hs.sent i m hm

theorem run {acts : List (Action ι)} (hs : Sourced known w) (hl : Live P w)
    (hc : ∀ c ∈ acts, Traffic P c)
    (hk : ∀ x msg, Action.client x msg ∈ acts → isControl msg = false → known (publication msg))
    (hr : w.run P acts = some w') : Sourced known w' := by
  induction acts generalizing w with
  | nil => exact Option.some.inj hr ▸ hs
  | cons c acts ih =>
    unfold World.run at hr
    rw [List.foldlM_cons] at hr
    obtain ⟨v, hv, hr⟩ := Option.bind_eq_some_iff.1 hr
    have hc₁ := hc c List.mem_cons_self
    exact ih (hs.act hl hc₁ hv fun x msg he => hk x msg (he ▸ List.mem_cons_self)) (hl.act hc₁ hv)
      (fun c' hc' => hc c' (List.mem_cons_of_mem c hc'))
      (fun x msg hm => hk x msg (List.mem_cons_of_mem c hm)) hr

end Sourced

end

end Backplane
