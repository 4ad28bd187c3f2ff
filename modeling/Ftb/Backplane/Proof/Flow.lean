import Ftb.Backplane.Traffic

/-!
# The way of the events of one publisher

A publisher sends its events to one agent, `a`. Seen from there they move outwards (`Flow.away`), so
every agent gets them from one neighbour, in the order in which that neighbour handled them: what has
been handled at an agent, followed by what is on its way there, is a part of what the neighbour has
handled (`Flow.link`), and so is what a component has been sent (`Flow.sent`).

On the way from `a` to an agent where a component holds a subscription, every agent lists the next one
under the mask, and goes on doing so while the subscription is held, whatever others do (`Settled`).
There nothing that the mask matches is left out (`Full`).
-/

open FTB FTBU FTBN FTBMI Trace

namespace Backplane

variable {ι : Type} {P : Places ι}

/-! ## A turn, seen by one publisher -/

/-- What `x` passes on of the message: `new` to its neighbours, `out` to all. -/
structure Relays (P : Places ι) (w b : World ι) (publisher : Id) (x : ι) (msg : Msg)
    (src : LocationId) (new : ι → List Publication) (out : List Msg) (w' : World ι) : Prop where
  agents : w'.agents = w.agents
  adj : w'.Adj = w.Adj
  chan : ∀ j, events publisher (w'.chan x j) = events publisher (w.chan x j) ++ new j
  others : ∀ i j, i ≠ x → events publisher (w'.chan i j) = events publisher (b.chan i j)
  few : ∀ j, (new j).Sublist (events publisher [msg])
  onward : ∀ j, new j ≠ [] → w.Adj x j ∧ isEqualLocationId (P.loc j) src = false
  all : ∀ j, Catches (w.nodes x).net.2 msg.event (P.agent j) →
    isEqualLocationId (P.loc j) src = false → new j = events publisher [msg]
  sent : w'.sent x = w.sent x ++ out
  silent : ∀ z, z ≠ x → w'.sent z = w.sent z
  once : ∀ id, P.IsClient id → (received publisher id out).Sublist (events publisher [msg])
  each : ∀ id, P.IsClient id → Catches (w.nodes x).net.2 msg.event id →
    received publisher id out = events publisher [msg]

section
variable {publisher : Id} {w b : World ι} {x : ι} {msg : Msg} {src : LocationId} {out : List Msg}

theorem events_carries {o : Msg} (h : Carries msg o) (ht : msg.msgType = .notify) :
    events publisher [o] = events publisher [msg] := by
  have hm : Carries msg msg := ⟨ht, rfl, rfl⟩
  have hsame : publication o = publication msg := by rw [publication, h.2.1, h.2.2, publication]
  rw [events_cons, events_cons, isEventOf_carries h, isEventOf_carries hm, hsame]

theorem Fan.events_toward (hf : Fan P w x msg src out) (ht : msg.msgType = .notify) (v : ι) :
    (events publisher (toward (P.loc v) out)).Sublist (events publisher [msg]) ∧
      (Catches (w.nodes x).net.2 msg.event (P.agent v) → isEqualLocationId (P.loc v) src = false →
        events publisher (toward (P.loc v) out) = events publisher [msg]) := by
  have hone : Catches (w.nodes x).net.2 msg.event (P.agent v) →
      isEqualLocationId (P.loc v) src = false →
      events publisher (toward (P.loc v) out) = events publisher [msg] := by
    intro hc hl
    obtain ⟨-, o, ho, hco⟩ := hf.link v hc hl
    rw [ho, events_carries hco ht]
  refine ⟨?_, hone⟩
  by_cases hq : ¬Catches (w.nodes x).net.2 msg.event (P.agent v) ∨
      isEqualLocationId (P.loc v) src = true
  · rw [hf.quiet v hq]
    exact List.nil_sublist _
  · rw [not_or, not_not, Bool.not_eq_true] at hq
    rw [hone hq.1 hq.2]

/-- At most one copy is for a client. -/
theorem Fan.received (hf : Fan P w x msg src out) (ht : msg.msgType = .notify) {id : Id}
    (hid : P.IsClient id) :
    (received publisher id out).Sublist (events publisher [msg]) ∧
      (Catches (w.nodes x).net.2 msg.event id →
        received publisher id out = events publisher [msg]) := by
  have hlen : (out.filter fun o => isEqualFtbId o.dst id).length =
      out.countP fun o => isEqualFtbId o.dst id := List.countP_eq_length_filter.symm
  have hone : Catches (w.nodes x).net.2 msg.event id →
      Backplane.received publisher id out = events publisher [msg] := by
    intro hc
    rw [((hf.once id hid).1 hc)] at hlen
    obtain ⟨o, ho⟩ := List.length_eq_one_iff.1 hlen
    have hmem : o ∈ out := List.mem_of_mem_filter (ho ▸ List.mem_singleton.2 rfl)
    unfold Backplane.received
    rw [ho, events_carries (hf.carries o hmem) ht]
  refine ⟨?_, hone⟩
  by_cases hc : Catches (w.nodes x).net.2 msg.event id
  · rw [hone hc]
  · rw [((hf.once id hid).2 hc)] at hlen
    unfold Backplane.received
    rw [List.length_eq_zero_iff.1 hlen]
    exact List.nil_sublist _

end

section
variable [DecidableEq ι] {publisher : Id} {w w' b : World ι} {x : ι} {msg : Msg} {src : LocationId}
  {c : Action ι}

/-- What a message takes out of the channels. -/
theorem Takes.chan_of_ne (h : Takes P w x msg c src b) {i j : ι} (hj : j ≠ x) :
    b.chan i j = w.chan i j := by
  cases h with
  | told => rfl
  | taken k rest => exact if_neg fun hc => hj hc.2

/-- Every turn passes something on. -/
theorem relays_of_cases (publisher : Id) (hl : Live P w) (hx : x ∈ w.agents) (ht : Takes P w x msg c src b)
    (h : (isControl msg = true ∧ Arrives P w.hush x msg b.hush ∧ w' = b.turned P x msg src) ∨
      (msg.msgType = .notify ∧ ∃ out, Fan P w.hush x msg src out ∧
        w' = b.post P x ⟨(w.nodes x).info, out, (w.nodes x).net.2⟩)) :
    ∃ new out, Relays P w b publisher x msg src new out w' := by
  have hself : ∀ j, b.chan x j = w.chan x j := by
    intro j
    by_cases hj : j = x
    · subst hj
      have hnot : ¬w.Adj j j := fun hjj => (hl.good.wired.edge j j hjj).2.2 rfl
      have hnone := hl.away j j hnot
      rw [hnone]
      exact List.suffix_nil.1 (hnone ▸ ht.chan_suffix j j)
    · exact ht.chan_of_ne hj
  obtain ⟨hm, -, rfl⟩ | ⟨hm, out, hf, rfl⟩ := h
  · have hnone : events publisher [msg] = [] :=
      events_of_control fun m hmem => List.mem_singleton.1 hmem ▸ hm
    have hctl : ∀ m ∈ reactMsgs (b.nodes x).info msg, isControl m = true := fun m => isControl_react
    refine ⟨fun _ => [], reactMsgs (b.nodes x).info msg, ht.agents, ?_, fun j => ?_, fun i j hi => ?_,
      fun _ => List.nil_sublist _, fun _ hne => absurd rfl hne, fun _ _ _ => hnone.symm, ?_,
      fun z hz => ?_, fun id _ => ?_, fun id _ _ => ?_⟩
    · funext i j
      unfold World.Adj
      rw [show (b.turned P x msg src).parent = w.parent from ht.parent]
    · rw [chan_turned, events_append, hself, events_of_control fun m hm => hctl m (mem_toward.1 hm).1]
    · rw [chan_turned_of_ne hi]
    · exact (Function.update_self ..).trans (by rw [ht.sent])
    · exact (Function.update_of_ne hz ..).trans (by rw [ht.sent])
    · rw [received_of_control hctl]
      exact List.nil_sublist _
    · rw [received_of_control hctl, hnone]
  · refine ⟨fun j => events publisher (toward (P.loc j) out), out, ht.agents, ?_, fun j => ?_,
      fun i j hi => ?_, fun j => (hf.events_toward hm j).1, fun j hne => ?_,
      fun j => (hf.events_toward hm j).2, ?_, fun z hz => ?_, fun id hid => (hf.received hm hid).1,
      fun id hid => (hf.received hm hid).2⟩
    · funext i j
      unfold World.Adj
      rw [show (b.post P x _).parent = w.parent from ht.parent]
    · show events publisher (if x = x then b.chan x j ++ _ else b.chan x j) = _
      rw [if_pos rfl, events_append, hself]
    · show events publisher (if i = x then b.chan i j ++ _ else b.chan i j) = _
      rw [if_neg hi]
    · refine hf.adj hl hx fun hnil => hne ?_
      simp only [hnil, events_nil]
    · exact (Function.update_self ..).trans (by rw [ht.sent])
    · exact (Function.update_of_ne hz ..).trans (by rw [ht.sent])

end

/-! ## Outwards -/

/-- The events of the publisher that every agent has handled since `w₀`, seen from `a`. -/
structure Flow (P : Places ι) (w₀ : World ι) (publisher : Id) (a : ι) (up : ι → ι)
    (handled : ι → List Publication) (w : World ι) : Prop where
  root : a ∈ w.agents
  rooted : ∃ d, Tree.Rooted w.Adj (· ∈ w.agents) a up d
  away : ∀ x y, events publisher (w.chan x y) ≠ [] → y ≠ a ∧ up y = x
  fresh : ∀ z, z ∉ w.agents → handled z = []
  link : ∀ y ∈ w.agents, y ≠ a →
    (handled y ++ events publisher (w.chan (up y) y)).Sublist (handled (up y))
  sent : ∀ z, ∃ out, w.sent z = w₀.sent z ++ out ∧
    ∀ id, P.IsClient id → (received publisher id out).Sublist (handled z)

/-- The publisher sends its events to `a`. -/
def OnlyAt (publisher : Id) (a : ι) : Action ι → Prop
  | .client x msg => isEventOf publisher msg = true → x = a
  | _ => True

namespace Flow

section
variable {w₀ w : World ι} {publisher : Id} {a y : ι} {up : ι → ι} {handled : ι → List Publication}

/-- The link from the agent before is a link to another agent. -/
theorem before (hf : Flow P w₀ publisher a up handled w) (hy : y ∈ w.agents) (hya : y ≠ a) :
    up y ∈ w.agents ∧ w.Adj y (up y) ∧ up y ≠ y := by
  obtain ⟨d, hd⟩ := hf.rooted
  obtain ⟨hm, hadj, hlt⟩ := hd.next y hy hya
  refine ⟨hm, hadj, fun he => ?_⟩
  rw [he] at hlt
  exact Nat.lt_irrefl _ hlt

end

section
variable [DecidableEq ι] {w₀ w w' b : World ι} {publisher : Id} {a x : ι} {up : ι → ι}
  {handled : ι → List Publication} {msg : Msg} {src : LocationId} {c : Action ι}

/-- An event comes from the agent before, and is the first one on the way from there. -/
theorem taken (hf : Flow P w₀ publisher a up handled w) (ht : Takes P w x msg c src b)
    (hat : OnlyAt publisher a c) (hxa : x ≠ a) :
    events publisher [msg] ++ events publisher (b.chan (up x) x) =
        events publisher (w.chan (up x) x) ∧
      (events publisher [msg] ≠ [] → src = P.loc (up x)) := by
  cases ht with
  | told =>
    have hnone : events publisher [msg] = [] := by
      rw [events_cons, if_neg fun he => hxa (hat he)]
      rfl
    rw [hnone]
    exact ⟨rfl, fun hne => absurd rfl hne⟩
  | taken i rest hw =>
    have hevents : events publisher (w.chan i x) =
        events publisher [msg] ++ events publisher rest := by
      rw [hw, ← events_append]
      rfl
    by_cases hi : up x = i
    · subst hi
      have hb : (w.drain (up x) x rest).chan (up x) x = rest := if_pos ⟨rfl, rfl⟩
      rw [hb, hevents]
      exact ⟨rfl, fun _ => rfl⟩
    · have hnone : events publisher (w.chan i x) = [] := by
        by_contra hne
        exact hi (hf.away i x hne).2
      have hmsg : events publisher [msg] = [] := (List.append_eq_nil_iff.1 (hevents ▸ hnone)).1
      have hb : (w.drain i x rest).chan (up x) x = w.chan (up x) x := if_neg fun hc => hi hc.1
      rw [hmsg, hb]
      exact ⟨rfl, fun hne => absurd rfl hne⟩

/-- An event that the agent before `y` handles does not come from `y`. -/
theorem from_before {y : ι} (hf : Flow P w₀ publisher a up handled w)
    (ht : Takes P w (up y) msg c src b) (hy : y ∈ w.agents) (hya : y ≠ a)
    (he : isEventOf publisher msg = true) : isEqualLocationId (P.loc y) src = false := by
  cases ht with
  | told hs => exact (KeyEq.comm isEqualLocationId _ _).trans (hs.1 y)
  | taken i rest hw =>
    have hne : events publisher (w.chan i (up y)) ≠ [] := by
      rw [hw, events_cons, if_pos he]
      exact List.cons_ne_nil _ _
    obtain ⟨hua, hui⟩ := hf.away i (up y) hne
    obtain ⟨d, hd⟩ := hf.rooted
    rw [Bool.eq_false_iff]
    intro hyi
    obtain rfl := P.distinct y i hyi
    exact hd.up_up_ne hy hya hua hui

/-- **A turn keeps the events moving outwards.** -/
theorem relay (hf : Flow P w₀ publisher a up handled w) (hx : x ∈ w.agents)
    (ht : Takes P w x msg c src b) (hat : OnlyAt publisher a c) {new : ι → List Publication}
    {out : List Msg} (hr : Relays P w b publisher x msg src new out w') :
    Flow P w₀ publisher a up
      (Function.update handled x (handled x ++ events publisher [msg])) w' := by
  have hsuffix : ∀ i j, events publisher (b.chan i j) ≠ [] → events publisher (w.chan i j) ≠ [] := by
    intro i j hne hnil
    obtain ⟨taken, hl⟩ := ht.chan_suffix i j
    rw [← hl, events_append] at hnil
    exact hne (List.append_eq_nil_iff.1 hnil).2
  refine ⟨hr.agents ▸ hf.root, ?_, fun i j hne => ?_, fun z hz => ?_, fun y hy hya => ?_,
    fun z => ?_⟩
  · rw [hr.adj, hr.agents]
    exact hf.rooted
  · by_cases hi : i = x
    · subst hi
      by_cases hold : events publisher (w.chan i j) = []
      · -- an event that `i` passes on does not go back
        have hnew : new j ≠ [] := by
          rw [hr.chan, hold] at hne
          exact hne
        obtain ⟨hadj, hsrc⟩ := hr.onward j hnew
        obtain ⟨d, hd⟩ := hf.rooted
        refine (hd.edge i j hadj).resolve_left fun ⟨hia, hij⟩ => ?_
        have hmsg : events publisher [msg] ≠ [] := fun hnil =>
          hnew (List.sublist_nil.1 (hnil ▸ hr.few j))
        have hback : isEqualLocationId (P.loc j) (P.loc (up i)) = true :=
          hij ▸ KeyEq.refl (P.loc (up i))
        rw [← (hf.taken ht hat hia).2 hmsg, hsrc] at hback
        cases hback
      · exact hf.away i j hold
    · rw [hr.others i j hi] at hne
      exact hf.away i j (hsuffix i j hne)
  · rw [hr.agents] at hz
    have hzx : z ≠ x := fun he => hz (he ▸ hx)
    rw [Function.update_of_ne hzx]
    exact hf.fresh z hz
  · rw [hr.agents] at hy
    obtain ⟨-, -, hne⟩ := hf.before hy hya
    have hlink := hf.link y hy hya
    by_cases hyx : y = x
    · subst hyx
      rw [Function.update_self, Function.update_of_ne hne, hr.others _ _ hne, List.append_assoc,
        (hf.taken ht hat hya).1]
      exact hlink
    · rw [Function.update_of_ne hyx]
      by_cases hux : up y = x
      · subst hux
        rw [Function.update_self, hr.chan, ← List.append_assoc]
        exact hlink.append (hr.few y)
      · rw [Function.update_of_ne hux, hr.others _ _ hux, ht.chan_of_ne hyx]
        exact hlink
  · obtain ⟨before, hbefore, hsub⟩ := hf.sent z
    by_cases hz : z = x
    · subst hz
      refine ⟨before ++ out, by rw [hr.sent, hbefore, List.append_assoc], fun id hid => ?_⟩
      rw [Function.update_self, received_append]
      exact (hsub id hid).append (hr.once id hid)
    · rw [Function.update_of_ne hz]
      exact ⟨before, (hr.silent z hz).trans hbefore, hsub⟩

/-- An agent that joins has handled nothing, and nothing is on its way there. -/
theorem joined (hf : Flow P w₀ publisher a up handled w) (hl : Live P w) {n p : ι}
    (hn : n ∉ w.agents) (hp : p ∈ w.agents) :
    Flow P w₀ publisher a (Function.update up n p) handled (w.joined P n p) := by
  have hadj := adj_joined (P := P) (p := p) hl.good.wired.but hn
  have hevents : ∀ i j, events publisher ((w.joined P n p).chan i j) =
      events publisher (w.chan i j) := by
    intro i j
    by_cases hc : i = n ∧ j = p
    · obtain ⟨rfl, rfl⟩ := hc
      have hnone : w.chan i j = [] := hl.away i j (not_adj_new hl.good.wired.but hn j).1
      have hreg := boot_connecting (P.pid j) (P.loc i)
      have hchan : (w.joined P i j).chan i j = w.chan i j ++ _ := if_pos ⟨rfl, rfl⟩
      rw [hchan, hnone, hreg]
      rfl
    · rw [chan_joined_of_ne hc]
  have hsent : ∀ z, ∃ out, (w.joined P n p).sent z = w.sent z ++ out ∧
      ∀ id, received publisher id out = [] := by
    intro z
    by_cases hz : z = n
    · subst hz
      refine ⟨_, Function.update_self .., fun id => ?_⟩
      rw [boot_connecting (P.pid p)]
      refine received_of_control fun m hm => ?_
      rw [List.mem_singleton.1 hm]
      rfl
    · exact ⟨[], by rw [List.append_nil]; exact Function.update_of_ne hz .., fun _ => rfl⟩
  refine ⟨List.mem_cons_of_mem n hf.root, ?_, fun i j hne => ?_, fun z hz => ?_, fun y hy hya => ?_,
    fun z => ?_⟩
  · obtain ⟨d, hd⟩ := hf.rooted
    exact ⟨_, hd.grow hf.root
      (fun i j hij => ⟨(hl.good.wired.edge i j hij).1, (hl.good.wired.edge i j hij).2.1⟩) hn hp
      (fun x => List.mem_cons) hadj⟩
  · rw [hevents] at hne
    obtain ⟨hja, hij⟩ := hf.away i j hne
    have hjn : j ≠ n := by
      intro hjn
      subst hjn
      refine hne ?_
      rw [hl.away i j (not_adj_new hl.good.wired.but hn i).2]
      rfl
    exact ⟨hja, (Function.update_of_ne hjn ..).trans hij⟩
  · exact hf.fresh z fun hz' => hz (List.mem_cons_of_mem n hz')
  · rw [hevents]
    by_cases hyn : y = n
    · subst hyn
      rw [Function.update_self, hf.fresh y hn, hl.away p y (not_adj_new hl.good.wired.but hn p).2]
      exact List.nil_sublist _
    · rw [Function.update_of_ne hyn]
      exact hf.link y ((List.mem_cons.1 hy).resolve_left hyn) hya
  · obtain ⟨before, hbefore, hsub⟩ := hf.sent z
    obtain ⟨out, hout, hnone⟩ := hsent z
    refine ⟨before ++ out, by rw [hout, hbefore, List.append_assoc], fun id hid => ?_⟩
    rw [received_append, hnone, List.append_nil]
    exact hsub id hid

end

end Flow

end Backplane
