import Ftb.Backplane.Proof.Reach

/-!
# Where an event goes

When no registration, subscription or cancellation is in flight, the agents that a published event
should reach are joined by links whose ends know it: `Complete` at empty channels says that an agent
lists its neighbour whenever somebody beyond the neighbour is to get the event. Seen from the agent
where it is published, the event then moves outwards. `Spread` says how far it has come, and
`event_routing` that in the end every client has got it once that should, and no other.
-/

open FTB FTBU FTBN FTBMI Trace

namespace Backplane

variable {ι : Type} {P : Places ι}

/-! ## Empty channels -/

section
variable {w : World ι}

/-- Once the channels are empty, neighbours know each other. -/
theorem peer_of_drained (h : Wired P w) (hd : Drained w) {i j : ι} (hadj : w.Adj i j) :
    (w.nodes i).info.isPeer (P.agent j) = true := by
  have known : ∀ c p, w.parent c = some p → Known P w c p := by
    intro c p hcp
    obtain hk | hg := h.link c p hcp
    · exact hk
    · obtain ⟨m, rest, hm, -⟩ := hg.first
      rw [hd c p] at hm
      cases hm
  obtain hp | hp := hadj
  · exact (known i j hp).up
  · exact (known j i hp).down

/-- A neighbour lists an agent under the masks that anybody else has there. -/
theorem listed_of_drained (hg : Good P w) (hd : Drained w) {i j : ι} (hadj : w.Adj i j)
    {mask : Event} (ho : others (w.nodes i).info (P.agent j) mask) :
    (w.nodes j).info.listed (P.agent i) mask = true := by
  have hv := hg.complete i j hadj (peer_of_drained hg.wired hd hadj) mask ho
  unfold World.view at hv
  rwa [hd i j] at hv

/-- The messages in flight before an event is published. -/
theorem type_of_chan (h : Wired P w) {i j : ι} {msg : Msg} (hm : msg ∈ w.chan i j) :
    msg.msgType = .clientReg ∨ msg.msgType = .regSubscription ∨
      msg.msgType = .subscriptionCancel := by
  by_cases hadj : w.Adj i j
  · obtain hp | hp := hadj
    · obtain hk | hg := h.link i j hp
      · exact .inr (hk.plainUp msg hm).2
      · obtain ⟨m, rest, hw, -, ht, hr⟩ := hg.first
        rw [hw] at hm
        obtain rfl | hm := List.mem_cons.1 hm
        · exact .inl ht
        · exact .inr (hr msg hm).2
    · obtain hk | hg := h.link j i hp
      · exact .inr (hk.plainDown msg hm).2
      · rw [hg.silent] at hm
        cases hm
  · rw [h.away i j hadj] at hm
    cases hm

theorem Quiet.drained (hq : Quiet w) (h : Wired P w) : Drained w := by
  intro i j
  refine List.eq_nil_iff_forall_not_mem.2 fun msg hm => ?_
  obtain ⟨hreg, hsub, hcan⟩ := hq i j msg hm
  obtain ht | ht | ht := type_of_chan h hm
  · exact hreg ht
  · exact hsub ht
  · exact hcan ht

end

/-! ## One agent handles the event -/

/-- A message that carries the event. -/
def Carries (msg out : Msg) : Prop :=
  out.msgType = .notify ∧ out.src = msg.src ∧ out.event = msg.event

/-- What an agent sends when it handles the event: one copy to every client and every neighbour that
is to get it, but none back to the agent it came from. -/
structure Fan (P : Places ι) (w : World ι) (y : ι) (msg : Msg) (incomingSrc : LocationId)
    (out : List Msg) : Prop where
  carries : ∀ o ∈ out, Carries msg o
  once : ∀ id, P.IsClient id →
    (Catches (w.nodes y).net.2 msg.event id → out.countP (fun o => isEqualFtbId o.dst id) = 1) ∧
    (¬Catches (w.nodes y).net.2 msg.event id → out.countP (fun o => isEqualFtbId o.dst id) = 0)
  link : ∀ v, Catches (w.nodes y).net.2 msg.event (P.agent v) →
    isEqualLocationId (P.loc v) incomingSrc = false →
    w.Adj y v ∧ ∃ o, toward (P.loc v) out = [o] ∧ Carries msg o
  quiet : ∀ v, (¬Catches (w.nodes y).net.2 msg.event (P.agent v) ∨
    isEqualLocationId (P.loc v) incomingSrc = true) → toward (P.loc v) out = []

/-- One id at most of a list without repetitions has a given key. -/
theorem filter_distinct {ids : List Id}
    (hd : ids.Pairwise fun i j => isEqualFtbId i j = false) {q : Id → Bool} {k : Id}
    (hq : ∀ id ∈ ids, q id = isEqualFtbId id k) :
    ((∃ id ∈ ids, isEqualFtbId id k = true) → ∃ id ∈ ids, ids.filter q = [id]) ∧
      ((¬∃ id ∈ ids, isEqualFtbId id k = true) → ids.filter q = []) := by
  have hf : ids.filter q = ids.filter fun id => isEqualFtbId id k := List.filter_congr hq
  rw [hf]
  refine ⟨fun ⟨id, hid, hk⟩ => ⟨id, hid, ?_⟩, fun hn => ?_⟩
  · let set : FTBM.CatcherSet := ⟨ids, hd⟩
    have hm : id ∈ set.nodes := hid
    exact KeyList.filter_eq_singleton hm hk
  · exact List.filter_eq_nil_iff.2 fun id hid hk => hn ⟨id, hid, hk⟩

theorem isIncomingAgent_agent {id : Id} {v : ι} (h : isEqualFtbId id (P.agent v) = true)
    (l : LocationId) : Agent.isIncomingAgent id l = isEqualLocationId (P.loc v) l := by
  have hn : FTBM.isManagerNameCase (P.agent v) = true := by
    have hd : FTBM.isManagerNameCase (agentId default) = true := by decide
    exact hd
  rw [← isManagerNameCase_congr h] at hn
  unfold FTBM.isManagerNameCase at hn
  rw [Bool.and_eq_true] at hn
  unfold Agent.isIncomingAgent
  rw [hn.1, hn.2, Bool.true_and, Bool.true_and]
  exact KeyEq.congr_left (isEqualLocationId_of_ftbId h) l

theorem Places.IsClient.not_incoming {id : Id} (h : P.IsClient id) (l : LocationId) :
    Agent.isIncomingAgent id l = false := by
  have hn := h.2
  unfold FTBM.isManagerNameCase at hn
  unfold Agent.isIncomingAgent
  rw [Bool.and_comm (CStr.strcaseEq id.clientId.comp _), hn, Bool.false_and]

/-- The copies for which a test of the destination holds. -/
theorem filter_copies (msg : Msg) (q r : Id → Bool) (ids : List Id) :
    ((ids.filter r).map (copyTo msg)).filter (fun o => q o.dst) =
      (ids.filter fun id => q id && r id).map (copyTo msg) := by
  rw [List.filter_map, List.filter_filter]
  rfl

section
variable {w : World ι} {y : ι} {msg m : Msg}

/-- An agent that is to get an event is a neighbour. -/
theorem adj_of_catches (h : Wired P w) (hy : y ∈ w.agents) {event : Event} {v : ι}
    (hc : Catches (w.nodes y).net.2 event (P.agent v)) : w.Adj y v :=
  (h.node y hy).adj_of_isPeer (((h.node y hy).sim.isPeer (P.agent v)).2 hc.1)

/-- The copies for the process of a neighbour: one if it is to get the event and the event did not
come from there, none otherwise. -/
theorem toward_copies (hn : Node P w y) (incomingSrc : LocationId) {ids : List Id}
    (hd : ids.Pairwise fun i j => isEqualFtbId i j = false)
    (hpeer : ∀ i ∈ ids, (w.nodes y).info.isPeer i = true) (v : ι) :
    ((∃ i ∈ ids, isEqualFtbId i (P.agent v) = true) →
        isEqualLocationId (P.loc v) incomingSrc = false → ∃ i, toward (P.loc v)
          ((ids.filter fun id => !Agent.isIncomingAgent id incomingSrc).map (copyTo m)) =
            [copyTo m i]) ∧
      (((¬∃ i ∈ ids, isEqualFtbId i (P.agent v) = true) ∨
          isEqualLocationId (P.loc v) incomingSrc = true) → toward (P.loc v)
          ((ids.filter fun id => !Agent.isIncomingAgent id incomingSrc).map (copyTo m)) = []) := by
  have hat : ∀ i ∈ ids, isEqualLocationId i.locationId (P.loc v) = isEqualFtbId i (P.agent v) :=
    fun i hi => Bool.eq_iff_iff.2
      ⟨hn.but.eq_agent_of_location (hpeer i hi), fun he => isEqualLocationId_of_ftbId he⟩
  have hf := filter_copies m (fun i => isEqualLocationId i.locationId (P.loc v))
    (fun i => !Agent.isIncomingAgent i incomingSrc) ids
  refine ⟨fun hex hl => ?_, fun hno => ?_⟩
  · have hq : ∀ i ∈ ids, (isEqualLocationId i.locationId (P.loc v) &&
        !Agent.isIncomingAgent i incomingSrc) = isEqualFtbId i (P.agent v) := by
      intro i hi
      rw [hat i hi]
      cases he : isEqualFtbId i (P.agent v) with
      | false => rfl
      | true =>
        rw [isIncomingAgent_agent he, hl]
        rfl
    obtain ⟨i, -, he⟩ := (filter_distinct hd hq).1 hex
    refine ⟨i, hf.trans ?_⟩
    rw [he]
    rfl
  · refine hf.trans ?_
    rw [List.map_eq_nil_iff, List.filter_eq_nil_iff]
    intro i hi hand
    rw [hat i hi, Bool.and_eq_true, Bool.not_eq_true'] at hand
    obtain hno | hl := hno
    · exact hno ⟨i, hi, hand.1⟩
    · rw [isIncomingAgent_agent hand.1, hl] at hand
      cases hand.2

/-- The copies for a client. -/
theorem count_copies (incomingSrc : LocationId) {ids : List Id}
    (hd : ids.Pairwise fun i j => isEqualFtbId i j = false) {id : Id} (hid : P.IsClient id) :
    ((∃ i ∈ ids, isEqualFtbId i id = true) →
        ((ids.filter fun id => !Agent.isIncomingAgent id incomingSrc).map (copyTo m)).countP
          (fun o => isEqualFtbId o.dst id) = 1) ∧
      ((¬∃ i ∈ ids, isEqualFtbId i id = true) →
        ((ids.filter fun id => !Agent.isIncomingAgent id incomingSrc).map (copyTo m)).countP
          (fun o => isEqualFtbId o.dst id) = 0) := by
  have hq : ∀ i ∈ ids, (isEqualFtbId i id && !Agent.isIncomingAgent i incomingSrc) =
      isEqualFtbId i id := by
    intro i _
    cases hi : isEqualFtbId i id with
    | false => rfl
    | true => rw [(hid.congr (KeyEq.symm hi)).not_incoming, Bool.not_false, Bool.true_and]
  obtain ⟨hone, hnone⟩ := filter_distinct hd hq
  have hf := filter_copies m (fun i => isEqualFtbId i id)
    (fun i => !Agent.isIncomingAgent i incomingSrc) ids
  rw [List.countP_eq_length_filter, hf, List.length_map]
  refine ⟨fun hex => ?_, fun hno => ?_⟩
  · obtain ⟨i, -, he⟩ := hone hex
    rw [he]
    rfl
  · rw [hnone hno]
    rfl

theorem fan_of_catchers (h : Wired P w) (hy : y ∈ w.agents) (hc : Carries msg m)
    (incomingSrc : LocationId) {ids : List Id}
    (hd : ids.Pairwise fun i j => isEqualFtbId i j = false)
    (hmem : ∀ i, (∃ x ∈ ids, isEqualFtbId x i = true) ↔ Catches (w.nodes y).net.2 msg.event i) :
    Fan P w y msg incomingSrc
      ((ids.filter fun id => !Agent.isIncomingAgent id incomingSrc).map (copyTo m)) := by
  have hn := h.node y hy
  have hcopy : ∀ id, Carries msg (copyTo m id) := fun id => ⟨rfl, hc.2.1, hc.2.2⟩
  have hpeer : ∀ i ∈ ids, (w.nodes y).info.isPeer i = true := fun i hi =>
    (hn.sim.isPeer i).2 ((hmem i).1 ⟨i, hi, KeyEq.refl i⟩).1
  refine ⟨?_, ?_, ?_, ?_⟩
  · intro o ho
    obtain ⟨id, -, rfl⟩ := List.mem_map.1 ho
    exact hcopy id
  · intro id hid
    rw [← hmem id]
    exact count_copies incomingSrc hd hid
  · intro v hcatch hl
    obtain ⟨i, hi⟩ := (toward_copies hn incomingSrc hd hpeer v).1 ((hmem _).2 hcatch) hl
    exact ⟨adj_of_catches h hy hcatch, copyTo m i, hi, hcopy i⟩
  · intro v hno
    rw [← hmem] at hno
    exact (toward_copies hn incomingSrc hd hpeer v).2 hno

variable [DecidableEq ι] {b : World ι}

/-- The turn of an agent on the event. -/
theorem handle_event (h : Wired P w) (hb : b.nodes = w.nodes) (hy : y ∈ w.agents)
    (hc : Carries msg m) (incomingSrc : LocationId) :
    ∃ out, b.handle P y m incomingSrc =
        some (b.post P y ⟨(w.nodes y).info, out, (w.nodes y).net.2⟩) ∧
      Fan P w y msg incomingSrc out := by
  have hn := h.node y hy
  have hnode : b.nodes y = ⟨(w.nodes y).info, [], (w.nodes y).net.2⟩ := by
    rw [hb, ← hn.idle]
  obtain ⟨ids, hd, hmem, hturn⟩ := turn_notify hn.sim hc.1 incomingSrc
  rw [hc.2.2] at hmem
  have hfan := fan_of_catchers h hy hc incomingSrc hd hmem
  refine ⟨_, ?_, hfan⟩
  unfold World.handle
  rw [hnode, hturn]
  rfl

end

/-! ## How far the event has come -/

section
variable [DecidableEq ι]

/-- The agents `reached` have handled the event that was published at `a`; the tree of `w` is seen
from there (`up`). One copy is on the way over every link out of `reached` whose far end is to get
it, and nothing else is. -/
structure Spread (P : Places ι) (w : World ι) (msg : Msg) (a : ι) (up : ι → ι) (reached : List ι)
    (w' : World ι) : Prop where
  nodes : w'.nodes = w.nodes
  nodup : reached.Nodup
  joined : ∀ y ∈ reached, y ∈ w.agents
  root : a ∈ reached
  way : ∀ y ∈ reached, y ≠ a → up y ∈ reached
  due : ∀ x y, x ∈ reached → y ∉ reached → Catches (w.nodes x).net.2 msg.event (P.agent y) →
    ∃ m, w'.chan x y = [m] ∧ Carries msg m
  rest : ∀ x y, (x ∉ reached ∨ y ∈ reached ∨
    ¬Catches (w.nodes x).net.2 msg.event (P.agent y)) → w'.chan x y = []
  unsent : ∀ z, z ∉ reached → w'.sent z = w.sent z
  sent : ∀ z ∈ reached, ∃ incomingSrc out, w'.sent z = w.sent z ++ out ∧
    Fan P w z msg incomingSrc out

variable {w w' b : World ι} {msg : Msg} {a y : ι} {up : ι → ι} {reached : List ι}

/-- The event changes no tables. -/
theorem nodes_post (h : Wired P w) (hb : b.nodes = w.nodes) (hy : y ∈ w.agents) (out : List Msg) :
    (b.post P y ⟨(w.nodes y).info, out, (w.nodes y).net.2⟩).nodes = w.nodes := by
  have hnode : (⟨(w.nodes y).info, [], (w.nodes y).net.2⟩ : Manager (List Msg × List Agent.Incident))
      = w.nodes y := by
    rw [← (h.node y hy).idle]
  have hp : (b.post P y ⟨(w.nodes y).info, out, (w.nodes y).net.2⟩).nodes =
      Function.update b.nodes y ⟨(w.nodes y).info, [], (w.nodes y).net.2⟩ := rfl
  rw [hp, hnode, hb, Function.update_eq_self]

/-- The agent where a client publishes the event handles it first. -/
theorem spread_published (h : Wired P w) (hd : Drained w) (ha : a ∈ w.agents)
    (ht : msg.msgType = .notify) (hs : P.IsClient msg.src) (up : ι → ι) :
    ∃ w₁, w.client P a msg = some w₁ ∧ Spread P w msg a up [a] w₁ := by
  have hc : Carries msg msg := ⟨ht, rfl, rfl⟩
  obtain ⟨out, ho, hfan⟩ := handle_event h rfl ha hc msg.src.locationId
  have hchan : ∀ v, (w.post P a ⟨(w.nodes a).info, out, (w.nodes a).net.2⟩).chan a v =
      toward (P.loc v) out := by
    intro v
    refine (if_pos rfl).trans ?_
    rw [hd a v, List.nil_append]
  have hself : ¬Catches (w.nodes a).net.2 msg.event (P.agent a) := fun hcatch =>
    (h.edge a a (adj_of_catches h ha hcatch)).2.2 rfl
  refine ⟨_, (if_pos ha).trans ho, nodes_post h rfl ha out, List.nodup_singleton a, ?_,
    List.mem_singleton.2 rfl, ?_, ?_, ?_, ?_, ?_⟩
  · intro y hy
    exact List.mem_singleton.1 hy ▸ ha
  · intro y hy hya
    exact absurd (List.mem_singleton.1 hy) hya
  · intro x y hx hy hcatch
    obtain rfl := List.mem_singleton.1 hx
    have hl : isEqualLocationId (P.loc y) msg.src.locationId = false :=
      (KeyEq.comm isEqualLocationId _ _).trans (hs.1 y)
    obtain ⟨-, o, hout, hco⟩ := hfan.link y hcatch hl
    exact ⟨o, (hchan y).trans hout, hco⟩
  · intro x y hno
    by_cases hx : x = a
    · subst hx
      rw [hchan]
      refine hfan.quiet y (.inl ?_)
      obtain hx | hy | hno := hno
      · exact absurd (List.mem_singleton.2 rfl) hx
      · exact List.mem_singleton.1 hy ▸ hself
      · exact hno
    · exact (if_neg hx).trans (hd x y)
  · intro z hz
    exact Function.update_of_ne (fun he => hz (List.mem_singleton.2 he)) ..
  · intro z hz
    obtain rfl := List.mem_singleton.1 hz
    exact ⟨_, out, Function.update_self .., hfan⟩

omit [DecidableEq ι] in
/-- The next agent is reached from the one before it on the way from `a`. -/
theorem Spread.up_eq {d : ι → Nat} (hs : Spread P w msg a up reached w')
    (hr : Tree.Rooted w.Adj (· ∈ w.agents) a up d) {x y : ι} (hx : x ∈ reached) (hy : y ∉ reached)
    (hadj : w.Adj x y) : y ≠ a ∧ up y = x := by
  obtain ⟨hxa, he⟩ | hya := hr.edge x y hadj
  · exact absurd (he ▸ hs.way x hx hxa) hy
  · exact hya

omit [DecidableEq ι] in
/-- What is in flight is one copy, from an agent that has been reached to one that has not. -/
theorem Spread.front (hs : Spread P w msg a up reached w') (h : Wired P w) {x y : ι}
    (hne : w'.chan x y ≠ []) : x ∈ reached ∧ y ∉ reached ∧ w.Adj x y ∧
      ∃ m, w'.chan x y = [m] ∧ Carries msg m := by
  have hcond : ¬(x ∉ reached ∨ y ∈ reached ∨ ¬Catches (w.nodes x).net.2 msg.event (P.agent y)) :=
    fun hc => hne (hs.rest x y hc)
  rw [not_or, not_or, not_not, not_not] at hcond
  obtain ⟨hx, hy, hcatch⟩ := hcond
  exact ⟨hx, hy, adj_of_catches h (hs.joined x hx) hcatch, hs.due x y hx hy hcatch⟩

/-- The turn of the next agent `y` on the copy from `x`. -/
theorem Spread.turn {d : ι → Nat} (hs : Spread P w msg a up reached w') (h : Wired P w)
    (hr : Tree.Rooted w.Adj (· ∈ w.agents) a up d) {x : ι} (hx : x ∈ reached) (hy : y ∉ reached)
    (hadj : w.Adj x y) {out : List Msg} (hfan : Fan P w y msg (P.loc x) out) :
    Spread P w msg a up (y :: reached)
      ((w'.drain x y []).post P y ⟨(w.nodes y).info, out, (w.nodes y).net.2⟩) := by
  obtain ⟨-, hup⟩ := hs.up_eq hr hx hy hadj
  obtain ⟨-, hyw, hxy⟩ := h.edge x y hadj
  -- no other neighbour of `y` has been reached
  have honly : ∀ u, u ∈ reached → w.Adj u y → u = x := fun u hu hu' =>
    (hs.up_eq hr hu hy hu').2.symm.trans hup
  have hself : ∀ v, ((w'.drain x y []).post P y
      ⟨(w.nodes y).info, out, (w.nodes y).net.2⟩).chan y v = toward (P.loc v) out := by
    intro v
    have hold : (w'.drain x y []).chan y v = [] :=
      (if_neg fun hc => hxy hc.1.symm).trans (hs.rest y v (.inl hy))
    refine (if_pos rfl).trans ?_
    rw [hold, List.nil_append]
  have hother : ∀ u v, u ≠ y → ((w'.drain x y []).post P y
      ⟨(w.nodes y).info, out, (w.nodes y).net.2⟩).chan u v =
        if u = x ∧ v = y then [] else w'.chan u v := fun u v hu => if_neg hu
  refine ⟨nodes_post h hs.nodes hyw out, List.nodup_cons.2 ⟨hy, hs.nodup⟩, ?_,
    List.mem_cons_of_mem y hs.root, ?_, ?_, ?_, ?_, ?_⟩
  · intro z hz
    obtain rfl | hz := List.mem_cons.1 hz
    · exact hyw
    · exact hs.joined z hz
  · intro z hz hza
    obtain rfl | hz := List.mem_cons.1 hz
    · exact List.mem_cons_of_mem z (hup ▸ hx)
    · exact List.mem_cons_of_mem y (hs.way z hz hza)
  · intro u v hu hv hcuv
    obtain ⟨hvy, hvr⟩ := not_or.1 (mt List.mem_cons.2 hv)
    by_cases huy : u = y
    · subst huy
      have hl : isEqualLocationId (P.loc v) (P.loc x) = false := by
        rw [Bool.eq_false_iff]
        exact fun he => hvr (P.distinct v x he ▸ hx)
      obtain ⟨-, o, hout, hco⟩ := hfan.link v hcuv hl
      exact ⟨o, (hself v).trans hout, hco⟩
    · rw [hother u v huy, if_neg fun hc => hvy hc.2]
      exact hs.due u v ((List.mem_cons.1 hu).resolve_left huy) hvr hcuv
  · intro u v hno
    by_cases huy : u = y
    · subst huy
      rw [hself]
      refine hfan.quiet v ?_
      by_cases hvx : v = x
      · subst hvx
        exact .inr (KeyEq.refl (P.loc v))
      · refine .inl fun hcuv => ?_
        have hadjv := adj_of_catches h hyw hcuv
        obtain hu | hv | hno := hno
        · exact hu List.mem_cons_self
        · obtain rfl | hv := List.mem_cons.1 hv
          · exact (h.edge v v hadjv).2.2 rfl
          · exact hvx (honly v hv hadjv.symm)
        · exact hno hcuv
    · rw [hother u v huy]
      split
      · rfl
      · rename_i huv
        refine hs.rest u v ?_
        obtain hu | hv | hno := hno
        · exact .inl fun hc => hu (List.mem_cons_of_mem y hc)
        · obtain rfl | hv := List.mem_cons.1 hv
          · by_cases hu : u ∈ reached
            · refine .inr (.inr fun hcuv => huv ⟨?_, rfl⟩)
              exact honly u hu (adj_of_catches h (hs.joined u hu) hcuv)
            · exact .inl hu
          · exact .inr (.inl hv)
        · exact .inr (.inr hno)
  · intro z hz
    obtain ⟨hzy, hz⟩ := not_or.1 (mt List.mem_cons.2 hz)
    exact (Function.update_of_ne hzy ..).trans (hs.unsent z hz)
  · intro z hz
    by_cases hzy : z = y
    · subst hzy
      refine ⟨_, out, ?_, hfan⟩
      rw [← hs.unsent z hy]
      exact Function.update_self ..
    · obtain ⟨src, o, hsent, hf⟩ := hs.sent z ((List.mem_cons.1 hz).resolve_left hzy)
      exact ⟨src, o, (Function.update_of_ne hzy ..).trans hsent, hf⟩

/-- **A delivery reaches one more agent**, and every message in flight can be delivered. -/
theorem Spread.deliver {d : ι → Nat} (hs : Spread P w msg a up reached w') (h : Wired P w)
    (hr : Tree.Rooted w.Adj (· ∈ w.agents) a up d) {x y : ι} (hne : w'.chan x y ≠ []) :
    ∃ w'', w'.deliver P x y = some w'' ∧ Spread P w msg a up (y :: reached) w'' := by
  obtain ⟨hx, hy, hadj, m, hm, hcm⟩ := hs.front h hne
  obtain ⟨out, ho, hfan⟩ :=
    handle_event (b := w'.drain x y []) h hs.nodes (h.edge x y hadj).2.1 hcm (P.loc x)
  refine ⟨_, ?_, hs.turn h hr hx hy hadj hfan⟩
  unfold World.deliver
  rw [hm]
  exact ho

/-- Deliveries reach as many agents. -/
theorem Spread.deliverAll {d : ι → Nat} (h : Wired P w)
    (hr : Tree.Rooted w.Adj (· ∈ w.agents) a up d) (links : List (ι × ι)) {w₁ w₂ : World ι}
    (hs : Spread P w msg a up reached w₁) (hw : w₁.deliverAll P links = some w₂) :
    ∃ reached', reached'.length = reached.length + links.length ∧
      Spread P w msg a up reached' w₂ := by
  induction links generalizing w₁ reached with
  | nil =>
    obtain rfl : w₁ = w₂ := Option.some.inj hw
    exact ⟨reached, rfl, hs⟩
  | cons l links ih =>
    unfold World.deliverAll at hw
    rw [List.foldlM_cons] at hw
    obtain ⟨w', hw', hw⟩ := Option.bind_eq_some_iff.1 hw
    have hne : w₁.chan l.1 l.2 ≠ [] := by
      intro hn
      unfold World.deliver at hw'
      rw [hn] at hw'
      cases hw'
    obtain ⟨w'', hd, hs'⟩ := hs.deliver h hr hne
    obtain rfl : w' = w'' := Option.some.inj (hw'.symm.trans hd)
    obtain ⟨r, hl, hs''⟩ := ih hs' hw
    refine ⟨r, ?_, hs''⟩
    rw [hl, List.length_cons, List.length_cons]
    omega

/-- When nothing is in flight any more, every agent is reached at which somebody is to get the event,
other than the agent towards `a`. -/
theorem Spread.reached_all {d : ι → Nat} (hs : Spread P w msg a up reached w') (hg : Good P w)
    (hd : Drained w) (hr : Tree.Rooted w.Adj (· ∈ w.agents) a up d) (hd' : Drained w') {z : ι}
    (hz : z ∈ w.agents) : (∃ id, Catches (w.nodes z).net.2 msg.event id ∧
      (z ≠ a → isEqualFtbId id (P.agent (up z)) = false)) → z ∈ reached := by
  refine hr.up_induction (P := fun z => (∃ id, Catches (w.nodes z).net.2 msg.event id ∧
    (z ≠ a → isEqualFtbId id (P.agent (up z)) = false)) → z ∈ reached) (fun _ => hs.root)
    (fun z hz hza ih => ?_) z hz
  rintro ⟨id, ⟨-, mask, hmatch, hholds⟩, hne⟩
  obtain ⟨hx, hadj, -⟩ := hr.next z hz hza
  -- the agent on the way to `a` lists this one
  have hl := ((hg.wired.node z hz).sim.listed id mask).2 hholds
  have hlisted := listed_of_drained hg hd hadj ⟨id, hne hza, hl⟩
  have hsim := (hg.wired.node (up z) hx).sim
  have hcatch : Catches (w.nodes (up z)).net.2 msg.event (P.agent z) :=
    ⟨(hsim.isPeer _).1 (hsim.inv.isPeer_of_listed hlisted), mask, hmatch,
      (hsim.listed _ mask).1 hlisted⟩
  have hup := ih ⟨P.agent z, hcatch, fun hxa => agent_ne (hr.up_up_ne hz hza hxa).symm⟩
  by_contra hzr
  obtain ⟨m, hm, -⟩ := hs.due (up z) z hup hzr hcatch
  rw [hd' (up z) z] at hm
  cases hm

/-- Every agent has sent the event once to each client that is registered with it and holds a
subscription that the event matches, and to no other client. -/
def SentOnce (P : Places ι) (w w' : World ι) (msg : Msg) : Prop :=
  ∀ z ∈ w.agents, ∃ out, w'.sent z = w.sent z ++ out ∧ (∀ o ∈ out, Carries msg o) ∧
    ∀ id, P.IsClient id →
      (Catches (w.nodes z).net.2 msg.event id → out.countP (fun o => isEqualFtbId o.dst id) = 1) ∧
      (¬Catches (w.nodes z).net.2 msg.event id → out.countP (fun o => isEqualFtbId o.dst id) = 0)

/-- What is known of the event at every moment: the agents reached are agents, what is in flight can be
delivered, and when nothing is, the event has been sent as it should. -/
theorem Spread.course {d : ι → Nat} (hs : Spread P w msg a up reached w') (hg : Good P w)
    (hd : Drained w) (hr : Tree.Rooted w.Adj (· ∈ w.agents) a up d) :
    reached.length ≤ w.agents.length ∧
      (∀ i j, w'.chan i j ≠ [] → ∃ w₃, w'.deliver P i j = some w₃) ∧
      (Drained w' → SentOnce P w w' msg) := by
  refine ⟨hs.nodup.length_le_of_subset hs.joined, fun i j hne => ?_, fun hd' z hz => ?_⟩
  · obtain ⟨w₃, hw₃, -⟩ := hs.deliver hg.wired hr hne
    exact ⟨w₃, hw₃⟩
  · by_cases hzr : z ∈ reached
    · obtain ⟨src, out, hsent, hfan⟩ := hs.sent z hzr
      exact ⟨out, hsent, hfan.carries, hfan.once⟩
    · refine ⟨[], ?_, fun o ho => absurd ho List.not_mem_nil, fun id hid => ⟨fun hc => ?_,
        fun _ => rfl⟩⟩
      · rw [hs.unsent z hzr, List.append_nil]
      · exact absurd (hs.reached_all hg hd hr hd' hz ⟨id, hc, fun _ => hid.ne_agent (up z)⟩) hzr

/-- **An event reaches exactly the clients that hold a matching subscription, once each.** It is
published at `a` by a client, in any reachable world without a registration, subscription or
cancellation in flight. There are fewer deliveries than agents, every message in flight can be
delivered, and when none is left, the event has been sent as it should. -/
theorem event_routing (hw : Reached P w) (hq : Quiet w) (ha : a ∈ w.agents)
    (ht : msg.msgType = .notify) (hs : P.IsClient msg.src) :
    ∃ w₁, w.client P a msg = some w₁ ∧ ∀ links w₂, w₁.deliverAll P links = some w₂ →
      links.length < w.agents.length ∧
      (∀ i j, w₂.chan i j ≠ [] → ∃ w₃, w₂.deliver P i j = some w₃) ∧
      (Drained w₂ → SentOnce P w w₂ msg) := by
  have hg := hw.good
  have hd := hq.drained hg.wired
  obtain ⟨up, d, hr⟩ := hg.wired.tree a ha
  obtain ⟨w₁, hw₁, hspread⟩ := spread_published hg.wired hd ha ht hs up
  refine ⟨w₁, hw₁, fun links w₂ hw₂ => ?_⟩
  obtain ⟨reached, hlen, hs₂⟩ := hspread.deliverAll hg.wired hr links hw₂
  obtain ⟨hle, hdeliver, hsent⟩ := hs₂.course hg hd hr
  rw [hlen, List.length_singleton] at hle
  exact ⟨by omega, hdeliver, hsent⟩

end

/-! ## Two agents -/

/-- Two agents, with the process ids 1 and 2. -/
def twoAgents : Places Bool where
  loc b := ⟨[], [], if b then 2 else 1⟩
  distinct := by decide
  pid := by decide

/-- A client with another process id. -/
def clientOf (pid : Int) : Id := { (default : Id) with locationId := ⟨[], [], pid⟩ }

/-- A message of the client, about the mask or event whose fields are all empty. -/
def fromClient (pid : Int) (msgType : MsgType) : Msg where
  msgType := msgType
  src := clientOf pid
  dst := default
  event := default

/-- The second agent joins the first, and a client subscribes there. -/
def subscribed : List (Action Bool) :=
  [.join true false, .deliver true false, .client true (fromClient 3 .clientReg),
    .client true (fromClient 3 .regSubscription), .deliver true false]

/-- The event is published at the first agent. -/
theorem event_routing_two : ∃ w w₁ : World Bool, (start twoAgents false).run twoAgents subscribed = some w ∧
    w.client twoAgents false (fromClient 4 .notify) = some w₁ ∧
    ∀ links w₂, w₁.deliverAll twoAgents links = some w₂ → links.length < w.agents.length ∧
      (∀ i j, w₂.chan i j ≠ [] → ∃ w₃, w₂.deliver twoAgents i j = some w₃) ∧
      (Drained w₂ → SentOnce twoAgents w w₂ (fromClient 4 .notify)) := by
  have hrun : ((start twoAgents false).run twoAgents subscribed).any (fun w =>
      decide (false ∈ w.agents ∧ ∀ i j, w.chan i j = [])) = true := by
    decide +kernel
  obtain ⟨w, hw, hp⟩ := (Option.any_eq_true ..).1 hrun
  obtain ⟨ha, hd⟩ := of_decide_eq_true hp
  have hreached : Reached twoAgents w := by
    refine Reached.run (.init ⟨false, rfl⟩) (fun c hc => ?_) hw
    have hclient : twoAgents.IsClient (clientOf 3) := ⟨by decide, by decide⟩
    simp only [subscribed, List.mem_cons, List.not_mem_nil, or_false] at hc
    obtain rfl | rfl | rfl | rfl | rfl := hc
    · trivial
    · trivial
    · exact ⟨hclient, by decide, by decide⟩
    · exact ⟨hclient, by decide, by decide⟩
    · trivial
  have hquiet : Quiet w := fun i j msg hm => by
    rw [hd i j] at hm
    cases hm
  have hpublisher : twoAgents.IsClient (fromClient 4 .notify).src := ⟨by decide, by decide⟩
  obtain ⟨w₁, h⟩ := event_routing hreached hquiet ha rfl hpublisher
  exact ⟨w, w₁, hw, h⟩

end Backplane
