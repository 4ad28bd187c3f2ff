import Ftb.Backplane.Proof.Flow

/-!
# The way to one subscriber

On the way from `a` to an agent `z` where a component holds a subscription, every agent lists the next
one under the mask, and goes on doing so while the subscription is held, whatever others do (`Route`):
an agent cancels a mask with its neighbour only when nobody else has it, and the next agent on the way
has it. Of the events that the mask matches, nothing is left out there (`Full`).
-/

open FTB FTBU FTBN FTBMI Trace

namespace Backplane

variable {ι : Type} {P : Places ι}

/-! ## What a turn cancels -/

section
variable {s : NodeInfo} {β : Id}

theorem cancel_of_removeMsgs {id : Id} {mask : Event} {out : Msg} (h : out ∈ removeMsgs s id mask) :
    out.msgType = .subscriptionCancel := by
  obtain ⟨he, -⟩ | ⟨event, -, he, -⟩ := removeMsgs_cases s id mask
  · rw [he] at h
    cases h
  · rw [he] at h
    obtain ⟨c, -, -, -, rfl⟩ := mem_propMsgs.1 h
    rfl

theorem cancel_of_dropMsgs {id : Id} (masks : List Event) {s : NodeInfo} {out : Msg}
    (h : out ∈ dropMsgs id masks s) : out.msgType = .subscriptionCancel := by
  induction masks generalizing s with
  | nil => exact absurd h List.not_mem_nil
  | cons mask masks ih =>
    obtain h | h := List.mem_append.1 h
    · exact cancel_of_removeMsgs h
    · exact ih h

/-- A turn sends subscriptions only, or cancellations only. -/
theorem uniform_react (s : NodeInfo) (msg : Msg) :
    (∀ out ∈ reactMsgs s msg, out.msgType = .regSubscription) ∨
      ∀ out ∈ reactMsgs s msg, out.msgType = .subscriptionCancel := by
  unfold reactMsgs
  split
  · refine .inl fun out ho => ?_
    unfold registerMsgs at ho
    split at ho
    · obtain ⟨ent, -, rfl⟩ := List.mem_map.1 ho
      rfl
    · cases ho
  · refine .inr fun out ho => ?_
    unfold leaveMsgs at ho
    split at ho
    · cases ho
    · exact cancel_of_dropMsgs _ ho
  · refine .inl fun out ho => ?_
    unfold subscribeMsgs at ho
    split at ho
    · obtain ⟨c, -, -, -, rfl⟩ := mem_propMsgs.1 ho
      rfl
    · cases ho
  · refine .inr fun out ho => ?_
    obtain ⟨-, hm⟩ | ⟨t, i, mask, -, -, -, -, -, -, hm⟩ := cancel_cases s msg.src msg.event
    · rw [hm] at ho
      cases ho
    · rw [hm] at ho
      exact cancel_of_removeMsgs ho
  · exact .inl fun out ho => absurd ho List.not_mem_nil

/-- **No turn cancels a mask with a neighbour while somebody else has it.** -/
theorem uncancelled_react (hp : s.isPeer β = true) (ha : isAgent β = true) {msg : Msg}
    (hsep : isEqualLocationId msg.src.locationId β.locationId = true →
      isEqualFtbId msg.src β = true) {mask : Event} (ho : others (reactInfo s msg) β mask) {out : Msg}
    (hout : out ∈ toward β.locationId (reactMsgs s msg)) (ht : out.msgType = .subscriptionCancel) :
    isEqualEventMask out.event mask = false := by
  have hh := complete_react hp ha hsep mask ho
  obtain hreg | hcan := uniform_react s msg
  · rw [hreg out (mem_toward.1 hout).1] at ht
    cases ht
  · exact ((hears_cancellations mask _ fun m hm => hcan m (mem_toward.1 hm).1).1 hh).2 out hout

end

/-! ## The way is open -/

/-- The way `way` from `a` to `z`: every agent on it lists the next one, or at `z` the component, and
no cancellation of the mask is on its way back. -/
structure Route (P : Places ι) (id : Id) (mask : Event) (a z : ι) (up : ι → ι) (way : ι → Prop)
    (w : World ι) : Prop where
  start : way z
  mem : ∀ y, way y → y ∈ w.agents
  next : ∀ y, way y → y ≠ a → way (up y)
  before : ∀ y, way y → y = z ∨ ∃ x, way x ∧ x ≠ a ∧ up x = y
  here : (w.nodes z).info.listed id mask = true
  listed : ∀ y, way y → y ≠ a → (w.nodes (up y)).info.listed (P.agent y) mask = true
  peer : ∀ y, way y → y ≠ a → (w.nodes y).info.isPeer (P.agent (up y)) = true
  uncancelled : ∀ y, way y → y ≠ a → ∀ m ∈ w.chan y (up y), m.msgType = .subscriptionCancel →
    isEqualEventMask m.event mask = false

/-- The component neither cancels the mask at `z` nor deregisters there. -/
def Keeps (id : Id) (mask : Event) (z : ι) : Action ι → Prop
  | .client x msg => x = z → isEqualFtbId msg.src id = true → msg.msgType ≠ .clientDereg ∧
      (msg.msgType = .subscriptionCancel → isEqualEventMask msg.event mask = false)
  | _ => True

/-- A message of control comes from a client, or from a neighbour that says who it is. -/
theorem Takes.source [DecidableEq ι] {w b : World ι} {x : ι} {msg : Msg} {src : LocationId}
    {c : Action ι} (h : Takes P w x msg c src b) (hl : Live P w) (hm : isControl msg = true) :
    (c = .client x msg ∧ P.IsClient msg.src) ∨ ∃ i, msg ∈ w.chan i x ∧ msg.src = P.agent i ∧
      msg.msgType ≠ .clientDereg ∧
      (msg.msgType = .regSubscription → (w.nodes x).info.isPeer msg.src = true) := by
  cases h with
  | told hc => exact .inl ⟨rfl, hc⟩
  | taken i rest hw hadj =>
    have hw' : w.hush.chan i x = msg :: rest.filter isControl := by
      rw [hush_chan, hw, List.filter_cons_of_pos hm]
    have harr := arrives_of_chan hl.good.wired.but hadj hw'
    generalize hb : w.hush.drain i x (rest.filter isControl) = b at harr
    cases harr with
    | client =>
      have hrest : (w.hush.drain i x (rest.filter isControl)).chan i x = rest.filter isControl :=
        if_pos ⟨rfl, rfl⟩
      rw [hb, hw'] at hrest
      exact absurd (congrArg List.length hrest) (Nat.succ_ne_self _)
    | agent j r _ hj hs ht =>
      refine .inr ⟨j, List.mem_of_mem_filter (hj ▸ List.mem_cons_self), hs, ?_, fun hreg => ?_⟩
      · obtain ⟨ht | ht, -⟩ | ⟨ht, -⟩ := ht <;> rw [ht] <;> decide
      · obtain ⟨-, hp⟩ | ⟨ht, -⟩ := ht
        · exact hs ▸ hp
        · rw [hreg] at ht
          cases ht

namespace Route

section
variable [DecidableEq ι] {w w' b : World ι} {id : Id} {mask : Event} {a x z : ι} {up : ι → ι}
  {way : ι → Prop} {msg : Msg} {src : LocationId} {c : Action ι}

/-- What is left when a message was taken out, and messages are added that cancel nothing. -/
theorem uncancelled_of (hr : Route P id mask a z up way w) (ht : Takes P w x msg c src b)
    {y : ι} (hy : way y) (hya : y ≠ a) {new : List Msg}
    (hnew : ∀ m ∈ new, m.msgType = .subscriptionCancel → isEqualEventMask m.event mask = false) :
    ∀ m ∈ b.chan y (up y) ++ new, m.msgType = .subscriptionCancel →
      isEqualEventMask m.event mask = false := by
  intro m hm
  obtain hm | hm := List.mem_append.1 hm
  · exact hr.uncancelled y hy hya m ((ht.chan_suffix y (up y)).subset hm)
  · exact hnew m hm

/-- The component is still listed after a turn at `z`. -/
theorem here_turned (hr : Route P id mask a z up way w) (hid : P.IsClient id) (hl : Live P w)
    (hz : z ∈ w.agents) (ht : Takes P w z msg c src b) (hm : isControl msg = true)
    (hkeep : Keeps id mask z c) : (reactInfo (w.nodes z).info msg).listed id mask = true := by
  have hinv : Inv (w.nodes z).info := (hl.good.wired.node z hz).sim.inv
  cases hs : isEqualFtbId msg.src id with
  | false => exact (listed_react hinv hs mask).trans hr.here
  | true =>
    obtain ⟨rfl, -⟩ | ⟨i, -, hsrc, -, -⟩ := ht.source hl hm
    · obtain ⟨hd, hcan⟩ := hkeep rfl hs
      have hp : (w.nodes z).info.isPeer msg.src = true := by
        rw [NodeInfo.isPeer_congr hs]
        exact hinv.isPeer_of_listed hr.here
      refine (listed_react_self hinv (fun _ => hp) hd hs mask).2 ?_
      unfold hear
      split
      · exact .inl hr.here
      · exact ⟨hr.here, hcan ‹_›⟩
      · exact hr.here
    · rw [hsrc, KeyEq.comm isEqualFtbId, hid.ne_agent i] at hs
      cases hs

/-- The next agent is still listed after a turn at the one before it. -/
theorem listed_turned (hr : Route P id mask a z up way w) (hl : Live P w) {y : ι} (hy : way y)
    (hya : y ≠ a) (hx : up y ∈ w.agents) (ht : Takes P w (up y) msg c src b)
    (hm : isControl msg = true) :
    (reactInfo (w.nodes (up y)).info msg).listed (P.agent y) mask = true := by
  have hinv : Inv (w.nodes (up y)).info := (hl.good.wired.node (up y) hx).sim.inv
  cases hs : isEqualFtbId msg.src (P.agent y) with
  | false => exact (listed_react hinv hs mask).trans (hr.listed y hy hya)
  | true =>
    obtain ⟨-, hc⟩ | ⟨i, hmem, hsrc, hd, hp⟩ := ht.source hl hm
    · rw [hc.ne_agent y] at hs
      cases hs
    · rw [hsrc] at hs hp
      obtain rfl := eq_of_agent_eq hs
      refine (listed_react_self hinv (hsrc ▸ hp) hd (hsrc ▸ hs) mask).2 ?_
      unfold hear
      split
      · exact .inl (hr.listed i hy hya)
      · exact ⟨hr.listed i hy hya, hr.uncancelled i hy hya msg hmem ‹_›⟩
      · exact hr.listed i hy hya

/-- **A turn on a message of control leaves the way open.** -/
theorem turned {d : ι → Nat} (hr : Route P id mask a z up way w) (hid : P.IsClient id)
    (hl : Live P w) (htree : Tree.Rooted w.Adj (· ∈ w.agents) a up d) (hx : x ∈ w.agents)
    (ht : Takes P w x msg c src b) (hm : isControl msg = true)
    (harr : Arrives P w.hush x msg b.hush) (hkeep : Keeps id mask z c) :
    Route P id mask a z up way (b.turned P x msg src) := by
  have hnodes : ((b.turned P x msg src).nodes x).info = reactInfo (w.nodes x).info msg := by
    rw [nodes_turned, ht.nodes]
  have hother : ∀ i, i ≠ x → (b.turned P x msg src).nodes i = w.nodes i := fun i hi => by
    rw [nodes_turned_of_ne hi, ht.nodes]
  have hhere : ((b.turned P x msg src).nodes z).info.listed id mask = true := by
    by_cases hz : z = x
    · subst hz
      rw [hnodes]
      exact hr.here_turned hid hl hx ht hm hkeep
    · rw [hother z hz]
      exact hr.here
  have hlisted : ∀ y, way y → y ≠ a →
      ((b.turned P x msg src).nodes (up y)).info.listed (P.agent y) mask = true := by
    intro y hy hya
    by_cases hux : up y = x
    · subst hux
      rw [hnodes]
      exact hr.listed_turned hl hy hya hx ht hm
    · rw [hother _ hux]
      exact hr.listed y hy hya
  refine ⟨hr.start, fun y hy => ht.agents.symm ▸ hr.mem y hy, hr.next, hr.before, hhere, hlisted,
    fun y hy hya => ?_, fun y hy hya => ?_⟩
  · by_cases hyx : y = x
    · subst hyx
      rw [hnodes]
      exact harr.isPeer_kept (hr.peer y hy hya)
    · rw [hother y hyx]
      exact hr.peer y hy hya
  · by_cases hyx : y = x
    · subst hyx
      rw [chan_turned, ht.nodes]
      refine hr.uncancelled_of ht hy hya fun m hmem htype => ?_
      -- the next agent on the way, or the component, has the mask
      have ho : Backplane.others (reactInfo (w.nodes y).info msg) (P.agent (up y)) mask := by
        rw [← hnodes]
        obtain rfl | ⟨k, hk, hka, rfl⟩ := hr.before y hy
        · exact ⟨id, hid.ne_agent _, hhere⟩
        · exact ⟨P.agent k, agent_ne (htree.up_up_ne (hr.mem k hk) hka hya).symm, hlisted k hk hka⟩
      exact uncancelled_react (hr.peer y hy hya) (isAgent_agent _) (harr.fromHere _) ho hmem htype
    · rw [chan_turned_of_ne hyx, ← List.append_nil (b.chan y (up y))]
      exact hr.uncancelled_of ht hy hya fun m hmem => absurd hmem List.not_mem_nil

/-- An event leaves the way open. -/
theorem posted (hr : Route P id mask a z up way w) (hl : Live P w) (hx : x ∈ w.agents)
    (ht : Takes P w x msg c src b) {out : List Msg} (hf : Fan P w.hush x msg src out) :
    Route P id mask a z up way (b.post P x ⟨(w.nodes x).info, out, (w.nodes x).net.2⟩) := by
  have hnodes : (b.post P x ⟨(w.nodes x).info, out, (w.nodes x).net.2⟩).nodes = w.nodes :=
    (nodes_post (w := w.hush) hl.good.wired ht.nodes hx out)
  refine ⟨hr.start, fun y hy => ht.agents.symm ▸ hr.mem y hy, hr.next, hr.before, ?_, ?_, ?_,
    fun y hy hya => ?_⟩
  · rw [hnodes]
    exact hr.here
  · rw [hnodes]
    exact hr.listed
  · rw [hnodes]
    exact hr.peer
  · by_cases hyx : y = x
    · subst hyx
      have hchan : (b.post P y ⟨(w.nodes y).info, out, (w.nodes y).net.2⟩).chan y (up y) =
          b.chan y (up y) ++ toward (P.loc (up y)) out := if_pos rfl
      rw [hchan]
      refine hr.uncancelled_of ht hy hya fun m hm htype => ?_
      rw [(hf.carries m (mem_toward.1 hm).1).1] at htype
      cases htype
    · have hchan : (b.post P x ⟨(w.nodes x).info, out, (w.nodes x).net.2⟩).chan y (up y) =
          b.chan y (up y) := if_neg hyx
      rw [hchan, ← List.append_nil (b.chan y (up y))]
      exact hr.uncancelled_of ht hy hya fun m hmem => absurd hmem List.not_mem_nil

/-- So does an agent that joins. -/
theorem joined (hr : Route P id mask a z up way w) {n p : ι} (hn : n ∉ w.agents) :
    Route P id mask a z (Function.update up n p) way (w.joined P n p) := by
  have hne : ∀ y, way y → y ≠ n := fun y hy hyn => hn (hyn ▸ hr.mem y hy)
  have hup : ∀ y, way y → Function.update up n p y = up y := fun y hy =>
    Function.update_of_ne (hne y hy) ..
  refine ⟨hr.start, fun y hy => List.mem_cons_of_mem n (hr.mem y hy), fun y hy hya => ?_,
    fun y hy => ?_, ?_, fun y hy hya => ?_, fun y hy hya => ?_, fun y hy hya => ?_⟩
  · rw [hup y hy]
    exact hr.next y hy hya
  · refine (hr.before y hy).imp_right fun ⟨x, hx, hxa, he⟩ => ⟨x, hx, hxa, ?_⟩
    rwa [hup x hx]
  · rw [nodes_joined_of_ne (hne z hr.start)]
    exact hr.here
  · rw [hup y hy, nodes_joined_of_ne (hne _ (hr.next y hy hya))]
    exact hr.listed y hy hya
  · rw [hup y hy, nodes_joined_of_ne (hne y hy)]
    exact hr.peer y hy hya
  · rw [hup y hy, chan_joined_of_ne fun hc => hne y hy hc.1]
    exact hr.uncancelled y hy hya

end

end Route

/-! ## Nothing is left out -/

/-- The events that the mask matches. -/
def matching (mask : Event) (es : List Publication) : List Publication :=
  es.filter fun e => matchMask e.event mask

theorem matching_append (mask : Event) (l₁ l₂ : List Publication) :
    matching mask (l₁ ++ l₂) = matching mask l₁ ++ matching mask l₂ :=
  List.filter_append ..

/-- Of the events that the mask matches, every agent on the way has handled all that the one before it
has, but for those on their way, and `z` has sent all of them to the component. -/
structure Full (w₀ : World ι) (publisher id : Id) (mask : Event) (a z : ι) (up : ι → ι)
    (way : ι → Prop) (handled : ι → List Publication) (w : World ι) : Prop where
  link : ∀ y, way y → y ≠ a →
    matching mask (handled y ++ events publisher (w.chan (up y) y)) = matching mask (handled (up y))
  sent : ∃ out, w.sent z = w₀.sent z ++ out ∧
    matching mask (received publisher id out) = matching mask (handled z)

section
variable {publisher : Id} {mask : Event} {msg : Msg}

/-- What is passed on of a message is all of it, if all is passed on that the mask matches. -/
theorem matching_eq_of_sublist {new : List Publication} (hs : new.Sublist (events publisher [msg]))
    (h : isEventOf publisher msg = true → matchMask msg.event mask = true →
      new = events publisher [msg]) :
    matching mask new = matching mask (events publisher [msg]) := by
  have hone : events publisher [msg] = if isEventOf publisher msg then [publication msg] else [] :=
    events_cons []
  cases he : isEventOf publisher msg with
  | false =>
    rw [he] at hone
    rw [hone] at hs ⊢
    rw [List.sublist_nil.1 hs]
    rfl
  | true =>
    cases hm : matchMask (publication msg).event mask with
    | true => rw [h he hm]
    | false =>
      have hnone : matching mask (events publisher [msg]) = [] := by
        rw [hone, he]
        exact List.filter_cons_of_neg (by rw [hm]; exact Bool.false_ne_true)
      have hsub := hs.filter fun e => matchMask e.event mask
      rw [hnone]
      exact List.sublist_nil.1 (hnone ▸ hsub)

theorem catches_of_listed {s : Manager (List Msg × List Agent.Incident)}
    (h : Agent.Sim s.info s.net.2) {id : Id} (hl : s.info.listed id mask = true) {event : Event}
    (hm : matchMask event mask = true) : Catches s.net.2 event id :=
  ⟨(h.isPeer id).1 (h.inv.isPeer_of_listed hl), mask, hm, (h.listed id mask).1 hl⟩

end

namespace Full

section
variable [DecidableEq ι] {w₀ w w' b : World ι} {publisher id : Id} {mask : Event} {a x z : ι}
  {up : ι → ι} {way : ι → Prop} {handled : ι → List Publication} {msg : Msg} {src : LocationId}
  {c : Action ι}

/-- **Every turn passes on what the mask matches.** -/
theorem relay (hf : Full w₀ publisher id mask a z up way handled w)
    (hflow : Flow P w₀ publisher a up handled w) (hr : Route P id mask a z up way w)
    (hid : P.IsClient id) (hl : Live P w) (hx : x ∈ w.agents) (ht : Takes P w x msg c src b)
    (hat : OnlyAt publisher a c) {new : ι → List Publication} {out : List Msg}
    (hrel : Relays P w b publisher x msg src new out w') :
    Full w₀ publisher id mask a z up way
      (Function.update handled x (handled x ++ events publisher [msg])) w' := by
  have hsim := (hl.good.wired.node x hx).sim
  refine ⟨fun y hy hya => ?_, ?_⟩
  · obtain ⟨-, -, hne⟩ := hflow.before (hr.mem y hy) hya
    have hlink := hf.link y hy hya
    by_cases hyx : y = x
    · subst hyx
      rw [Function.update_self, Function.update_of_ne hne, hrel.others _ _ hne, List.append_assoc,
        (hflow.taken ht hat hya).1]
      exact hlink
    · rw [Function.update_of_ne hyx]
      by_cases hux : up y = x
      · subst hux
        rw [Function.update_self, hrel.chan, ← List.append_assoc, matching_append, hlink,
          matching_append]
        refine congrArg _ (matching_eq_of_sublist (hrel.few y) fun he hmatch => ?_)
        exact hrel.all y (catches_of_listed hsim (hr.listed y hy hya) hmatch)
          (hflow.from_before ht (hr.mem y hy) hya he)
      · rw [Function.update_of_ne hux, hrel.others _ _ hux, ht.chan_of_ne hyx]
        exact hlink
  · obtain ⟨before, hbefore, heq⟩ := hf.sent
    by_cases hz : z = x
    · subst hz
      refine ⟨before ++ out, by rw [hrel.sent, hbefore, List.append_assoc], ?_⟩
      rw [Function.update_self, received_append, matching_append, heq, matching_append]
      refine congrArg _ (matching_eq_of_sublist (hrel.once id hid) fun he hmatch => ?_)
      exact hrel.each id hid (catches_of_listed hsim hr.here hmatch)
    · rw [Function.update_of_ne hz]
      exact ⟨before, (hrel.silent z hz).trans hbefore, heq⟩

/-- An agent that joins changes nothing on the way. -/
theorem joined (hf : Full w₀ publisher id mask a z up way handled w)
    (hr : Route P id mask a z up way w) {n p : ι} (hn : n ∉ w.agents) :
    Full w₀ publisher id mask a z (Function.update up n p) way handled (w.joined P n p) := by
  have hne : ∀ y, way y → y ≠ n := fun y hy hyn => hn (hyn ▸ hr.mem y hy)
  refine ⟨fun y hy hya => ?_, ?_⟩
  · have hchan : (w.joined P n p).chan (up y) y = w.chan (up y) y :=
      chan_joined_of_ne fun hc => hne _ (hr.next y hy hya) hc.1
    rw [Function.update_of_ne (hne y hy), hchan]
    exact hf.link y hy hya
  · obtain ⟨out, hout, heq⟩ := hf.sent
    have hsent : (w.joined P n p).sent z = w.sent z := Function.update_of_ne (hne z hr.start) ..
    exact ⟨out, hsent.trans hout, heq⟩

end

end Full

end Backplane
