import Ftb.Backplane.Routing

/-!
# When an agent lists a neighbour for nobody

An agent should list a neighbour under a mask only while some client beyond the link holds it
(`Fresh`). A cancellation goes to the other agents when the last component leaves a mask, but the
last components of two neighbours may be each other: the turn that leaves a mask to one other agent
only tells that agent nothing (`Strands`), and both go on listing each other. Without such turns no
entry is stale (`fresh_of_clean`).
-/

open FTB FTBU FTBN FTBMI Trace

namespace Backplane

variable {ι : Type} {P : Places ι}

/-- Reached from `n` without the link to `a`. -/
def World.Beyond (w : World ι) (a n z : ι) : Prop :=
  Relation.ReflTransGen (fun x y => w.Adj x y ∧ y ≠ a) n z

/-- A client of the agent holds a subscription with an equal mask. -/
def World.Held (P : Places ι) (w : World ι) (z : ι) (mask : Event) : Prop :=
  ∃ id, P.IsClient id ∧ Agent.Holds (w.nodes z).net.2 id mask

/-- No entry of `catch_event_map` is stale: a neighbour is listed only for clients beyond the link,
and a mask that no client holds is in no map. -/
structure Fresh (P : Places ι) (w : World ι) : Prop where
  link : ∀ a ∈ w.agents, ∀ n, w.Adj a n → ∀ mask,
    (w.nodes a).info.listed (P.agent n) mask = true →
    ∃ z ∈ w.agents, w.Beyond a n z ∧ w.Held P z mask
  gone : ∀ mask, (∀ z ∈ w.agents, ¬w.Held P z mask) → ∀ a ∈ w.agents,
    (w.nodes a).info.catchEventMap.find? mask = none

/-- No subscription or cancellation is in flight. -/
def Settled (w : World ι) : Prop :=
  ∀ i j, ∀ msg ∈ w.chan i j, msg.msgType ≠ .regSubscription ∧ msg.msgType ≠ .subscriptionCancel

/-- The message that the action makes an agent handle strands no mask. -/
def Clean (w : World ι) : Action ι → Prop
  | .client a msg => ¬Strands (w.nodes a).info msg
  | .join _ _ => True
  | .deliver i j => ∀ msg rest, w.chan i j = msg :: rest → ¬Strands (w.nodes j).info msg

/-! ## Clean actions can be told -/

section
variable {s : NodeInfo} {id : Id} {mask : Event}

/-- The other agent is one of the components that are listed under the mask. -/
theorem shared_iff : Shared s id mask ↔ s.listed id mask = true ∧
    ∃ ent ∈ s.catchEventMap.nodes, ∃ r ∈ ent.comps.nodes,
      isEqualEventMask ent.mask mask = true ∧ isAgent r.id = true ∧ isEqualFtbId id r.id = false ∧
      ∀ ent' ∈ s.catchEventMap.nodes, isEqualEventMask ent'.mask mask = true →
        ∀ r' ∈ ent'.comps.nodes, isEqualFtbId r'.id id = true ∨ isEqualFtbId r'.id r.id = true := by
  constructor
  · rintro ⟨hid, β, hβ, hne, hl, hall⟩
    obtain ⟨ent, hent, hm, r, hr, he⟩ := lists_iff.1 hl
    refine ⟨hid, ent, hent, r, hr, hm, (isAgent_congr he).trans hβ,
      (KeyEq.congr_right he id).trans hne, fun ent' hent' hm' r' hr' => ?_⟩
    rw [KeyEq.congr_right he]
    exact hall r'.id (lists_iff.2 ⟨ent', hent', hm', r', hr', KeyEq.refl r'.id⟩)
  · rintro ⟨hid, ent, hent, r, hr, hm, hagent, hne, hall⟩
    have hl : s.listed r.id mask = true := lists_iff.2 ⟨ent, hent, hm, r, hr, KeyEq.refl r.id⟩
    refine ⟨hid, r.id, hagent, hne, hl, fun k hk => ?_⟩
    obtain ⟨ent', hent', hm', r', hr', he⟩ := lists_iff.1 hk
    rw [← KeyEq.congr_left he, ← KeyEq.congr_left he]
    exact hall ent' hent' hm' r' hr'

instance : Decidable (Shared s id mask) := decidable_of_iff _ shared_iff.symm

/-- A component that shares a mask shares the mask of an entry. -/
theorem exists_shared_iff :
    (∃ mask, Shared s id mask) ↔ ∃ ent ∈ s.catchEventMap.nodes, Shared s id ent.mask := by
  refine ⟨fun ⟨mask, h⟩ => ?_, fun ⟨ent, _, h⟩ => ⟨ent.mask, h⟩⟩
  obtain ⟨ent, hent, hm, -⟩ := lists_iff.1 h.1
  exact ⟨ent, hent, shared_congr (KeyEq.refl id) (KeyEq.symm hm) h⟩

instance : Decidable (∃ mask, Shared s id mask) := decidable_of_iff _ exists_shared_iff.symm

instance (msg : Msg) : Decidable (Strands s msg) :=
  match h : msg.msgType with
  | .subscriptionCancel => decidable_of_iff (Shared s msg.src msg.event) (by rw [Strands, h])
  | .clientDereg => decidable_of_iff (∃ mask, Shared s msg.src mask) (by rw [Strands, h])
  | .notify | .clientReg | .cleanupConn | .regSubscription | .regPublishableEvent
  | .publishableEventRegCancel | .unknown _ => .isFalse (by rw [Strands, h]; exact not_false)

end

/-- Only the first message of a link is looked at. -/
instance (w : World ι) : ∀ c, Decidable (Clean w c)
  | .client a msg => inferInstanceAs (Decidable (¬Strands (w.nodes a).info msg))
  | .join _ _ => inferInstanceAs (Decidable True)
  | .deliver i j =>
    decidable_of_iff (∀ msg ∈ (w.chan i j).head?, ¬Strands (w.nodes j).info msg) <| by
      change _ ↔ ∀ msg rest, w.chan i j = msg :: rest → ¬Strands (w.nodes j).info msg
      cases w.chan i j with
      | nil => simp
      | cons => simp

section
variable [DecidableEq ι]

/-- The worlds that runs of such actions reach. -/
def CleanlyReached (P : Places ι) : World ι → Prop :=
  Reachable (fun w => ∃ r, w = start P r) fun w w' =>
    ∃ c, Control P c ∧ Clean w c ∧ act P w c = some w'

variable {w w' : World ι}

theorem Sound.act (hs : Sound P w) (h : Wired P w) {c : Action ι} (hc : Control P c)
    (hclean : Clean w c) (ha : act P w c = some w') : Sound P w' := by
  obtain ⟨x, msg, b, src, hx, harr, rfl, rfl | ⟨i, rest, rfl, hw⟩⟩ | ⟨n, p, hn, hp, rfl⟩ :=
    act_cases h.but (fun _ _ hl => hl.elim) hc ha
  · exact hs.turned h.but hx harr hclean
  · exact hs.turned h.but hx harr (hclean msg rest hw)
  · exact hs.joined h.but hn hp

theorem CleanlyReached.sound (h : CleanlyReached P w) : Good P w ∧ Sound P w :=
  Reachable.invariant (I := fun w => Good P w ∧ Sound P w)
    (fun _ ⟨r, hr⟩ => hr ▸ ⟨good_start r, sound_start r⟩)
    (fun _ _ hg ⟨_, hc, hclean, ha⟩ => ⟨hg.1.act hc ha, hg.2.act hg.1.wired hc hclean ha⟩) h

theorem CleanlyReached.run (hw : CleanlyReached P w) {acts : List (Action ι)}
    (hc : ∀ c ∈ acts, Control P c)
    (hclean : EveryStep (fun c w => Clean w c) (fun c w => act P w c) acts w)
    (hr : w.run P acts = some w') : CleanlyReached P w' := by
  induction acts generalizing w with
  | nil => exact Option.some.inj hr ▸ hw
  | cons c acts ih =>
    unfold World.run at hr
    rw [List.foldlM_cons] at hr
    obtain ⟨v, hv, hr⟩ := Option.bind_eq_some_iff.1 hr
    exact ih (hw.step ⟨c, hc c List.mem_cons_self, hclean.1, hv⟩)
      (fun c' hc' => hc c' (List.mem_cons_of_mem c hc')) (hclean.2 v hv) hr

end

section
variable {w : World ι}

/-- When no subscription or cancellation is in flight, a neighbour that is listed has somebody else
listed. -/
theorem others_of_listed (h : Wired P w) (hs : Sound P w) (hq : Settled w) {i j : ι}
    (hadj : w.Adj i j) (hj : j ∈ w.agents) {mask : Event}
    (hl : (w.nodes j).info.listed (P.agent i) mask = true) :
    others (w.nodes i).info (P.agent j) mask := by
  have known : (w.nodes i).info.isPeer (P.agent j) = true ∧ Plain P i (w.chan i j) := by
    obtain hp | hp := hadj
    · obtain hk | hg := h.link i j hp
      · exact ⟨hk.up, hk.plainUp⟩
      · have hd := (h.node j hj).sim.inv.listed_of_not_isPeer hg.down mask
        rw [hl] at hd
        cases hd
    · obtain hk | hg := h.link j i hp
      · exact ⟨hk.down, hk.plainDown⟩
      · rw [hg.unlisted mask] at hl
        cases hl
  have hempty : w.chan i j = [] := by
    refine List.eq_nil_iff_forall_not_mem.2 fun msg hm => ?_
    obtain ⟨hreg, hcan⟩ := hq i j msg hm
    exact (known.2 msg hm).2.elim hreg hcan
  refine hs i j hadj known.1 mask ?_
  unfold World.view
  rw [hempty]
  exact hl

/-- Whoever is listed is a client or a neighbour. -/
theorem listed_cases (h : Wired P w) {i : ι} (hi : i ∈ w.agents) {k : Id} {mask : Event}
    (hl : (w.nodes i).info.listed k mask = true) :
    w.Held P i mask ∨ ∃ c, w.Adj i c ∧ isEqualFtbId k (P.agent c) = true ∧
      (w.nodes i).info.listed (P.agent c) mask = true := by
  have hn := h.node i hi
  obtain hc | ⟨c, hc, he⟩ := hn.peers k (hn.sim.inv.isPeer_of_listed hl)
  · exact .inl ⟨k, hc, (hn.sim.listed k mask).1 hl⟩
  · exact .inr ⟨c, hc, he, (listed_congr he (KeyEq.refl mask)).symm.trans hl⟩

theorem link_of_sound (h : Wired P w) (hs : Sound P w) (hq : Settled w) {a n : ι}
    (ha : a ∈ w.agents) (hadj : w.Adj a n) {mask : Event}
    (hl : (w.nodes a).info.listed (P.agent n) mask = true) :
    ∃ z ∈ w.agents, w.Beyond a n z ∧ w.Held P z mask := by
  obtain ⟨up, d, hr⟩ := h.tree a ha
  have walk : ∀ x ∈ w.agents, x ≠ a → (w.nodes (up x)).info.listed (P.agent x) mask = true →
      ∃ z ∈ w.agents, w.Beyond a x z ∧ w.Held P z mask := by
    refine hr.down_induction fun x hx ih hxa hlx => ?_
    obtain ⟨hu, hxu, -⟩ := hr.next x hx hxa
    obtain ⟨k, hku, hk⟩ := others_of_listed h hs hq hxu hu hlx
    obtain hheld | ⟨c, hxc, he, hlc⟩ := listed_cases h hx hk
    · exact ⟨x, hx, .refl, hheld⟩
    · -- the neighbour is not the one towards `a`, so it is further away
      have hcu : c ≠ up x := by
        rintro rfl
        rw [he] at hku
        cases hku
      obtain ⟨hca, huc⟩ := (hr.edge x c hxc).resolve_left fun hc => hcu hc.2.symm
      obtain ⟨-, hc, -⟩ := h.edge x c hxc
      obtain ⟨z, hz, hzc, hheld⟩ := ih c hc hca huc hca (by rwa [huc])
      exact ⟨z, hz, .head ⟨hxc, hca⟩ hzc, hheld⟩
  obtain ⟨-, hn, hne⟩ := h.edge a n hadj
  obtain ⟨hna, hun⟩ := (hr.edge a n hadj).resolve_left fun hc => hc.1 rfl
  exact walk n hn hna (by rwa [hun])

end

/-- **No entry is stale** when no subscription or cancellation is in flight, after a run in which no
turn strands a mask. -/
theorem fresh_of_clean [DecidableEq ι] {w : World ι} (hw : CleanlyReached P w) (hq : Settled w) :
    Fresh P w := by
  obtain ⟨hg, hs⟩ := hw.sound
  refine ⟨fun a ha n hadj mask hl => link_of_sound hg.wired hs hq ha hadj hl, ?_⟩
  intro mask hno a ha
  by_contra hsome
  obtain ⟨ent, he⟩ := Option.ne_none_iff_exists'.1 hsome
  obtain ⟨hent, hm⟩ := KeyList.mem_of_find? he
  have hinv := (hg.wired.node a ha).sim.inv
  obtain ⟨r, hr⟩ := List.exists_mem_of_ne_nil _ (hinv.noEmpty ent hent)
  have hl : (w.nodes a).info.listed r.id mask = true :=
    lists_iff.2 ⟨ent, hent, hm, r, hr, KeyEq.refl r.id⟩
  obtain hheld | ⟨c, hc, -, hlc⟩ := listed_cases hg.wired ha hl
  · exact hno a ha hheld
  · obtain ⟨z, hz, -, hheld⟩ := link_of_sound hg.wired hs hq ha hc hlc
    exact hno z hz hheld

/-- A client subscribes at one of two agents, and cancels. -/
def cancelled : List (Action Bool) :=
  [.join true false, .deliver true false,
    .client false (fromClient 3 .clientReg), .client false (fromClient 3 .regSubscription),
    .deliver false true,
    .client false (fromClient 3 .subscriptionCancel), .deliver false true]

/-- Both agents had an entry for the mask, and at the end it is in no map. -/
theorem fresh_of_clean_cancelled : ∃ v w : World Bool,
    (start twoAgents false).run twoAgents (cancelled.take 5) = some v ∧
    (∀ i, (v.nodes i).info.catchEventMap.find? default ≠ none) ∧
    (start twoAgents false).run twoAgents cancelled = some w ∧ Fresh twoAgents w ∧
    ∀ i, (w.nodes i).info.catchEventMap.find? default = none := by
  have hbefore : ((start twoAgents false).run twoAgents (cancelled.take 5)).any (fun v =>
      decide (∀ i, (v.nodes i).info.catchEventMap.find? default ≠ none)) = true := by
    decide +kernel
  have hrun : ((start twoAgents false).run twoAgents cancelled).any (fun w =>
      decide ((∀ i j, w.chan i j = []) ∧
        ∀ i, (w.nodes i).info.catchEventMap.find? default = none)) = true := by
    decide +kernel
  have hclean : EveryStep (fun c w => Clean w c) (fun c w => act twoAgents w c) cancelled
      (start twoAgents false) := by
    decide +kernel
  obtain ⟨v, hv, hlisted⟩ := (Option.any_eq_true ..).1 hbefore
  obtain ⟨w, hw, hp⟩ := (Option.any_eq_true ..).1 hrun
  obtain ⟨hchan, hgone⟩ := of_decide_eq_true hp
  have hreached : CleanlyReached twoAgents w := by
    refine CleanlyReached.run (.init ⟨false, rfl⟩) (fun c hc => ?_) hclean hw
    have hclient : twoAgents.IsClient (clientOf 3) := ⟨by decide, by decide⟩
    simp only [cancelled, List.mem_cons, List.not_mem_nil, or_false] at hc
    obtain rfl | rfl | rfl | rfl | rfl | rfl | rfl := hc
    · trivial
    · trivial
    · exact ⟨hclient, by decide, by decide⟩
    · exact ⟨hclient, by decide, by decide⟩
    · trivial
    · exact ⟨hclient, by decide, by decide⟩
    · trivial
  refine ⟨v, w, hv, of_decide_eq_true hlisted, hw, ?_, hgone⟩
  exact fresh_of_clean hreached fun i j msg hm => absurd hm (by simp [hchan])

/-! ## Two agents that list each other -/

/-- A client at each of two agents subscribes to one mask, and then both cancel. -/
def crossed : List (Action Bool) :=
  [.join true false, .deliver true false,
    .client false (fromClient 3 .clientReg), .client false (fromClient 3 .regSubscription),
    .deliver false true,
    .client true (fromClient 4 .clientReg), .client true (fromClient 4 .regSubscription),
    .deliver true false,
    .client false (fromClient 3 .subscriptionCancel),
    .client true (fromClient 4 .subscriptionCancel)]

/-- The agents list each other, and nobody holds the mask. -/
theorem crossed_stale : ¬∀ w : World Bool, Reached twoAgents w → Settled w → Fresh twoAgents w := by
  intro h
  have hrun : ((start twoAgents false).run twoAgents crossed).any (fun w =>
      decide ((∀ i j, w.chan i j = []) ∧ false ∈ w.agents ∧ w.parent true = some false ∧
        (w.nodes false).info.listed (twoAgents.agent true) default = true ∧
        ∀ i, ∀ ent ∈ (w.nodes i).info.catchEventMap.nodes, ∀ r ∈ ent.comps.nodes,
          isAgent r.id = true)) = true := by
    decide +kernel
  obtain ⟨w, hw, hp⟩ := (Option.any_eq_true ..).1 hrun
  obtain ⟨hd, ha, hpar, hl, hagents⟩ := of_decide_eq_true hp
  have hreached : Reached twoAgents w := by
    refine Reached.run (.init ⟨false, rfl⟩) (fun c hc => ?_) hw
    have h3 : twoAgents.IsClient (clientOf 3) := ⟨by decide, by decide⟩
    have h4 : twoAgents.IsClient (clientOf 4) := ⟨by decide, by decide⟩
    simp only [crossed, List.mem_cons, List.not_mem_nil, or_false] at hc
    obtain rfl | rfl | rfl | rfl | rfl | rfl | rfl | rfl | rfl | rfl := hc
    · trivial
    · trivial
    · exact ⟨h3, by decide, by decide⟩
    · exact ⟨h3, by decide, by decide⟩
    · trivial
    · exact ⟨h4, by decide, by decide⟩
    · exact ⟨h4, by decide, by decide⟩
    · trivial
    · exact ⟨h3, by decide, by decide⟩
    · exact ⟨h4, by decide, by decide⟩
  have hsettled : Settled w := fun i j msg hm => by
    rw [hd i j] at hm
    cases hm
  obtain ⟨z, hz, -, id, hid, hholds⟩ :=
    (h w hreached hsettled).link false ha true (.inr hpar) default hl
  -- only agents are listed anywhere, so no client holds the mask
  have hlisted := ((hreached.good.wired.node z hz).sim.listed id default).2 hholds
  obtain ⟨ent, hent, -, r, hr, he⟩ := lists_iff.1 hlisted
  have hagent := hagents z ent hent r hr
  rw [isAgent_congr he, hid.isAgent] at hagent
  cases hagent

end Backplane
