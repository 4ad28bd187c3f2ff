import Ftb.Backplane.Proof.Route

/-!
# What a subscriber gets of a publisher

Clients publish, subscribe and cancel and agents join in any order, and every channel is emptied at its
own pace. A client gets the events of one publisher in the order in which they were published, and none
twice (`events_in_order`). If it holds a subscription when no message of control is in flight, and goes
on holding it, then at every moment what it has got of the events that the mask matches is an initial
part of them, and all of them once none is in flight (`subscriber_gets_all`).
-/

open FTB FTBU FTBN FTBMI Trace

namespace Backplane

variable {ι : Type} {P : Places ι} [DecidableEq ι]

/-- None of the events of the publisher is in flight. -/
def NoneOf (publisher : Id) (w : World ι) : Prop := ∀ i j, events publisher (w.chan i j) = []

section
variable {w₀ w w' b : World ι} {publisher id : Id} {mask : Event} {a x z : ι} {up : ι → ι}
  {handled : ι → List Publication} {msg : Msg} {src : LocationId} {c : Action ι} {acts : List (Action ι)}

omit [DecidableEq ι] in
theorem published_cons (c : Action ι) (acts : List (Action ι)) :
    published publisher (c :: acts) = published publisher [c] ++ published publisher acts := by
  cases c with
  | client x msg => exact events_append [msg] _
  | _ => rfl

namespace Flow

/-- What `a` handles of the publisher is what is published. -/
theorem published_turn (hf : Flow P w₀ publisher a up handled w) (ht : Takes P w x msg c src b)
    (hat : OnlyAt publisher a c) :
    Function.update handled x (handled x ++ events publisher [msg]) a =
      handled a ++ published publisher [c] := by
  cases ht with
  | told =>
    have hpub : published publisher [Action.client x msg] = events publisher [msg] := rfl
    rw [hpub]
    by_cases hxa : a = x
    · subst hxa
      exact Function.update_self ..
    · have hnone : events publisher [msg] = [] := by
        rw [events_cons, if_neg fun he => hxa (hat he).symm]
        rfl
      rw [Function.update_of_ne hxa, hnone, List.append_nil]
  | taken i rest hw =>
    have hpub : published publisher [Action.deliver i x] = [] := rfl
    rw [hpub, List.append_nil]
    by_cases hxa : a = x
    · subst hxa
      have hnone : events publisher (w.chan i a) = [] := by
        by_contra hne
        exact (hf.away i a hne).1 rfl
      have hmsg : events publisher [msg] ++ events publisher rest = [] := by
        rw [← events_append, ← hnone, hw]
        rfl
      rw [Function.update_self, (List.append_eq_nil_iff.1 hmsg).1, List.append_nil]
    · exact Function.update_of_ne hxa ..

/-- **One action.** -/
theorem act (hf : Flow P w₀ publisher a up handled w) (hl : Live P w) (hc : Traffic P c)
    (hat : OnlyAt publisher a c) (ha : act P w c = some w') :
    ∃ up' handled', Flow P w₀ publisher a up' handled' w' ∧
      handled' a = handled a ++ published publisher [c] ∧
      ∀ id mask z way, P.IsClient id → Keeps id mask z c → Route P id mask a z up way w →
        Full w₀ publisher id mask a z up way handled w →
        Route P id mask a z up' way w' ∧ Full w₀ publisher id mask a z up' way handled' w' := by
  obtain ⟨x, msg, src, b, hx, ht, hcase⟩ | ⟨n, p, rfl, hn, hp, rfl⟩ := traffic_cases hl hc ha
  · obtain ⟨new, out, hrel⟩ := relays_of_cases publisher hl hx ht hcase
    refine ⟨up, _, hf.relay hx ht hat hrel, hf.published_turn ht hat,
      fun id mask z way hid hkeep hr hfull => ⟨?_, hfull.relay hf hr hid hl hx ht hat hrel⟩⟩
    obtain ⟨d, hd⟩ := hf.rooted
    obtain ⟨hm, harr, rfl⟩ | ⟨-, out, hfan, rfl⟩ := hcase
    · exact hr.turned hid hl hd hx ht hm harr hkeep
    · exact hr.posted hl hx ht hfan
  · refine ⟨_, handled, hf.joined hl hn hp, (List.append_nil _).symm,
      fun id mask z way _ _ hr hfull => ⟨hr.joined hn, hfull.joined hr hn⟩⟩

/-- **A run.** -/
theorem run (hf : Flow P w₀ publisher a up handled w) (hl : Live P w)
    (hc : ∀ c ∈ acts, Traffic P c) (hat : ∀ c ∈ acts, OnlyAt publisher a c)
    (hr : w.run P acts = some w') :
    ∃ up' handled', Live P w' ∧ Flow P w₀ publisher a up' handled' w' ∧
      handled' a = handled a ++ published publisher acts ∧
      ∀ id mask z way, P.IsClient id → (∀ c ∈ acts, Keeps id mask z c) →
        Route P id mask a z up way w → Full w₀ publisher id mask a z up way handled w →
        Route P id mask a z up' way w' ∧ Full w₀ publisher id mask a z up' way handled' w' := by
  induction acts generalizing w up handled with
  | nil =>
    obtain rfl : w = w' := Option.some.inj hr
    exact ⟨up, handled, hl, hf, (List.append_nil _).symm, fun _ _ _ _ _ _ hr hfull => ⟨hr, hfull⟩⟩
  | cons c acts ih =>
    unfold World.run at hr
    rw [List.foldlM_cons] at hr
    obtain ⟨v, hv, hr⟩ := Option.bind_eq_some_iff.1 hr
    have hc₁ := hc c List.mem_cons_self
    obtain ⟨up₁, handled₁, hf₁, hpub₁, hkeep₁⟩ :=
      hf.act hl hc₁ (hat c List.mem_cons_self) hv
    obtain ⟨up₂, handled₂, hl₂, hf₂, hpub₂, hkeep₂⟩ := ih hf₁ (hl.act hc₁ hv)
      (fun c' hc' => hc c' (List.mem_cons_of_mem c hc'))
      (fun c' hc' => hat c' (List.mem_cons_of_mem c hc')) hr
    refine ⟨up₂, handled₂, hl₂, hf₂, ?_, fun id mask z way hid hk hroute hfull => ?_⟩
    · rw [hpub₂, hpub₁, published_cons c acts, List.append_assoc]
    · obtain ⟨hroute₁, hfull₁⟩ :=
        hkeep₁ id mask z way hid (hk c List.mem_cons_self) hroute hfull
      exact hkeep₂ id mask z way hid (fun c' hc' => hk c' (List.mem_cons_of_mem c hc')) hroute₁ hfull₁

/-- Nobody has handled more than `a`. -/
theorem handled_sublist (hf : Flow P w₀ publisher a up handled w) (z : ι) :
    (handled z).Sublist (handled a) := by
  by_cases hz : z ∈ w.agents
  · obtain ⟨d, hd⟩ := hf.rooted
    refine hd.up_induction (P := fun z => (handled z).Sublist (handled a)) (List.Sublist.refl _)
      (fun y hy hya ih => ?_) z hz
    exact ((List.sublist_append_left _ _).trans (hf.link y hy hya)).trans ih
  · rw [hf.fresh z hz]
    exact List.nil_sublist _

omit [DecidableEq ι] in
/-- Before the publisher has published anything. -/
theorem start (ha : a ∈ w.agents) (hnone : NoneOf publisher w)
    {up : ι → ι} {d : ι → Nat} (hd : Tree.Rooted w.Adj (· ∈ w.agents) a up d) :
    Flow P w publisher a up (fun _ => []) w := by
  refine ⟨ha, ⟨d, hd⟩, fun i j hne => absurd (hnone i j) hne, fun _ _ => rfl, fun y hy hya => ?_,
    fun z => ⟨[], (List.append_nil _).symm, fun id _ => List.nil_sublist _⟩⟩
  rw [hnone]
  exact List.nil_sublist _

end Flow

/-- Where nothing was handled, nothing is in flight and nothing was sent. -/
theorem Flow.clean (hf : Flow P w₀ publisher a up handled w) (hl : Live P w) (hn : handled a = []) :
    NoneOf publisher w ∧ ∀ z, ∃ out, w.sent z = w₀.sent z ++ out ∧
      ∀ id, P.IsClient id → received publisher id out = [] := by
  have hall : ∀ z, handled z = [] := fun z => List.sublist_nil.1 (hn ▸ hf.handled_sublist z)
  refine ⟨fun i j => ?_, fun z => ?_⟩
  · by_contra hne
    obtain ⟨hja, rfl⟩ := hf.away i j hne
    have hj : j ∈ w.agents := by
      by_contra hj
      rw [hl.away (up j) j fun hadj => hj (hl.good.wired.edge _ _ hadj).2.1] at hne
      exact hne rfl
    have hlink := hf.link j hj hja
    rw [hall (up j)] at hlink
    exact hne (List.append_eq_nil_iff.1 (List.sublist_nil.1 hlink)).2
  · obtain ⟨out, hout, hsub⟩ := hf.sent z
    exact ⟨out, hout, fun id hid => List.sublist_nil.1 (hall z ▸ hsub id hid)⟩

/-- What is sent of a publisher is in the order in which it was published, from a world with none of its
events in flight. -/
theorem Live.in_order (hl : Live P w) (hne : ∃ r, r ∈ w.agents) (hnone : NoneOf publisher w)
    (hc : ∀ c ∈ acts, Traffic P c) (hat : ∀ c ∈ acts, OnlyAt publisher a c)
    (hr : w.run P acts = some w') (z : ι) :
    ∃ out, w'.sent z = w.sent z ++ out ∧
      ∀ id, P.IsClient id → (received publisher id out).Sublist (published publisher acts) := by
  induction acts generalizing w with
  | nil =>
    obtain rfl : w = w' := Option.some.inj hr
    exact ⟨[], (List.append_nil _).symm, fun _ _ => List.nil_sublist _⟩
  | cons c acts ih =>
    by_cases ha : a ∈ w.agents
    · obtain ⟨up, d, hd⟩ := hl.good.wired.tree a ha
      obtain ⟨up', handled, -, hf, hpub, -⟩ := (Flow.start ha hnone hd).run hl hc hat hr
      obtain ⟨out, hout, hsub⟩ := hf.sent z
      refine ⟨out, hout, fun id hid => (hsub id hid).trans ?_⟩
      rw [← List.nil_append (published publisher (c :: acts)), ← hpub]
      exact hf.handled_sublist z
    · -- the publisher has no agent yet
      unfold World.run at hr
      rw [List.foldlM_cons] at hr
      obtain ⟨v, hv, hr⟩ := Option.bind_eq_some_iff.1 hr
      have hc₁ := hc c List.mem_cons_self
      have hother : ∀ x msg, c = .client x msg → isEventOf publisher msg = false := by
        rintro x msg rfl
        by_contra he
        obtain rfl := hat _ List.mem_cons_self (Bool.not_eq_false _ ▸ he)
        have hv : w.client P x msg = some v := hv
        unfold World.client at hv
        rw [if_neg ha] at hv
        cases hv
      have hpub : published publisher [c] = [] := by
        cases c with
        | client x msg =>
          have hone : published publisher [.client x msg] = events publisher [msg] := rfl
          rw [hone, events_cons, hother x msg rfl]
          rfl
        | _ => rfl
      obtain ⟨r, hr₁⟩ := hne
      obtain ⟨up, d, hd⟩ := hl.good.wired.tree r hr₁
      have hatr : OnlyAt publisher r c := by
        cases c with
        | client x msg => exact fun he => absurd (hother x msg rfl ▸ he) Bool.false_ne_true
        | _ => trivial
      obtain ⟨up', handled, hf, hhandled, -⟩ := (Flow.start hr₁ hnone hd).act hl hc₁ hatr hv
      rw [hpub, List.append_nil] at hhandled
      obtain ⟨hnone', hsent⟩ := hf.clean (hl.act hc₁ hv) hhandled
      obtain ⟨out, hout, hrest⟩ := ih (hl.act hc₁ hv) ⟨r, hf.root⟩ hnone'
        (fun c' hc' => hc c' (List.mem_cons_of_mem c hc'))
        (fun c' hc' => hat c' (List.mem_cons_of_mem c hc')) hr
      obtain ⟨out₁, hout₁, hempty⟩ := hsent z
      refine ⟨out₁ ++ out, by rw [hout, hout₁, List.append_assoc], fun id hid => ?_⟩
      rw [received_append, hempty id hid, published_cons c acts, hpub]
      exact hrest id hid

/-- No agent leaves. -/
theorem agents_act (ha : act P w c = some w') : ∀ x ∈ w.agents, x ∈ w'.agents := by
  have handle : ∀ {v : World ι} {y : ι} {msg : Msg} {src : LocationId},
      v.handle P y msg src = some w' → v.agents = w.agents → ∀ x ∈ w.agents, x ∈ w'.agents := by
    intro v y msg src hh hv x hx
    obtain ⟨a, -, rfl⟩ := Option.map_eq_some_iff.1 hh
    show x ∈ v.agents
    exact hv.symm ▸ hx
  cases c with
  | client a msg =>
    have ha : w.client P a msg = some w' := ha
    unfold World.client at ha
    split at ha
    · exact handle ha rfl
    · cases ha
  | join n p =>
    have ha : w.join P n p = some w' := ha
    unfold World.join at ha
    split at ha
    · cases ha
      exact fun x hx => List.mem_cons_of_mem n hx
    · cases ha
  | deliver i j =>
    have ha : w.deliver P i j = some w' := ha
    unfold World.deliver at ha
    split at ha
    · cases ha
    · exact handle ha rfl

/-- A backplane has agents. -/
theorem Busy.exists_agent (hw : Busy P w) : ∃ r, r ∈ w.agents := by
  refine hw.invariant (I := fun w => ∃ r, r ∈ w.agents) (fun w ⟨r, hr⟩ => ?_)
    fun v v' ⟨r, hr⟩ ⟨c, hc, hact⟩ => ⟨r, agents_act hact r hr⟩
  exact ⟨r, hr ▸ List.mem_singleton_self r⟩

/-- **A client gets the events of a publisher in the order in which they were published**, each at most
once. -/
theorem events_in_order (hw : Busy P w) (hnone : NoneOf publisher w)
    (hc : ∀ c ∈ acts, Traffic P c) (hat : ∀ c ∈ acts, OnlyAt publisher a c)
    (hr : w.run P acts = some w') (hid : P.IsClient id) (z : ι) :
    ∃ out, w'.sent z = w.sent z ++ out ∧
      (received publisher id out).Sublist (published publisher acts) := by
  obtain ⟨out, hout, hsub⟩ := hw.live.in_order hw.exists_agent hnone hc hat hr z
  exact ⟨out, hout, hsub id hid⟩

end

/-! ## Two agents -/

/-- The client 4 publishes at the first agent, and before the event arrives, the client 5 subscribes and
the client 4 publishes again. -/
def publishing : List (Action Bool) :=
  [.client false (fromClient 4 .notify), .client true (fromClient 5 .clientReg),
    .client true (fromClient 5 .regSubscription), .client false (fromClient 4 .notify),
    .deliver false true, .deliver false true]

theorem publishing_traffic : (∀ c ∈ subscribed, Traffic twoAgents c) ∧
    ∀ c ∈ publishing, Traffic twoAgents c ∧ OnlyAt (clientOf 4) false c ∧
      Keeps (clientOf 3) default true c := by
  have client : ∀ pid ∈ [3, 4, 5], twoAgents.IsClient (clientOf pid) := by
    unfold Places.IsClient
    decide
  refine ⟨fun c hc => ?_, fun c hc => ?_⟩
  · simp only [subscribed, List.mem_cons, List.not_mem_nil, or_false] at hc
    obtain rfl | rfl | rfl | rfl | rfl := hc
    · trivial
    · trivial
    · exact ⟨client 3 (by decide), by decide⟩
    · exact ⟨client 3 (by decide), by decide⟩
    · trivial
  · simp only [publishing, List.mem_cons, List.not_mem_nil, or_false] at hc
    obtain rfl | rfl | rfl | rfl | rfl | rfl := hc
    · exact ⟨⟨client 4 (by decide), by decide⟩, fun _ => rfl, fun h => absurd h (by decide)⟩
    · exact ⟨⟨client 5 (by decide), by decide⟩, fun h => absurd h (by decide),
        fun _ h => absurd h (by decide)⟩
    · exact ⟨⟨client 5 (by decide), by decide⟩, fun h => absurd h (by decide),
        fun _ h => absurd h (by decide)⟩
    · exact ⟨⟨client 4 (by decide), by decide⟩, fun _ => rfl, fun h => absurd h (by decide)⟩
    · exact ⟨trivial, trivial, trivial⟩
    · exact ⟨trivial, trivial, trivial⟩

/-- The run before and the run with the events. -/
theorem publishing_run : ∃ w w', (start twoAgents false).run twoAgents subscribed = some w ∧
    w.run twoAgents publishing = some w' ∧ w.agents = [true, false] ∧
    (∀ i j, w.chan i j = []) ∧ (w.nodes true).info.listed (clientOf 3) default = true ∧
    (∀ i j, events (clientOf 4) (w'.chan i j) = []) := by
  have hrun : ((start twoAgents false).run twoAgents subscribed).any (fun w =>
      (w.run twoAgents publishing).any fun w' =>
        decide (w.agents = [true, false] ∧ (∀ i j, w.chan i j = []) ∧
          (w.nodes true).info.listed (clientOf 3) default = true ∧
          ∀ i j, events (clientOf 4) (w'.chan i j) = [])) = true := by
    decide +kernel
  obtain ⟨w, hw, hp⟩ := (Option.any_eq_true ..).1 hrun
  obtain ⟨w', hw', hp⟩ := (Option.any_eq_true ..).1 hp
  exact ⟨w, w', hw, hw', of_decide_eq_true hp⟩

/-- What the client 5 gets, while it subscribes. -/
theorem events_in_order_two : ∃ w w', (start twoAgents false).run twoAgents subscribed = some w ∧
    w.run twoAgents publishing = some w' ∧ ∃ out, w'.sent true = w.sent true ++ out ∧
      (received (clientOf 4) (clientOf 5) out).Sublist (published (clientOf 4) publishing) := by
  obtain ⟨w, w', hw, hw', -, hd, -, -⟩ := publishing_run
  obtain ⟨hbefore, hacts⟩ := publishing_traffic
  refine ⟨w, w', hw, hw', events_in_order (Busy.run (.init ⟨false, rfl⟩) hbefore hw) (fun i j => ?_)
    (fun c hc => (hacts c hc).1) (fun c hc => (hacts c hc).2.1) hw' ⟨by decide, by decide⟩ true⟩
  rw [hd]
  rfl

end Backplane
