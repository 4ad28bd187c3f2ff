import Ftb.Backplane.Proof.Inv

/-!
# What the backplane reaches

Every action of a run keeps the invariant: an agent that starts is one more leaf of the tree
(`Wired.joined`), and every other action is a turn on a message that arrives (`act_cases`).
-/

open FTB FTBU FTBN FTBMI Trace

namespace Backplane

variable {ι : Type} {P : Places ι}

/-! ## Agents that start -/

/-- An agent that finds its parent. -/
theorem boot_connecting {p : LocationId} (hp : p.pid ≠ 0) (l : LocationId) :
    boot (connecting p) l =
      ⟨{ registerInfo { FTBM.blankInfo false l with parent := p } (agentId p) with
          initialized := true },
        [{ msgType := .clientReg, src := agentId l, dst := default, event := default }],
        [.attach (agentId p)]⟩ := by
  have hb : (p.pid != 0) = true := bne_iff_ne.2 hp
  have h := FTBM.init_eq (Agent.logged (connecting p)) false l ([], [])
  have hr : FTBM.initResult (Agent.logged (connecting p)) false l ([], []) =
      (.success, p, [{ msgType := .clientReg, src := agentId l, dst := default, event := default }],
        [.attach (agentId p)]) := by
    unfold FTBM.initResult Agent.logged connecting
    simp only [hb, if_true]
    rfl
  rw [hr] at h
  refine h.trans ?_
  unfold attachInfo
  simp only [FTBM.blankInfo, Bool.false_and, Bool.false_eq_true, if_false, Bool.not_false,
    Bool.true_and, hb, if_true]

theorem isPeer_boot {p : LocationId} (hp : p.pid ≠ 0) (l : LocationId) (k : Id) :
    (boot (connecting p) l).info.isPeer k = isEqualFtbId (agentId p) k := by
  rw [boot_connecting hp]
  exact (isPeer_registerInfo { FTBM.blankInfo false l with parent := p } (agentId p) k).trans
    (Bool.false_or _)

theorem listed_boot {p : LocationId} (hp : p.pid ≠ 0) (l : LocationId) (k : Id) (mask : Event) :
    (boot (connecting p) l).info.listed k mask = false := by
  rw [boot_connecting hp]
  rfl

/-! ## The first agent -/

theorem not_adj_start (r i j : ι) : ¬(start P r).Adj i j := by
  unfold World.Adj start
  simp

theorem wired_start (r : ι) : Wired P (start P r) := by
  refine ⟨?_, fun i j h => absurd h (not_adj_start r i j), fun i _ => ?_, fun c p h => ?_,
    fun _ _ _ => rfl⟩
  · exact Tree.rootable_singleton (fun x => List.mem_singleton) (not_adj_start r)
  · refine ⟨Agent.sim_init outbox (P.loc i) [], rfl, rfl, fun k hk => ?_⟩
    cases hk
  · cases h

theorem complete_start (r : ι) : Complete P (start P r) :=
  fun i j h => absurd h (not_adj_start r i j)

theorem sound_start (r : ι) : Sound P (start P r) :=
  fun i j h => absurd h (not_adj_start r i j)

/-! ## An agent joins -/

section
variable {w : World ι} {n p : ι} {lost : ι → ι → Prop}

/-- A new agent has no links yet. -/
theorem not_adj_new (h : WiredBut P lost w) (hn : n ∉ w.agents) (i : ι) : ¬w.Adj n i ∧ ¬w.Adj i n :=
  ⟨fun ha => hn (h.edge n i ha).1, fun ha => hn (h.edge i n ha).2.1⟩

theorem not_lost_new (h : WiredBut P lost w) (hn : n ∉ w.agents) (i : ι) :
    ¬lost n i ∧ ¬lost i n :=
  ⟨fun hl => hn (h.gone n i hl).1, fun hl => hn (h.gone i n hl).2.1⟩

/-- The parent does not know the new agent. -/
theorem isPeer_new (h : WiredBut P lost w) (hn : n ∉ w.agents) (hp : p ∈ w.agents) :
    (w.nodes p).info.isPeer (P.agent n) = false := by
  rw [Bool.eq_false_iff]
  intro hpeer
  obtain hadj | hl := (h.node p hp).adj_of_isPeer hpeer
  · exact hn (h.edge p n hadj).2.1
  · exact hn (h.gone p n hl).2.1

variable [DecidableEq ι]

theorem nodes_joined : (w.joined P n p).nodes n =
    ⟨(boot (connecting (P.loc p)) (P.loc n)).info, [],
      (boot (connecting (P.loc p)) (P.loc n)).net.2⟩ :=
  Function.update_self ..

theorem nodes_joined_of_ne {i : ι} (h : i ≠ n) : (w.joined P n p).nodes i = w.nodes i :=
  Function.update_of_ne h ..

omit [DecidableEq ι] in
/-- One more link, of an agent that had no parent. -/
theorem adj_of_parent {w' : World ι} (hnone : w.parent n = none) (hn : w'.parent n = some p)
    (hother : ∀ i, i ≠ n → w'.parent i = w.parent i) (i j : ι) :
    w'.Adj i j ↔ w.Adj i j ∨ (i = n ∧ j = p) ∨ (i = p ∧ j = n) := by
  have hpar : ∀ k l, w'.parent k = some l ↔ (k = n ∧ l = p) ∨ w.parent k = some l := by
    intro k l
    by_cases hk : k = n
    · subst hk
      rw [hn, hnone, Option.some.injEq]
      refine ⟨fun he => .inl ⟨rfl, he.symm⟩, ?_⟩
      rintro (⟨-, rfl⟩ | hl)
      · rfl
      · cases hl
    · rw [hother k hk]
      exact ⟨.inr, fun hl => hl.resolve_left fun hc => hk hc.1⟩
  unfold World.Adj
  rw [hpar, hpar]
  tauto

theorem adj_joined (h : WiredBut P lost w) (hn : n ∉ w.agents) (i j : ι) :
    (w.joined P n p).Adj i j ↔ w.Adj i j ∨ (i = n ∧ j = p) ∨ (i = p ∧ j = n) := by
  refine adj_of_parent ?_ (Function.update_self ..) (fun i hi => Function.update_of_ne hi ..) i j
  exact Option.eq_none_iff_forall_not_mem.2 fun k hk => (not_adj_new h hn k).1 (.inl hk)

theorem chan_joined_of_ne {i j : ι} (h : ¬(i = n ∧ j = p)) :
    (w.joined P n p).chan i j = w.chan i j :=
  if_neg h

/-- The registration is all that is on the way. -/
theorem chan_joined (h : WiredBut P lost w) (hn : n ∉ w.agents) : (w.joined P n p).chan n p =
    [{ msgType := .clientReg, src := P.agent n, dst := default, event := default }] := by
  have hc : (w.joined P n p).chan n p =
      w.chan n p ++ (boot (connecting (P.loc p)) (P.loc n)).net.1 := if_pos ⟨rfl, rfl⟩
  rw [hc, h.away n p (not_adj_new h hn p).1 (not_lost_new h hn p).1, boot_connecting (P.pid p)]
  rfl

theorem view_joined_of_ne {i j : ι} (hi : i ≠ n) (hj : j ≠ n) (mask : Event) :
    (w.joined P n p).view P i j mask ↔ w.view P i j mask := by
  unfold World.view
  rw [nodes_joined_of_ne hj, chan_joined_of_ne fun hc => hi hc.1]

theorem NodeBut.joined (h : WiredBut P lost w) (hn : n ∉ w.agents) {i : ι}
    (hi : i ∈ (w.joined P n p).agents) : NodeBut P lost (w.joined P n p) i := by
  have hadj := adj_joined (p := p) h hn
  by_cases hin : i = n
  · subst hin
    refine ⟨?_, ?_, ?_, fun k hk => ?_⟩
    · rw [nodes_joined]
      exact Agent.sim_init (connecting (P.loc p)) (P.loc i) []
    · rw [nodes_joined]
    · rw [nodes_joined, boot_connecting (P.pid p)]
      rfl
    · rw [nodes_joined, isPeer_boot (P.pid p), KeyEq.comm isEqualFtbId] at hk
      exact .inr ⟨p, .inl ((hadj i p).2 (.inr (.inl ⟨rfl, rfl⟩))), hk⟩
  · exact (h.node i ((List.mem_cons.1 hi).resolve_left hin)).same (nodes_joined_of_ne hin)
      fun j hj => hj.imp_left fun hj => (hadj i j).2 (.inl hj)

/-- The new link. -/
theorem greeting_joined (h : WiredBut P lost w) (hn : n ∉ w.agents) (hp : p ∈ w.agents) :
    Greeting P (w.joined P n p) n p := by
  have hnp : n ≠ p := fun he => hn (he ▸ hp)
  refine ⟨?_, ?_, ⟨_, [], chan_joined h hn, rfl, rfl, fun m hm => absurd hm List.not_mem_nil⟩,
    ?_, fun mask => ?_⟩
  · rw [nodes_joined, isPeer_boot (P.pid p)]
    exact agent_self p
  · rw [nodes_joined_of_ne hnp.symm]
    exact isPeer_new h hn hp
  · rw [chan_joined_of_ne fun he => hnp he.1.symm]
    exact h.away p n (not_adj_new h hn p).2 (not_lost_new h hn p).2
  · rw [nodes_joined]
    exact listed_boot (P.pid p) (P.loc n) _ mask

/-- The links that were there. -/
theorem Link.joined {c q : ι} (hl : Link P w c q) (hc : c ≠ n) (hq : q ≠ n) :
    Link P (w.joined P n p) c q :=
  hl.congr (nodes_joined_of_ne hc) (nodes_joined_of_ne hq) (chan_joined_of_ne fun he => hc he.1)
    (chan_joined_of_ne fun he => hq he.1)

/-- **An agent that joins is a new leaf.** -/
theorem WiredBut.joined (h : WiredBut P lost w) (hn : n ∉ w.agents) (hp : p ∈ w.agents) :
    WiredBut P lost (w.joined P n p) := by
  have hnp : n ≠ p := fun he => hn (he ▸ hp)
  have hadj := adj_joined (p := p) h hn
  refine ⟨?_, fun i hi => NodeBut.joined h hn hi, ?_, ?_, ?_⟩
  · intro i j hij
    obtain hij | ⟨rfl, rfl⟩ | ⟨rfl, rfl⟩ := (hadj i j).1 hij
    · obtain ⟨hi, hj, hne⟩ := h.edge i j hij
      exact ⟨List.mem_cons_of_mem n hi, List.mem_cons_of_mem n hj, hne⟩
    · exact ⟨List.mem_cons_self, List.mem_cons_of_mem i hp, hnp⟩
    · exact ⟨List.mem_cons_of_mem j hp, List.mem_cons_self, hnp.symm⟩
  · intro c q hcq
    by_cases hc : c = n
    · subst hc
      have hpar : (w.joined P c p).parent c = some p := Function.update_self ..
      obtain rfl : p = q := Option.some.inj (hpar.symm.trans hcq)
      exact .inr (greeting_joined h hn hp)
    · have hpar : (w.joined P n p).parent c = w.parent c := Function.update_of_ne hc ..
      rw [hpar] at hcq
      have hq : q ≠ n := fun he => (not_adj_new h hn c).2 (he ▸ .inl hcq)
      exact (h.link c q hcq).joined hc hq
  · intro i j hij hl
    rw [hadj, not_or, not_or] at hij
    rw [chan_joined_of_ne hij.2.1]
    exact h.away i j hij.1 hl
  · intro i j hl
    obtain ⟨hi, hj, hij⟩ := h.gone i j hl
    refine ⟨List.mem_cons_of_mem n hi, List.mem_cons_of_mem n hj, fun hij' => ?_⟩
    obtain hij' | ⟨rfl, -⟩ | ⟨-, rfl⟩ := (hadj i j).1 hij'
    · exact hij hij'
    · exact hn hi
    · exact hn hj

theorem Wired.joined (h : Wired P w) (hn : n ∉ w.agents) (hp : p ∈ w.agents) :
    Wired P (w.joined P n p) := by
  refine (h.but.joined hn hp).wired (fun _ _ => id) ?_
  exact h.tree.grow (fun _ _ => World.Adj.symm)
    (fun i j hij => ⟨(h.edge i j hij).1, (h.edge i j hij).2.1⟩) hn hp (fun x => List.mem_cons)
    (adj_joined h.but hn)

/-- Nothing is listed on the new link, and nobody has told of anything. -/
theorem Complete.joined (hc : Complete P w) (h : WiredBut P lost w) (hn : n ∉ w.agents)
    (hp : p ∈ w.agents) : Complete P (w.joined P n p) := by
  intro i j hij hpeer mask ho
  have hpn : p ≠ n := fun he => hn (he ▸ hp)
  obtain hij | ⟨rfl, rfl⟩ | ⟨rfl, rfl⟩ := (adj_joined h hn i j).1 hij
  · obtain ⟨hi, hj, -⟩ := h.edge i j hij
    have hin : i ≠ n := fun he => hn (he ▸ hi)
    rw [nodes_joined_of_ne hin] at hpeer ho
    exact (view_joined_of_ne hin (fun he => hn (he ▸ hj)) mask).2 (hc i j hij hpeer mask ho)
  · obtain ⟨k, -, hk⟩ := ho
    rw [nodes_joined, listed_boot (P.pid j)] at hk
    cases hk
  · rw [nodes_joined_of_ne hpn, isPeer_new h hn hp] at hpeer
    cases hpeer

theorem Sound.joined (hs : Sound P w) (h : WiredBut P lost w) (hn : n ∉ w.agents)
    (hp : p ∈ w.agents) : Sound P (w.joined P n p) := by
  intro i j hij hpeer mask hv
  have hpn : p ≠ n := fun he => hn (he ▸ hp)
  obtain hij | ⟨rfl, rfl⟩ | ⟨rfl, rfl⟩ := (adj_joined h hn i j).1 hij
  · obtain ⟨hi, hj, -⟩ := h.edge i j hij
    have hin : i ≠ n := fun he => hn (he ▸ hi)
    rw [nodes_joined_of_ne hin] at hpeer ⊢
    exact hs i j hij hpeer mask ((view_joined_of_ne hin (fun he => hn (he ▸ hj)) mask).1 hv)
  · -- the parent lists nobody that it does not know
    unfold World.view at hv
    rw [chan_joined h hn, nodes_joined_of_ne hpn] at hv
    have hl := (h.node j hp).sim.inv.listed_of_not_isPeer (isPeer_new h hn hp) mask
    have hv : (w.nodes j).info.listed (P.agent i) mask = true := hv
    rw [hl] at hv
    cases hv
  · rw [nodes_joined_of_ne hpn, isPeer_new h hn hp] at hpeer
    cases hpeer

end

/-! ## Every action -/

/-- The invariant of every run. -/
structure Good (P : Places ι) (w : World ι) : Prop where
  wired : Wired P w
  complete : Complete P w

theorem good_start (r : ι) : Good P (start P r) := ⟨wired_start r, complete_start r⟩

section
variable [DecidableEq ι] {w w' b : World ι} {x : ι} {msg : Msg} {lost : ι → ι → Prop}

omit [DecidableEq ι] in
/-- A channel with a message leads to a neighbour, if lost links carry nothing. -/
theorem adj_of_chan (h : WiredBut P lost w) (hs : ∀ i j, lost i j → w.chan i j = []) {i : ι}
    {rest : List Msg} (hw : w.chan i x = msg :: rest) : w.Adj i x := by
  by_contra hn
  have he : w.chan i x = [] := by
    by_cases hl : lost i x
    · exact hs i x hl
    · exact h.away i x hn hl
  rw [he] at hw
  cases hw

/-- Whatever is first in a channel arrives. -/
theorem arrives_of_chan (h : WiredBut P lost w) {i : ι} {rest : List Msg} (hadj : w.Adj i x)
    (hw : w.chan i x = msg :: rest) : Arrives P w x msg (w.drain i x rest) := by
  have plain : Plain P i (w.chan i x) → (w.nodes x).info.isPeer (P.agent i) = true →
      Arrives P w x msg (w.drain i x rest) := by
    intro hp hpeer
    obtain ⟨hs, ht⟩ := hp msg (hw ▸ List.mem_cons_self)
    exact .agent i rest hadj hw hs (.inl ⟨ht, hpeer⟩)
  obtain hpar | hpar := hadj
  · obtain hk | hg := h.link i x hpar
    · exact plain hk.plainUp hk.down
    · obtain ⟨m, r, hm, hs, ht, -⟩ := hg.first
      obtain rfl := (List.cons.inj (hw.symm.trans hm)).1
      exact .agent i rest (.inl hpar) hw hs (.inr ⟨ht, hg⟩)
  · obtain hk | hg := h.link x i hpar
    · exact plain hk.plainDown hk.up
    · rw [hg.silent] at hw
      cases hw

/-- Every message that arrives is handled. -/
theorem handle_eq (h : WiredBut P lost w) (hx : x ∈ w.agents) (ha : Arrives P w x msg b)
    (incomingSrc : LocationId) :
    b.handle P x msg incomingSrc = some (b.turned P x msg incomingSrc) := by
  have hn := h.node x hx
  obtain ⟨h1, h2, h3⟩ := ha.control
  have hnode : b.nodes x = ⟨(w.nodes x).info, [], (w.nodes x).net.2⟩ := by
    rw [ha.nodes, ← hn.idle]
  unfold World.handle World.turned
  rw [hnode, turn_react hn.sim h1 h2 (fun hd => (h3 hd).2) incomingSrc]
  rfl

/-- **An action is a turn on a message that arrives, or an agent that joins.** -/
theorem act_cases (h : WiredBut P lost w) (hs : ∀ i j, lost i j → w.chan i j = []) {c : Action ι} (hc : Control P c) (ha : act P w c = some w') :
    (∃ x msg b incomingSrc, x ∈ w.agents ∧ Arrives P w x msg b ∧
      w' = b.turned P x msg incomingSrc ∧
      (c = .client x msg ∨ ∃ i rest, c = .deliver i x ∧ w.chan i x = msg :: rest)) ∨
    ∃ n p, n ∉ w.agents ∧ p ∈ w.agents ∧ w' = w.joined P n p := by
  cases c with
  | client x msg =>
    have ha : w.client P x msg = some w' := ha
    unfold World.client at ha
    split at ha
    · rename_i hx
      have harr : Arrives P w x msg w := .client hc.1 hc.2.1 hc.2.2
      rw [handle_eq h hx harr] at ha
      exact .inl ⟨x, msg, w, _, hx, harr, (Option.some.inj ha).symm, .inl rfl⟩
    · cases ha
  | join n p =>
    have ha : w.join P n p = some w' := ha
    unfold World.join at ha
    split at ha
    · rename_i hj
      exact .inr ⟨n, p, hj.1, hj.2, (Option.some.inj ha).symm⟩
    · cases ha
  | deliver i x =>
    have ha : w.deliver P i x = some w' := ha
    unfold World.deliver at ha
    split at ha
    · cases ha
    · rename_i msg rest hw
      have hadj := adj_of_chan h hs hw
      have harr := arrives_of_chan h hadj hw
      have hx := (h.edge i x hadj).2.1
      rw [handle_eq h hx harr] at ha
      exact .inl ⟨x, msg, _, _, hx, harr, (Option.some.inj ha).symm, .inr ⟨i, rest, rfl, hw⟩⟩

theorem Good.act (h : Good P w) {c : Action ι} (hc : Control P c) (ha : act P w c = some w') :
    Good P w' := by
  obtain ⟨x, msg, b, src, hx, harr, rfl, -⟩ | ⟨n, p, hn, hp, rfl⟩ :=
    act_cases h.wired.but (fun _ _ hl => hl.elim) hc ha
  · exact ⟨h.wired.turned hx harr, h.complete.turned h.wired.but hx harr⟩
  · exact ⟨h.wired.joined hn hp, h.complete.joined h.wired.but hn hp⟩

theorem Reached.good (h : Reached P w) : Good P w :=
  h.invariant (fun _ ⟨r, hr⟩ => hr ▸ good_start r) fun _ _ hg ⟨_, hc, ha⟩ => hg.act hc ha

theorem Reached.run (hw : Reached P w) {acts : List (Action ι)} (hc : ∀ c ∈ acts, Control P c)
    (hr : w.run P acts = some w') : Reached P w' := by
  induction acts generalizing w with
  | nil => exact Option.some.inj hr ▸ hw
  | cons c acts ih =>
    unfold World.run at hr
    rw [List.foldlM_cons] at hr
    obtain ⟨v, hv, hr⟩ := Option.bind_eq_some_iff.1 hr
    exact ih (hw.step ⟨c, hc c List.mem_cons_self, hv⟩)
      (fun c' hc' => hc c' (List.mem_cons_of_mem c hc')) hr

end

end Backplane
