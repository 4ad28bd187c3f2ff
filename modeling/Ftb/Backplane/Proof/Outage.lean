import Ftb.Backplane.Outage
import Ftb.Backplane.Proof.Reach

/-!
# What a lost link leaves, and what mends it

While an end of the lost link has not been told, it has the other end in `peers` and lists it, and
tells its neighbours of it: it is one more component, which says nothing. So a loss keeps `WiredBut` and
`Complete` (`Wired.severed`), and so does the cleanup, which takes the component out like any other
(`WiredBut.swept`). The agent that is attached again is a registration on its way, followed by all its
masks: a `Greeting` of which `Complete` holds already (`WiredBut.rejoined`).
-/

open FTB FTBU FTBN FTBMI Trace

namespace Backplane

variable {ι : Type} {P : Places ι}

/-! ## The turns -/

/-- An agent is told of a connection that was not to its parent. -/
theorem turn_cleanup {s : NodeInfo} {hist : List Agent.Incident} (h : Agent.Sim s hist)
    {l : LocationId} (hl : isEqualLocationId s.parent l = false) :
    Agent.turn outbox ⟨s, [], hist⟩ (FTBM.Queue.cleanupMsg, l) =
      some ⟨cleanupInfo s l, sweepMsgs l s.peers.nodes s, hist ++ [.cleanup l]⟩ := by
  have hc := FTBM.cleanupConnection_eq (Agent.logged outbox) l
    (a := ⟨s, [], hist ++ [.cleanup l]⟩) h.initialized
  simp only [parent_cleanupInfo, hl, sendAll_logged, Bool.false_eq_true, if_false] at hc
  unfold Agent.turn Agent.progressLoop Agent.incidents FTBM.Queue.cleanupMsg
  simp only [hc]
  rfl

/-- The registration of an agent that is attached again. -/
def rejoinMsg (self : Id) (parent : LocationId) : Msg :=
  { msgType := .clientReg, src := self, dst := agentId parent, event := default }

/-- An agent is told that its parent is gone, and finds another one. -/
theorem turn_rejoin {s : NodeInfo} {hist : List Agent.Incident} (h : Agent.Sim s hist)
    {l p : LocationId} (hl : isEqualLocationId s.parent l = true) (hp : p.pid ≠ 0) :
    Agent.turn (rejoining p) ⟨s, [], hist⟩ (FTBM.Queue.cleanupMsg, l) =
      some ⟨registerInfo { cleanupInfo s l with parent := p } (agentId p),
        sweepMsgs l s.peers.nodes s ++
          rejoinMsg s.self p :: registerMsgs (cleanupInfo s l) (agentId p),
        hist ++ [.cleanup l] ++ [.attach (agentId p)]⟩ := by
  have hb : (p.pid != 0) = true := bne_iff_ne.2 hp
  have hleaf : (cleanupInfo s l).leaf = false := (frame_cleanupInfo s l).leaf.trans h.leaf
  have hself : (cleanupInfo s l).self = s.self := (frame_cleanupInfo s l).self
  have hsend : ∀ msgs net, (Agent.logged (rejoining p)).sendAll msgs net =
      (Agent.logged outbox).sendAll msgs net := fun _ _ => rfl
  have hc := FTBM.cleanupConnection_eq (Agent.logged (rejoining p)) l
    (a := ⟨s, [], hist ++ [.cleanup l]⟩) h.initialized
  simp only [parent_cleanupInfo, hl, hsend, sendAll_logged, if_true, utilReconnect_eq] at hc
  have hr : reconnectResult (Agent.logged (rejoining p)) ⟨cleanupInfo s l,
      [] ++ sweepMsgs l s.peers.nodes s, hist ++ [.cleanup l]⟩ =
      (.success, p, sweepMsgs l s.peers.nodes s ++ [rejoinMsg s.self p],
        hist ++ [.cleanup l] ++ [.attach (agentId p)]) := by
    unfold reconnectResult Agent.logged rejoining rejoinMsg
    simp only [hb, hself, if_true, List.nil_append]
  obtain ⟨hinfo, hmsgs⟩ := attach_found hleaf hp
  simp only [hr, sendAll_logged, hinfo, hmsgs] at hc
  unfold Agent.turn Agent.progressLoop Agent.incidents FTBM.Queue.cleanupMsg
  simp only [hc, List.append_assoc, List.singleton_append]

/-! ## A link that carries nothing -/

section
variable [DecidableEq ι] {w : World ι} {lost : ι → ι → Prop} {i j k l : ι}

theorem chan_cut : (w.cut i j).chan k l =
    if (k = i ∧ l = j) ∨ (k = j ∧ l = i) then [] else w.chan k l := by
  unfold World.cut World.drain
  dsimp only
  by_cases h1 : k = j ∧ l = i
  · rw [if_pos h1, if_pos (.inr h1)]
  · by_cases h2 : k = i ∧ l = j
    · rw [if_neg h1, if_pos h2, if_pos (.inl h2)]
    · rw [if_neg h1, if_neg h2, if_neg (not_or.2 ⟨h2, h1⟩)]

theorem chan_cut_self : (w.cut i j).chan i j = [] ∧ (w.cut i j).chan j i = [] :=
  ⟨chan_cut.trans (if_pos (.inl ⟨rfl, rfl⟩)), chan_cut.trans (if_pos (.inr ⟨rfl, rfl⟩))⟩

/-- Between neighbours nothing is lost, if the two that lost their link are none. -/
theorem chan_cut_of_adj (hij : ¬w.Adj i j) (hkl : w.Adj k l) : (w.cut i j).chan k l = w.chan k l := by
  refine chan_cut.trans (if_neg ?_)
  rintro (⟨rfl, rfl⟩ | ⟨rfl, rfl⟩)
  · exact hij hkl
  · exact hij hkl.symm

theorem cut_comm : w.cut i j = w.cut j i := by
  have hc : (w.cut i j).chan = (w.cut j i).chan := by
    funext k l
    rw [chan_cut, chan_cut]
    exact if_congr or_comm rfl rfl
  unfold World.cut World.drain at hc ⊢
  rw [World.mk.injEq]
  exact ⟨rfl, rfl, rfl, hc, rfl⟩

theorem view_cut (hij : ¬w.Adj i j) (hkl : w.Adj k l) (mask : Event) :
    (w.cut i j).view P k l mask ↔ w.view P k l mask := by
  unfold World.view
  rw [chan_cut_of_adj hij hkl]
  exact Iff.rfl

theorem WiredBut.cut (h : WiredBut P lost w) (hij : ¬w.Adj i j) : WiredBut P lost (w.cut i j) := by
  refine ⟨h.edge, fun k hk => (h.node k hk).same rfl fun _ => id, fun c p hcp => ?_,
    fun k l hkl hl => ?_, h.gone⟩
  · exact (h.link c p hcp).congr rfl rfl (chan_cut_of_adj hij (.inl hcp))
      (chan_cut_of_adj hij (.inr hcp))
  · rw [chan_cut, h.away k l hkl hl, ite_self]

theorem Complete.cut (hc : Complete P w) (hij : ¬w.Adj i j) : Complete P (w.cut i j) :=
  fun k l hkl hp mask ho => (view_cut hij hkl mask).2 (hc k l hkl hp mask ho)

end

/-! ## The loss -/

section
variable [DecidableEq ι] {w : World ι} {a b : ι}

/-- The world after the loss of the link between `b` and its parent `a`. -/
def World.severed (w : World ι) (b a : ι) : World ι := (w.cut b a).hang b none

/-- Both ends of the link. -/
def Ends (a b i j : ι) : Prop := (i = a ∧ j = b) ∨ (i = b ∧ j = a)

theorem parent_severed {i j : ι} :
    (w.severed b a).parent i = some j ↔ i ≠ b ∧ w.parent i = some j := by
  by_cases hi : i = b
  · subst hi
    have hs : (w.severed i a).parent i = none := Function.update_self ..
    rw [hs]
    exact ⟨nofun, fun h => absurd rfl h.1⟩
  · have hs : (w.severed b a).parent i = w.parent i := Function.update_of_ne hi ..
    rw [hs]
    exact ⟨fun h => ⟨hi, h⟩, And.right⟩

theorem adj_severed (hb : w.parent b = some a) (ha : w.parent a ≠ some b) {i j : ι} :
    (w.severed b a).Adj i j ↔ w.Adj i j ∧ ¬Ends a b i j := by
  have one : ∀ i j, w.parent i = some j → (i ≠ b ↔ ¬Ends a b i j) := by
    intro i j hij
    refine not_congr ⟨fun hi => ?_, ?_⟩
    · subst hi
      exact .inr ⟨rfl, Option.some.inj (hij.symm.trans hb)⟩
    · rintro (⟨rfl, rfl⟩ | ⟨rfl, -⟩)
      · exact absurd hij ha
      · rfl
  have hsymm : ∀ i j, Ends a b j i ↔ Ends a b i j := fun i j => by
    unfold Ends
    tauto
  unfold World.Adj
  rw [parent_severed, parent_severed]
  constructor
  · rintro (⟨hi, hij⟩ | ⟨hj, hji⟩)
    · exact ⟨.inl hij, (one i j hij).1 hi⟩
    · exact ⟨.inr hji, mt (hsymm i j).2 ((one j i hji).1 hj)⟩
  · rintro ⟨hij | hji, hn⟩
    · exact .inl ⟨(one i j hij).2 hn, hij⟩
    · exact .inr ⟨(one j i hji).2 (mt (hsymm i j).1 hn), hji⟩

theorem not_adj_severed (hb : w.parent b = some a) (ha : w.parent a ≠ some b) :
    ¬(w.severed b a).Adj b a := fun h => ((adj_severed hb ha).1 h).2 (.inr ⟨rfl, rfl⟩)

/-- Elsewhere nothing is lost. -/
theorem chan_severed {i j : ι} (hn : ¬Ends a b i j) : (w.severed b a).chan i j = w.chan i j := by
  refine chan_cut.trans (if_neg ?_)
  rintro (⟨rfl, rfl⟩ | ⟨rfl, rfl⟩)
  · exact hn (.inr ⟨rfl, rfl⟩)
  · exact hn (.inl ⟨rfl, rfl⟩)

/-- **Both ends keep the other one until they are told.** -/
theorem Wired.severed (h : Wired P w) (hb : w.parent b = some a) (ha : w.parent a ≠ some b) :
    WiredBut P (Ends a b) (w.severed b a) := by
  have hadj : ∀ {i j}, (w.severed b a).Adj i j ↔ w.Adj i j ∧ ¬Ends a b i j := adj_severed hb ha
  obtain ⟨hbm, ham, -⟩ := h.edge b a (.inl hb)
  refine ⟨fun i j hij => h.edge i j (hadj.1 hij).1, fun i hi => ?_, fun c p hcp => ?_,
    fun i j hij hl => ?_, fun i j hl => ?_⟩
  · refine (h.node i hi).but.same rfl fun j hij => ?_
    rw [hadj]
    by_cases hl : Ends a b i j
    · exact .inr hl
    · exact .inl ⟨hij.resolve_right id, hl⟩
  · have hn : ¬Ends a b c p := (hadj.1 (.inl hcp)).2
    have hn' : ¬Ends a b p c := (hadj.1 (.inr hcp)).2
    exact (h.link c p (parent_severed.1 hcp).2).congr rfl rfl (chan_severed hn) (chan_severed hn')
  · rw [chan_severed hl]
    exact h.away i j fun hij' => hij (hadj.2 ⟨hij', hl⟩)
  · refine ⟨?_, ?_, fun hij => (hadj.1 hij).2 hl⟩
    · obtain ⟨rfl, -⟩ | ⟨rfl, -⟩ := hl
      · exact ham
      · exact hbm
    · obtain ⟨-, rfl⟩ | ⟨-, rfl⟩ := hl
      · exact hbm
      · exact ham

theorem Complete.severed (hc : Complete P w) (hb : w.parent b = some a)
    (ha : w.parent a ≠ some b) : Complete P (w.severed b a) := by
  intro i j hij hp mask ho
  obtain ⟨hij, hn⟩ := (adj_severed hb ha).1 hij
  have hv := hc i j hij hp mask ho
  unfold World.view at hv ⊢
  rwa [chan_severed hn]

end

/-! ## A cleanup -/

section
variable [DecidableEq ι] {w : World ι} {lost lost' : ι → ι → Prop} {x y : ι}

/-- The world after the turn in which `x` drops the components at the location of `y`. -/
def World.swept (P : Places ι) (w : World ι) (x y : ι) : World ι :=
  w.post P x ⟨cleanupInfo (w.nodes x).info (P.loc y),
    sweepMsgs (P.loc y) (w.nodes x).info.peers.nodes (w.nodes x).info,
    (w.nodes x).net.2 ++ [.cleanup (P.loc y)]⟩

theorem nodes_swept : (w.swept P x y).nodes x = ⟨cleanupInfo (w.nodes x).info (P.loc y), [],
    (w.nodes x).net.2 ++ [.cleanup (P.loc y)]⟩ :=
  Function.update_self ..

theorem nodes_swept_of_ne {i : ι} (hi : i ≠ x) : (w.swept P x y).nodes i = w.nodes i :=
  Function.update_of_ne hi ..

theorem chan_swept (j : ι) : (w.swept P x y).chan x j = w.chan x j ++ toward (P.loc j)
    (sweepMsgs (P.loc y) (w.nodes x).info.peers.nodes (w.nodes x).info) :=
  if_pos rfl

theorem chan_swept_of_ne {i : ι} (hi : i ≠ x) (j : ι) : (w.swept P x y).chan i j = w.chan i j :=
  if_neg hi

omit [DecidableEq ι] in
theorem other_location {k : ι} (hk : k ≠ y) : isEqualLocationId (P.loc y) (P.loc k) = false := by
  rw [Bool.eq_false_iff]
  exact fun he => hk (P.distinct y k he).symm

/-- The agents that stay in `peers`, and what they are listed for. -/
theorem isPeer_swept (h : WiredBut P lost w) (hx : x ∈ w.agents) {i k : ι} (hk : i = x → k ≠ y) :
    ((w.swept P x y).nodes i).info.isPeer (P.agent k) = (w.nodes i).info.isPeer (P.agent k) := by
  by_cases hi : i = x
  · subst hi
    have hloc : isEqualLocationId (P.loc y) (P.agent k).locationId = false := other_location (hk rfl)
    rw [nodes_swept, (cleanupInfo_spec (h.node i hx).sim.inv (P.loc y)).2.1, hloc, Bool.not_false,
      Bool.and_true]
  · rw [nodes_swept_of_ne hi]

theorem listed_swept (h : WiredBut P lost w) (hx : x ∈ w.agents) {i k : ι} (hk : i = x → k ≠ y)
    (mask : Event) : ((w.swept P x y).nodes i).info.listed (P.agent k) mask =
      (w.nodes i).info.listed (P.agent k) mask := by
  by_cases hi : i = x
  · subst hi
    have hloc : isEqualLocationId (P.loc y) (P.agent k).locationId = false := other_location (hk rfl)
    rw [nodes_swept, (cleanupInfo_spec (h.node i hx).sim.inv (P.loc y)).2.2, hloc, Bool.not_false,
      Bool.and_true]
  · rw [nodes_swept_of_ne hi]

omit [DecidableEq ι] in
theorem spoken_sweep (h : WiredBut P lost w) (hx : x ∈ w.agents) {out : Msg}
    (ho : out ∈ sweepMsgs (P.loc y) (w.nodes x).info.peers.nodes (w.nodes x).info) :
    (out.src = P.agent x ∧
      (out.msgType = .regSubscription ∨ out.msgType = .subscriptionCancel)) ∧
      (w.nodes x).info.isPeer out.dst = true := by
  have hsp : Spoken (w.nodes x).info FTBM.Queue.cleanupMsg out :=
    spoken_sweepMsgs _ rfl (fun _ => id) ho
  exact ⟨⟨hsp.src.trans (h.node x hx).self, hsp.type⟩, hsp.dst.resolve_right fun hd => nomatch hd.1⟩

omit [DecidableEq ι] in
/-- Nothing is sent to an agent that is not in `peers`. -/
theorem toward_sweep (h : WiredBut P lost w) (hx : x ∈ w.agents) {k : ι}
    (hk : (w.nodes x).info.isPeer (P.agent k) = false) : toward (P.loc k)
      (sweepMsgs (P.loc y) (w.nodes x).info.peers.nodes (w.nodes x).info) = [] := by
  refine List.eq_nil_iff_forall_not_mem.2 fun out ho => ?_
  obtain ⟨ho, hloc⟩ := mem_toward.1 ho
  have hp := (spoken_sweep h hx ho).2
  rw [NodeInfo.isPeer_congr ((h.node x hx).eq_agent_of_location hp hloc), hk] at hp
  cases hp

/-- **A cleanup is done with the link**, and leaves the others as they are. -/
theorem WiredBut.swept (h : WiredBut P lost w) (hx : x ∈ w.agents) (hxy : lost x y)
    (hl : ∀ i j, lost' i j ↔ lost i j ∧ ¬(i = x ∧ j = y)) :
    WiredBut P lost' ((w.swept P x y).cut x y) := by
  have hnot : ¬w.Adj x y := (h.gone x y hxy).2.2
  have hedge : ∀ {i j}, w.Adj i j → i = x → j ≠ y := by
    rintro i j hij rfl rfl
    exact hnot hij
  have hplain : ∀ j, Plain P x (toward (P.loc j)
      (sweepMsgs (P.loc y) (w.nodes x).info.peers.nodes (w.nodes x).info)) := fun j out ho =>
    (spoken_sweep h hx (mem_toward.1 ho).1).1
  -- what one end of a link adds to its channel
  have hadd : ∀ i j, ∃ out, (w.swept P x y).chan i j = w.chan i j ++ out ∧ Plain P i out ∧
      ((w.nodes i).info.isPeer (P.agent j) = false → out = []) := by
    intro i j
    by_cases hi : i = x
    · subst hi
      exact ⟨_, chan_swept j, hplain j, fun hp => toward_sweep h hx hp⟩
    · exact ⟨[], (chan_swept_of_ne hi j).trans (List.append_nil _).symm, Plain.nil i, fun _ => rfl⟩
  have hswept : ∀ c p, w.parent c = some p → Link P (w.swept P x y) c p := by
    intro c p hcp
    obtain ⟨up, hup, hpup, -⟩ := hadd c p
    obtain ⟨down, hdown, hpdown, hnone⟩ := hadd p c
    have hc : c = x → p ≠ y := hedge (.inl hcp)
    exact (h.link c p hcp).extend (isPeer_swept h hx hc) (isPeer_swept h hx (hedge (.inr hcp)))
      (fun mask => listed_swept h hx hc mask) hup hpup hdown hpdown hnone
  refine ⟨h.edge, fun i hi => ?_, fun c p hcp => ?_, fun i j hij hn => ?_, fun i j hij => ?_⟩
  · by_cases hix : i = x
    · subst hix
      have hn := h.node i hx
      have hnode : ((w.swept P i y).cut i y).nodes i = ⟨cleanupInfo (w.nodes i).info (P.loc y), [],
          (w.nodes i).net.2 ++ [.cleanup (P.loc y)]⟩ := nodes_swept
      refine ⟨?_, ?_, ?_, fun k hk => ?_⟩ <;> rw [hnode] at *
      · exact hn.sim.cleanupInfo (P.loc y)
      · exact (frame_cleanupInfo _ _).self.trans hn.self
      · rw [(cleanupInfo_spec hn.sim.inv (P.loc y)).2.1, Bool.and_eq_true, Bool.not_eq_true'] at hk
        refine (hn.peers k hk.1).imp_right fun ⟨j, hj, he⟩ => ⟨j, hj.imp_right fun hlost => ?_, he⟩
        refine (hl i j).2 ⟨hlost, fun hc => ?_⟩
        obtain ⟨-, rfl⟩ := hc
        have hloc := isEqualLocationId_of_ftbId he
        rw [KeyEq.comm isEqualLocationId] at hloc
        exact absurd (hk.2.symm.trans hloc) Bool.false_ne_true
    · exact (h.node i hi).same (nodes_swept_of_ne hix) fun j hj =>
        hj.imp_right fun hlost => (hl i j).2 ⟨hlost, fun hc => hix hc.1⟩
  · exact (hswept c p hcp).congr rfl rfl (chan_cut_of_adj hnot (.inl hcp))
      (chan_cut_of_adj hnot (.inr hcp))
  · rw [chan_cut]
    split
    · rfl
    · rename_i hends
      have hlost : ¬lost i j := fun hlost =>
        hn ((hl i j).2 ⟨hlost, fun hc => hends (.inl hc)⟩)
      have hw := h.away i j hij hlost
      by_cases hix : i = x
      · subst hix
        have hp : (w.nodes i).info.isPeer (P.agent j) = false := by
          rw [Bool.eq_false_iff]
          exact fun hp => ((h.node i hx).adj_of_isPeer hp).elim hij hlost
        rw [chan_swept, hw, toward_sweep h hx hp]
        rfl
      · rw [chan_swept_of_ne hix, hw]
  · exact h.gone i j ((hl i j).1 hij).1

theorem Complete.swept (hc : Complete P w) (h : WiredBut P lost w) (hx : x ∈ w.agents)
    (hxy : ¬w.Adj x y) : Complete P ((w.swept P x y).cut x y) := by
  refine Complete.cut (fun i j hij hp mask ho => ?_) hxy
  replace hij : w.Adj i j := hij
  have hne := (h.edge i j hij).2.2
  have hedge : ∀ {i j}, w.Adj i j → i = x → j ≠ y := by
    rintro i j hij rfl rfl
    exact hxy hij
  rw [isPeer_swept h hx (hedge hij)] at hp
  by_cases hi : i = x
  · subst hi
    have hview : (w.swept P i y).view P i j mask ↔ hears mask (w.view P i j mask) (toward (P.loc j)
        (sweepMsgs (P.loc y) (w.nodes i).info.peers.nodes (w.nodes i).info)) := by
      unfold World.view
      rw [nodes_swept_of_ne hne.symm, chan_swept, hears_append]
    rw [nodes_swept] at ho
    exact hview.2 (hears_mono mask (hc i j hij hp mask) _
      (complete_sweep (P.loc y) (P.agent j) (w.nodes i).info.peers.nodes mask ho))
  · rw [nodes_swept_of_ne hi] at ho
    have hv := hc i j hij hp mask ho
    unfold World.view at hv ⊢
    rwa [listed_swept h hx (hedge hij.symm), chan_swept_of_ne hi]

end

/-! ## The new parent -/

section
variable [DecidableEq ι] {w : World ι} {lost : ι → ι → Prop} {b d : ι}

/-- What an agent sends to the parent it has found: its registration and all its masks. -/
def rejoinMsgs (P : Places ι) (s : NodeInfo) (d : ι) : List Msg :=
  rejoinMsg s.self (P.loc d) :: registerMsgs s (P.agent d)

/-- The world after `b` has attached to `d`. -/
def World.rejoined (P : Places ι) (w : World ι) (b d : ι) : World ι :=
  (w.post P b ⟨registerInfo { (w.nodes b).info with parent := P.loc d } (P.agent d),
    rejoinMsgs P (w.nodes b).info d, (w.nodes b).net.2 ++ [.attach (P.agent d)]⟩).hang b (some d)

omit [DecidableEq ι] in
theorem dst_rejoinMsgs {s : NodeInfo} {out : Msg} (ho : out ∈ rejoinMsgs P s d) :
    out.dst = P.agent d := by
  obtain rfl | ho := List.mem_cons.1 ho
  · rfl
  · unfold registerMsgs at ho
    split at ho
    · obtain ⟨ent, -, rfl⟩ := List.mem_map.1 ho
      rfl
    · cases ho

omit [DecidableEq ι] in
theorem toward_rejoinMsgs (s : NodeInfo) {j : ι} (hj : j ≠ d) :
    toward (P.loc j) (rejoinMsgs P s d) = [] := by
  refine List.eq_nil_iff_forall_not_mem.2 fun out ho => ?_
  obtain ⟨ho, hl⟩ := mem_toward.1 ho
  rw [dst_rejoinMsgs ho] at hl
  exact hj (P.distinct d j hl).symm

omit [DecidableEq ι] in
theorem toward_rejoinMsgs_self (s : NodeInfo) :
    toward (P.loc d) (rejoinMsgs P s d) = rejoinMsgs P s d := by
  refine List.filter_eq_self.2 fun out ho => ?_
  rw [dst_rejoinMsgs ho]
  exact KeyEq.refl (P.loc d)

theorem nodes_rejoined : (w.rejoined P b d).nodes b =
    ⟨registerInfo { (w.nodes b).info with parent := P.loc d } (P.agent d), [],
      (w.nodes b).net.2 ++ [.attach (P.agent d)]⟩ :=
  Function.update_self ..

theorem nodes_rejoined_of_ne {i : ι} (hi : i ≠ b) : (w.rejoined P b d).nodes i = w.nodes i :=
  Function.update_of_ne hi ..

theorem chan_rejoined : (w.rejoined P b d).chan b d =
    w.chan b d ++ rejoinMsgs P (w.nodes b).info d := by
  have hc : (w.rejoined P b d).chan b d =
      w.chan b d ++ toward (P.loc d) (rejoinMsgs P (w.nodes b).info d) := if_pos rfl
  rw [hc, toward_rejoinMsgs_self]

theorem chan_rejoined_of_ne {i j : ι} (h : ¬(i = b ∧ j = d)) :
    (w.rejoined P b d).chan i j = w.chan i j := by
  by_cases hi : i = b
  · subst hi
    have hc : (w.rejoined P i d).chan i j =
        w.chan i j ++ toward (P.loc j) (rejoinMsgs P (w.nodes i).info d) := if_pos rfl
    rw [hc, toward_rejoinMsgs _ fun hj => h ⟨rfl, hj⟩, List.append_nil]
  · exact if_neg hi

theorem adj_rejoined (hpar : w.parent b = none) (i j : ι) :
    (w.rejoined P b d).Adj i j ↔ w.Adj i j ∨ (i = b ∧ j = d) ∨ (i = d ∧ j = b) :=
  adj_of_parent hpar (Function.update_self ..) (fun _ hi => Function.update_of_ne hi ..) i j

theorem isPeer_rejoined {i j : ι} (h : ¬(i = b ∧ j = d)) :
    ((w.rejoined P b d).nodes i).info.isPeer (P.agent j) = (w.nodes i).info.isPeer (P.agent j) := by
  by_cases hi : i = b
  · subst hi
    rw [nodes_rejoined]
    refine (isPeer_registerInfo _ (P.agent d) (P.agent j)).trans ?_
    rw [agent_ne fun hj => h ⟨rfl, hj.symm⟩, Bool.or_false]
    rfl
  · rw [nodes_rejoined_of_ne hi]

theorem listed_rejoined (i : ι) (k : Id) (mask : Event) :
    ((w.rejoined P b d).nodes i).info.listed k mask = (w.nodes i).info.listed k mask := by
  by_cases hi : i = b
  · subst hi
    rw [nodes_rejoined]
    exact listed_registerInfo _ (P.agent d) k mask
  · rw [nodes_rejoined_of_ne hi]

theorem NodeBut.rejoined {i : ι} (hn : NodeBut P lost w i) (hpar : w.parent b = none) :
    NodeBut P lost (w.rejoined P b d) i := by
  have hadj := adj_rejoined (P := P) (d := d) hpar
  by_cases hib : i = b
  · subst hib
    refine ⟨?_, ?_, ?_, fun k hk => ?_⟩ <;> rw [nodes_rejoined] at *
    · have hs := hn.sim.attachInfo (P.loc d)
      rwa [(attach_found hn.sim.leaf (P.pid d)).1, if_pos (bne_iff_ne.2 (P.pid d))] at hs
    · exact hn.self
    · have hp := (isPeer_registerInfo { (w.nodes i).info with parent := P.loc d } (P.agent d) k).symm
      rw [hk, Bool.or_eq_true] at hp
      obtain hp | hp := hp
      · exact (hn.peers k hp).imp_right fun ⟨j, hj, he⟩ =>
          ⟨j, hj.imp_left fun hj => (hadj i j).2 (.inl hj), he⟩
      · exact .inr ⟨d, .inl ((hadj i d).2 (.inr (.inl ⟨rfl, rfl⟩))), KeyEq.symm hp⟩
  · exact hn.same (nodes_rejoined_of_ne hib) fun j hj =>
      hj.imp_left fun hj => (hadj i j).2 (.inl hj)

omit [DecidableEq ι] in
/-- An agent without a link to another one does not have it in `peers`. -/
theorem isPeer_apart (h : WiredBut P lost w) {i j : ι} (hi : i ∈ w.agents) (hij : ¬w.Adj i j)
    (hl : ¬lost i j) : (w.nodes i).info.isPeer (P.agent j) = false := by
  rw [Bool.eq_false_iff]
  exact fun hp => ((h.node i hi).adj_of_isPeer hp).elim hij hl

/-- The new link. -/
theorem greeting_rejoined (h : WiredBut P lost w) (hb : b ∈ w.agents) (hd : d ∈ w.agents)
    (hbd : b ≠ d) (hadj : ¬w.Adj b d) (hl : ¬lost b d) (hl' : ¬lost d b) :
    Greeting P (w.rejoined P b d) b d := by
  have hself := (h.node b hb).self
  have hpeer := isPeer_apart h hb hadj hl
  refine ⟨?_, ?_, ⟨rejoinMsg (w.nodes b).info.self (P.loc d), registerMsgs (w.nodes b).info
    (P.agent d), ?_, hself, rfl, ?_⟩, ?_, fun mask => ?_⟩
  · rw [nodes_rejoined]
    refine (isPeer_registerInfo _ (P.agent d) (P.agent d)).trans ?_
    rw [agent_self, Bool.or_true]
  · rw [nodes_rejoined_of_ne hbd.symm]
    exact isPeer_apart h hd (fun ha => hadj ha.symm) hl'
  · rw [chan_rejoined, h.away b d hadj hl]
    rfl
  · intro out ho
    unfold registerMsgs at ho
    split at ho
    · obtain ⟨ent, -, rfl⟩ := List.mem_map.1 ho
      exact ⟨hself, .inl rfl⟩
    · cases ho
  · rw [chan_rejoined_of_ne fun hc => hbd hc.1.symm]
    exact h.away d b (fun ha => hadj ha.symm) hl'
  · rw [listed_rejoined]
    exact (h.node b hb).sim.inv.listed_of_not_isPeer hpeer mask

/-- **An agent that has found another parent is wired like one that joins.** -/
theorem WiredBut.rejoined (h : WiredBut P lost w) (hb : b ∈ w.agents) (hd : d ∈ w.agents)
    (hbd : b ≠ d) (hpar : w.parent b = none) (hadj : ¬w.Adj b d) (hl : ¬lost b d)
    (hl' : ¬lost d b) : WiredBut P lost (w.rejoined P b d) := by
  have hadj' := adj_rejoined (P := P) (d := d) hpar
  have hne : ∀ {i j}, w.Adj i j → ¬(i = b ∧ j = d) := by
    rintro i j hij ⟨rfl, rfl⟩
    exact hadj hij
  refine ⟨?_, fun i hi => (h.node i hi).rejoined hpar, fun c p hcp => ?_, fun i j hij hn => ?_,
    fun i j hn => ?_⟩
  · intro i j hij
    obtain hij | ⟨rfl, rfl⟩ | ⟨rfl, rfl⟩ := (hadj' i j).1 hij
    · exact h.edge i j hij
    · exact ⟨hb, hd, hbd⟩
    · exact ⟨hd, hb, hbd.symm⟩
  · by_cases hc : c = b
    · subst hc
      have hs : (w.rejoined P c d).parent c = some d := Function.update_self ..
      obtain rfl : d = p := Option.some.inj (hs.symm.trans hcp)
      exact .inr (greeting_rejoined h hb hd hbd hadj hl hl')
    · have hs : (w.rejoined P b d).parent c = w.parent c := Function.update_of_ne hc ..
      rw [hs] at hcp
      have hup : ¬(c = b ∧ p = d) := hne (.inl hcp)
      have hdown : ¬(p = b ∧ c = d) := hne (.inr hcp)
      exact (h.link c p hcp).extend (isPeer_rejoined hup) (isPeer_rejoined hdown)
        (fun mask => listed_rejoined c (P.agent p) mask)
        ((chan_rejoined_of_ne hup).trans (List.append_nil _).symm) (Plain.nil c)
        ((chan_rejoined_of_ne hdown).trans (List.append_nil _).symm) (Plain.nil p) fun _ => rfl
  · rw [hadj', not_or, not_or] at hij
    rw [chan_rejoined_of_ne hij.2.1]
    exact h.away i j hij.1 hn
  · obtain ⟨hi, hj, hij⟩ := h.gone i j hn
    refine ⟨hi, hj, fun hij' => ?_⟩
    obtain hij' | ⟨rfl, rfl⟩ | ⟨rfl, rfl⟩ := (hadj' i j).1 hij'
    · exact hij hij'
    · exact hl hn
    · exact hl' hn

/-- Its masks follow the registration, so its new parent will list it as it should. -/
theorem Complete.rejoined (hc : Complete P w) (h : WiredBut P lost w) (hb : b ∈ w.agents)
    (hd : d ∈ w.agents) (hbd : b ≠ d) (hpar : w.parent b = none) (hadj : ¬w.Adj b d)
    (hl : ¬lost b d) (hl' : ¬lost d b) : Complete P (w.rejoined P b d) := by
  have hothers : ∀ i j mask, others ((w.rejoined P b d).nodes i).info (P.agent j) mask ↔
      others (w.nodes i).info (P.agent j) mask := by
    intro i j mask
    unfold others
    simp only [listed_rejoined]
  intro i j hij hp mask ho
  rw [hothers] at ho
  obtain hold | ⟨rfl, rfl⟩ | ⟨rfl, rfl⟩ := (adj_rejoined hpar i j).1 hij
  · have hn : ¬(i = b ∧ j = d) := by
      rintro ⟨rfl, rfl⟩
      exact hadj hold
    rw [isPeer_rejoined hn] at hp
    have hv := hc i j hold hp mask ho
    unfold World.view at hv ⊢
    rwa [listed_rejoined, chan_rejoined_of_ne hn]
  · have hpeer := isPeer_apart h hb hadj hl
    have hheard := (hears_greeting (h.node i hb).sim.inv hpeer (isAgent_agent j) mask).2 ho
    have hmsgs : toward (P.agent j).locationId (registerMsgs (w.nodes i).info (P.agent j)) =
        registerMsgs (w.nodes i).info (P.agent j) := by
      have ht := toward_rejoinMsgs_self (P := P) (d := j) (w.nodes i).info
      unfold rejoinMsgs toward at ht
      exact List.filter_eq_self.2 fun out ho =>
        List.filter_eq_self.1 ht out (List.mem_cons_of_mem _ ho)
    rw [hmsgs] at hheard
    unfold World.view
    rw [chan_rejoined, h.away i j hadj hl]
    exact hears_mono mask False.elim _ hheard
  · have hn : ¬(i = j ∧ j = i) := fun hc => hbd hc.1.symm
    rw [isPeer_rejoined hn, isPeer_apart h hd (fun ha => hadj ha.symm) hl'] at hp
    cases hp

end

end Backplane
