import Ftb.Backplane.Failures
import Ftb.Backplane.Proof.Survival

/-!
# What a backplane keeps that loses links

Every loss leaves two agents that may still keep each other, and the parents of the others. So the links
that are left are wired but for those in `due` (`WiredBut`), every bit is set that should be (`Complete`),
and the parents form a forest: an agent has its parent in the tree, or is a root, or has lost its parent
and has still to be told (`Endures`).
-/

open FTB FTBU FTBN FTBMI Trace

namespace Backplane

variable {ι : Type} {P : Places ι}

/-- `i` has still to be told that its link to `j` is lost. -/
def LostIn (due : List (ι × ι)) (i j : ι) : Prop := (i, j) ∈ due

structure Endures (P : Places ι) (s : Damaged ι) : Prop where
  wired : WiredBut P (LostIn s.due) s.world
  complete : Complete P s.world
  forest : Tree.Forest s.world.parent
  silent : ∀ i j, (i, j) ∈ s.due → s.world.chan i j = [] ∧ s.world.chan j i = []
  up : ∀ i ∈ s.world.agents,
    (∃ p, s.world.parent i = some p ∧ (s.world.nodes i).info.parent = P.loc p) ∨
      (s.world.parent i = none ∧ ((s.world.nodes i).info.parent.pid = 0 ∨
        ∃ y, (i, y) ∈ s.due ∧ (s.world.nodes i).info.parent = P.loc y))

/-! ## Silence -/

section
variable [DecidableEq ι] {w : World ι} {lost : ι → ι → Prop} {due : List (ι × ι)} {i j : ι}

theorem chan_silence_of_adj (hd : ∀ i j, (i, j) ∈ due → ¬w.Adj i j) (hij : w.Adj i j) :
    (w.silence due).chan i j = w.chan i j :=
  if_neg fun hc => hc.elim (fun h => hd i j h hij) fun h => hd j i h hij.symm

theorem chan_silence (h : (i, j) ∈ due) :
    (w.silence due).chan i j = [] ∧ (w.silence due).chan j i = [] :=
  ⟨if_pos (.inl h), if_pos (.inr h)⟩

theorem WiredBut.silence (h : WiredBut P lost w) (hd : ∀ i j, (i, j) ∈ due → ¬w.Adj i j) :
    WiredBut P lost (w.silence due) := by
  refine ⟨h.edge, fun k hk => (h.node k hk).same rfl fun _ => id, fun c p hcp => ?_,
    fun k l hkl hl => ?_, h.gone⟩
  · exact (h.link c p hcp).congr rfl rfl (chan_silence_of_adj hd (.inl hcp))
      (chan_silence_of_adj hd (.inr hcp))
  · have hs : (w.silence due).chan k l =
        if (k, l) ∈ due ∨ (l, k) ∈ due then [] else w.chan k l := rfl
    rw [hs, h.away k l hkl hl, ite_self]

theorem Complete.silence (hc : Complete P w) (hd : ∀ i j, (i, j) ∈ due → ¬w.Adj i j) :
    Complete P (w.silence due) := by
  intro i j hij hp mask ho
  have hv := hc i j hij hp mask ho
  unfold World.view at hv ⊢
  rwa [chan_silence_of_adj hd hij]

/-- What is silent already. -/
theorem silence_cut (h : (i, j) ∈ due) : (w.cut i j).silence due = w.silence due := by
  refine World.ext rfl rfl rfl ?_ rfl
  funext k l
  show (if (k, l) ∈ due ∨ (l, k) ∈ due then [] else (w.cut i j).chan k l) =
    if (k, l) ∈ due ∨ (l, k) ∈ due then [] else w.chan k l
  split
  · rfl
  · rename_i hn
    rw [chan_cut, if_neg]
    rintro (⟨rfl, rfl⟩ | ⟨rfl, rfl⟩)
    · exact hn (.inl h)
    · exact hn (.inr h)

end

/-! ## The loss -/

section
variable [DecidableEq ι] {w : World ι} {lost : ι → ι → Prop} {a b : ι}

/-- **Both ends keep the other one until they are told**, while other links are lost. -/
theorem WiredBut.severed (h : WiredBut P lost w) (hb : w.parent b = some a) (ha : w.parent a ≠ some b) :
    WiredBut P (fun i j => Ends a b i j ∨ lost i j) (w.severed b a) := by
  have hadj : ∀ {i j}, (w.severed b a).Adj i j ↔ w.Adj i j ∧ ¬Ends a b i j := adj_severed hb ha
  obtain ⟨hbm, ham, -⟩ := h.edge b a (.inl hb)
  refine ⟨fun i j hij => h.edge i j (hadj.1 hij).1, fun i hi => ?_, fun c p hcp => ?_,
    fun i j hij hl => ?_, fun i j hl => ?_⟩
  · refine (h.node i hi).same rfl fun j hij => ?_
    rw [hadj]
    obtain hij | hij := hij
    · by_cases hl : Ends a b i j
      · exact .inr (.inl hl)
      · exact .inl ⟨hij, hl⟩
    · exact .inr (.inr hij)
  · have hn : ¬Ends a b c p := (hadj.1 (.inl hcp)).2
    have hn' : ¬Ends a b p c := (hadj.1 (.inr hcp)).2
    exact (h.link c p (parent_severed.1 hcp).2).congr rfl rfl (chan_severed hn) (chan_severed hn')
  · rw [not_or] at hl
    rw [chan_severed hl.1]
    exact h.away i j (fun hij' => hij (hadj.2 ⟨hij', hl.1⟩)) hl.2
  · obtain hl | hl := hl
    · refine ⟨?_, ?_, fun hij => (hadj.1 hij).2 hl⟩
      · obtain ⟨rfl, -⟩ | ⟨rfl, -⟩ := hl
        · exact ham
        · exact hbm
      · obtain ⟨-, rfl⟩ | ⟨-, rfl⟩ := hl
        · exact hbm
        · exact ham
    · obtain ⟨hi, hj, hn⟩ := h.gone i j hl
      exact ⟨hi, hj, fun hij => hn (hadj.1 hij).1⟩

end

/-! ## Every happening -/

section
variable [DecidableEq ι] {s : Damaged ι} {w' : World ι} {a b x y d : ι}

omit [DecidableEq ι] in
theorem Endures.chan_lost (h : Endures P s) (i j : ι) (hl : LostIn s.due i j) : s.world.chan i j = [] :=
  (h.silent i j hl).1

omit [DecidableEq ι] in
theorem Endures.apart (h : Endures P s) (i j : ι) (hl : (i, j) ∈ s.due) : ¬s.world.Adj i j :=
  (h.wired.gone i j hl).2.2

/-- What the backplane does. -/
theorem Endures.act (h : Endures P s) {c : Action ι} (hc : Control P c)
    (ha : act P s.world c = some w') : Endures P ⟨w'.silence s.due, s.due⟩ := by
  obtain ⟨x, msg, b, src, hx, harr, rfl, -⟩ | ⟨n, p, hn, hp, rfl⟩ :=
    act_cases h.wired h.chan_lost hc ha
  · have hparent : (b.turned P x msg src).parent = s.world.parent := harr.parent
    have hapart : ∀ i j, (i, j) ∈ s.due → ¬(b.turned P x msg src).Adj i j := fun i j hl hij =>
      h.apart i j hl ((adj_turned harr).1 hij)
    refine ⟨(h.wired.turned hx harr).silence hapart,
      (h.complete.turned h.wired hx harr).silence hapart, hparent ▸ h.forest,
      fun i j hl => chan_silence hl, fun i hi => ?_⟩
    have hi : i ∈ s.world.agents := harr.agents ▸ hi
    have hpar : (((b.turned P x msg src).silence s.due).nodes i).info.parent =
        (s.world.nodes i).info.parent := parent_turned harr i
    have hsame : ((b.turned P x msg src).silence s.due).parent = s.world.parent := hparent
    simp only [hpar, hsame]
    exact h.up i hi
  · have hnp : n ≠ p := fun he => hn (he ▸ hp)
    have hself : (s.world.joined P n p).parent n = some p := Function.update_self ..
    have hother : ∀ {i}, i ≠ n → (s.world.joined P n p).parent i = s.world.parent i := fun hi =>
      Function.update_of_ne hi ..
    have hapart : ∀ i j, (i, j) ∈ s.due → ¬(s.world.joined P n p).Adj i j := by
      intro i j hl hij
      obtain ⟨hi, hj, hold⟩ := h.wired.gone i j hl
      obtain hij | ⟨rfl, -⟩ | ⟨-, rfl⟩ := (adj_joined h.wired hn i j).1 hij
      · exact hold hij
      · exact hn hi
      · exact hn hj
    refine ⟨(h.wired.joined hn hp).silence hapart, (h.complete.joined h.wired hn hp).silence hapart,
      h.forest.move (fun hbelow => ?_) hself fun i hi => hother hi, fun i j hl => chan_silence hl,
      fun i hi => ?_⟩
    · -- no agent has the new one as its parent
      obtain rfl | ⟨z, -, hz⟩ := hbelow.cases_tail
      · exact hnp rfl
      · exact hn (h.wired.edge z n (.inl hz)).2.1
    · by_cases hin : i = n
      · subst hin
        refine .inl ⟨p, hself, ?_⟩
        show ((s.world.joined P i p).nodes i).info.parent = P.loc p
        rw [nodes_joined, boot_connecting (P.pid p)]
        rfl
      · have hnode : ((s.world.joined P n p).silence s.due).nodes i = s.world.nodes i :=
          nodes_joined_of_ne hin
        have hpar : ((s.world.joined P n p).silence s.due).parent i = s.world.parent i := hother hin
        simp only [hnode, hpar]
        exact h.up i ((List.mem_cons.1 hi).resolve_left hin)

/-- A loss. -/
theorem Endures.lose (h : Endures P s) (hb : s.world.parent b = some a) :
    Endures P ⟨s.world.severed b a, (b, a) :: (a, b) :: s.due⟩ := by
  have ha : s.world.parent a ≠ some b := by
    obtain ⟨d, hd⟩ := h.forest
    intro ha
    exact absurd (hd a b ha) (Nat.not_lt.2 (hd b a hb).le)
  have hlost : LostIn ((b, a) :: (a, b) :: s.due) = fun i j => Ends a b i j ∨ LostIn s.due i j := by
    funext i j
    unfold LostIn Ends
    simp only [List.mem_cons, Prod.mk.injEq, eq_iff_iff]
    tauto
  refine ⟨?_, h.complete.severed hb ha, h.forest.mono fun i j hij => (parent_severed.1 hij).2,
    fun i j hl => ?_, fun i hi => ?_⟩
  · rw [hlost]
    exact h.wired.severed hb ha
  · have hsilent : ∀ k l, s.world.chan k l = [] → (s.world.severed b a).chan k l = [] := by
      intro k l hkl
      have hc : (s.world.severed b a).chan k l = (s.world.cut b a).chan k l := rfl
      rw [hc, chan_cut, hkl, ite_self]
    obtain he | hl := List.mem_cons.1 hl
    · rw [Prod.mk.injEq] at he
      obtain ⟨rfl, rfl⟩ := he
      exact chan_cut_self
    · obtain he | hl := List.mem_cons.1 hl
      · rw [Prod.mk.injEq] at he
        obtain ⟨rfl, rfl⟩ := he
        exact chan_cut_self.symm
      · exact ⟨hsilent i j (h.silent i j hl).1, hsilent j i (h.silent i j hl).2⟩
  · have hdue : ∀ {e}, e ∈ s.due → e ∈ (b, a) :: (a, b) :: s.due := fun he =>
      List.mem_cons_of_mem _ (List.mem_cons_of_mem _ he)
    by_cases hib : i = b
    · subst hib
      refine .inr ⟨Function.update_self .., .inr ⟨a, List.mem_cons_self, ?_⟩⟩
      obtain ⟨p, hp, hloc⟩ | ⟨hn, -⟩ := h.up i hi
      · obtain rfl : a = p := Option.some.inj (hb.symm.trans hp)
        exact hloc
      · rw [hb] at hn
        cases hn
    · have hpar : (s.world.severed b a).parent i = s.world.parent i := Function.update_of_ne hib ..
      simp only [hpar]
      exact (h.up i hi).imp id fun ⟨hn, hc⟩ =>
        ⟨hn, hc.imp id fun ⟨y, hy, hloc⟩ => ⟨y, hdue hy, hloc⟩⟩

/-! ## An agent is told -/

omit [DecidableEq ι] in
theorem Endures.node_eq (h : Endures P s) {i : ι} (hi : i ∈ s.world.agents) :
    s.world.nodes i = ⟨(s.world.nodes i).info, [], (s.world.nodes i).net.2⟩ := by
  rw [← (h.wired.node i hi).idle]

omit [DecidableEq ι] in
/-- An agent that has still to be told that it lost its parent has none in the tree. -/
theorem Endures.orphan (h : Endures P s) (hxy : (x, y) ∈ s.due) (hg : s.world.GoesBy P x y) :
    s.world.parent x = none := by
  obtain ⟨hx, -, hnot⟩ := h.wired.gone x y hxy
  obtain ⟨p, hp, hloc⟩ | ⟨hn, -⟩ := h.up x hx
  · unfold World.GoesBy at hg
    rw [hloc] at hg
    exact absurd (.inl (P.distinct p y hg ▸ hp)) hnot
  · exact hn

theorem lostIn_filter {due : List (ι × ι)} {i j : ι} :
    LostIn (due.filter (· ≠ (x, y))) i j ↔ LostIn due i j ∧ ¬(i = x ∧ j = y) := by
  unfold LostIn
  rw [List.mem_filter, decide_eq_true_iff, ne_eq, Prod.mk.injEq]

/-- What the turn of the agent leaves on its links. -/
theorem Endures.swept (h : Endures P s) (hxy : (x, y) ∈ s.due) :
    WiredBut P (LostIn (s.due.filter (· ≠ (x, y)))) ((s.world.swept P x y).silence s.due) ∧
      Complete P ((s.world.swept P x y).silence s.due) := by
  obtain ⟨hx, -, hnot⟩ := h.wired.gone x y hxy
  rw [← silence_cut hxy]
  exact ⟨(h.wired.swept hx hxy fun i j => lostIn_filter).silence h.apart,
    (h.complete.swept h.wired hx hnot).silence h.apart⟩

/-- The agent is told of a neighbour below it. -/
theorem Endures.told (h : Endures P s) (hxy : (x, y) ∈ s.due) (hg : ¬s.world.GoesBy P x y) :
    s.world.cleanup P outbox x y = some (s.world.swept P x y) ∧
      Endures P ⟨(s.world.swept P x y).silence s.due, s.due.filter (· ≠ (x, y))⟩ := by
  obtain ⟨hx, -, -⟩ := h.wired.gone x y hxy
  obtain ⟨hwired, hcomplete⟩ := h.swept hxy
  refine ⟨?_, hwired, hcomplete, h.forest, fun i j hl => chan_silence (lostIn_filter.1 hl).1,
    fun i hi => ?_⟩
  · unfold World.cleanup
    rw [h.node_eq hx, turn_cleanup (h.wired.node x hx).sim (Bool.eq_false_iff.2 hg)]
    rfl
  · have hpar : (((s.world.swept P x y).silence s.due).nodes i).info.parent =
        (s.world.nodes i).info.parent := by
      show ((s.world.swept P x y).nodes i).info.parent = (s.world.nodes i).info.parent
      by_cases hix : i = x
      · subst hix
        rw [nodes_swept]
        exact parent_cleanupInfo _ _
      · rw [nodes_swept_of_ne hix]
    simp only [hpar]
    refine (h.up i hi).imp id fun ⟨hn, hc⟩ => ⟨hn, hc.imp id fun ⟨z, hz, hloc⟩ => ⟨z, ?_, hloc⟩⟩
    refine lostIn_filter.2 ⟨hz, fun ⟨hix, hzy⟩ => hg ?_⟩
    subst hix hzy
    unfold World.GoesBy
    rw [hloc]
    exact KeyEq.refl (P.loc z)

end

/-! ## An agent without a parent -/

theorem attach_none {s : NodeInfo} (hl : s.leaf = false) :
    attachInfo s default = { s with parent := default } ∧ attachMsgs s default = [] := by
  have hfound : ¬(!s.leaf && (default : LocationId).pid != 0) = true := by
    rw [hl]
    decide
  refine ⟨?_, if_neg hfound⟩
  unfold attachInfo
  rw [if_neg (by rw [hl]; exact Bool.false_ne_true), if_neg hfound]

/-- An agent is told that its parent is gone, and finds none. -/
theorem turn_orphan {s : NodeInfo} {hist : List Agent.Incident} (h : Agent.Sim s hist)
    {l : LocationId} (hl : isEqualLocationId s.parent l = true) :
    Agent.turn outbox ⟨s, [], hist⟩ (FTBM.Queue.cleanupMsg, l) =
      some ⟨{ cleanupInfo s l with parent := default }, sweepMsgs l s.peers.nodes s,
        hist ++ [.cleanup l]⟩ := by
  have hleaf : (cleanupInfo s l).leaf = false := (frame_cleanupInfo s l).leaf.trans h.leaf
  have hc := FTBM.cleanupConnection_eq (Agent.logged outbox) l
    (a := ⟨s, [], hist ++ [.cleanup l]⟩) h.initialized
  simp only [parent_cleanupInfo, hl, sendAll_logged, if_true, utilReconnect_eq] at hc
  have hr : reconnectResult (Agent.logged outbox) ⟨cleanupInfo s l,
      [] ++ sweepMsgs l s.peers.nodes s, hist ++ [.cleanup l]⟩ =
      (.success, default, sweepMsgs l s.peers.nodes s, hist ++ [.cleanup l] ++ []) := rfl
  obtain ⟨hinfo, hmsgs⟩ := attach_none hleaf
  simp only [hr, sendAll_logged, hinfo, hmsgs, List.append_nil] at hc
  unfold Agent.turn Agent.progressLoop Agent.incidents FTBM.Queue.cleanupMsg
  simp only [hc]

section
variable [DecidableEq ι] {w : World ι} {lost : ι → ι → Prop} {x y d : ι} {s : Damaged ι}

/-- With `x` going by no parent. -/
def World.unled (w : World ι) (x : ι) : World ι :=
  { w with
    nodes := Function.update w.nodes x
      ⟨{ (w.nodes x).info with parent := default }, (w.nodes x).net⟩ }

theorem nodes_unled : (w.unled x).nodes x =
    ⟨{ (w.nodes x).info with parent := default }, (w.nodes x).net⟩ :=
  Function.update_self ..

theorem nodes_unled_of_ne {i : ι} (hi : i ≠ x) : (w.unled x).nodes i = w.nodes i :=
  Function.update_of_ne hi ..

/-- The tables do not depend on the parent. -/
theorem tables_unled (i : ι) (k : Id) :
    ((w.unled x).nodes i).info.isPeer k = (w.nodes i).info.isPeer k ∧
      ∀ mask, ((w.unled x).nodes i).info.listed k mask = (w.nodes i).info.listed k mask := by
  by_cases hi : i = x
  · subst hi
    rw [nodes_unled]
    exact ⟨rfl, fun _ => rfl⟩
  · rw [nodes_unled_of_ne hi]
    exact ⟨rfl, fun _ => rfl⟩

theorem WiredBut.unled (h : WiredBut P lost w) (x : ι) : WiredBut P lost (w.unled x) := by
  refine ⟨h.edge, fun i hi => ?_, fun c p hcp => ?_, h.away, h.gone⟩
  · by_cases hix : i = x
    · subst hix
      have hn := h.node i hi
      refine ⟨?_, ?_, ?_, fun k hk => ?_⟩ <;> rw [nodes_unled] at *
      · have hs := hn.sim.attachInfo default
        rwa [(attach_none hn.sim.leaf).1, if_neg (by decide), List.append_nil] at hs
      · exact hn.idle
      · exact hn.self
      · exact hn.peers k hk
    · exact (h.node i hi).same (nodes_unled_of_ne hix) fun _ => id
  · exact (h.link c p hcp).extend (tables_unled c _).1 (tables_unled p _).1 (tables_unled c _).2
      (List.append_nil _).symm (Plain.nil c) (List.append_nil _).symm (Plain.nil p) fun _ => rfl

theorem Complete.unled (hc : Complete P w) (x : ι) : Complete P (w.unled x) := by
  intro i j hij hp mask ho
  have hothers : others ((w.unled x).nodes i).info (P.agent j) mask ↔
      others (w.nodes i).info (P.agent j) mask := by
    unfold others
    simp only [(tables_unled i _).2]
  rw [(tables_unled i _).1] at hp
  rw [hothers] at ho
  have hv := hc i j hij hp mask ho
  unfold World.view at hv ⊢
  rwa [(tables_unled j _).2]

/-! ## An agent is told of its parent -/

/-- It finds no other: it is a root. -/
theorem Endures.told_root (h : Endures P s) (hxy : (x, y) ∈ s.due) (hg : s.world.GoesBy P x y) :
    (s.world.cleanup P (finding P none) x y).map (fun w => (w.silence s.due).hang x none) =
        some (((s.world.swept P x y).silence s.due).unled x) ∧
      Endures P ⟨((s.world.swept P x y).silence s.due).unled x, s.due.filter (· ≠ (x, y))⟩ := by
  obtain ⟨hx, -, -⟩ := h.wired.gone x y hxy
  obtain ⟨hwired, hcomplete⟩ := h.swept hxy
  have hpar := h.orphan hxy hg
  refine ⟨?_, hwired.unled x, hcomplete.unled x, h.forest,
    fun i j hl => chan_silence (lostIn_filter.1 hl).1, fun i hi => ?_⟩
  · unfold World.cleanup finding
    rw [h.node_eq hx, turn_orphan (h.wired.node x hx).sim hg, Option.map_some, Option.map_some,
      Option.some.injEq]
    refine World.ext ?_ rfl ?_ rfl rfl
    · show Function.update s.world.nodes x _ = Function.update (s.world.swept P x y).nodes x
        ⟨{ ((s.world.swept P x y).nodes x).info with parent := default },
          ((s.world.swept P x y).nodes x).net⟩
      rw [nodes_swept]
      exact (Function.update_idem ..).symm
    · show Function.update s.world.parent x none = s.world.parent
      rw [← hpar, Function.update_eq_self]
  · by_cases hix : i = x
    · subst hix
      refine .inr ⟨hpar, .inl ?_⟩
      show (((s.world.swept P i y).silence s.due).unled i |>.nodes i).info.parent.pid = 0
      rw [nodes_unled]
      rfl
    · have hnode : (((s.world.swept P x y).silence s.due).unled x).nodes i = s.world.nodes i :=
        (nodes_unled_of_ne hix).trans (nodes_swept_of_ne hix)
      have hsame : (((s.world.swept P x y).silence s.due).unled x).parent = s.world.parent := rfl
      simp only [hnode, hsame]
      refine (h.up i hi).imp id fun ⟨hn, hc⟩ => ⟨hn, hc.imp id fun ⟨z, hz, hloc⟩ => ⟨z, ?_, hloc⟩⟩
      exact lostIn_filter.2 ⟨hz, fun hc => hix hc.1⟩

/-- What a turn sends over other links than the lost ones may as well be sent after these are silent. -/
theorem post_silence_post {due : List (ι × ι)} (t t' : NodeInfo) (l l' : List Msg)
    (hist hist' : List Agent.Incident)
    (hl : ∀ j, (x, j) ∈ due ∨ (j, x) ∈ due → toward (P.loc j) l' = []) :
    (w.post P x ⟨t', l ++ l', hist'⟩).silence due =
      ((w.post P x ⟨t, l, hist⟩).silence due).post P x ⟨t', l', hist'⟩ := by
  refine World.ext ?_ rfl rfl ?_ ?_
  · exact (Function.update_idem ..).symm
  · funext i j
    show (if (i, j) ∈ due ∨ (j, i) ∈ due then [] else
        if i = x then w.chan i j ++ toward (P.loc j) (l ++ l') else w.chan i j) =
      if i = x then (if (i, j) ∈ due ∨ (j, i) ∈ due then [] else
          if i = x then w.chan i j ++ toward (P.loc j) l else w.chan i j) ++ toward (P.loc j) l'
        else if (i, j) ∈ due ∨ (j, i) ∈ due then [] else
          if i = x then w.chan i j ++ toward (P.loc j) l else w.chan i j
    by_cases hi : i = x
    · subst hi
      simp only [if_true]
      split
      · rename_i hend
        rw [hl j hend]
        rfl
      · rw [toward_append, List.append_assoc]
    · simp only [if_neg hi]
  · show Function.update w.sent x (w.sent x ++ (l ++ l')) = Function.update
      (Function.update w.sent x (w.sent x ++ l)) x
        (Function.update w.sent x (w.sent x ++ l) x ++ l')
    rw [Function.update_self, Function.update_idem, List.append_assoc]

/-- It finds `d`, and attaches to it. -/
theorem Endures.told_found (h : Endures P s) (hxy : (x, y) ∈ s.due) (hg : s.world.GoesBy P x y)
    (hd : d ∈ s.world.agents) (hbelow : ¬s.world.Below d x) (hxd : (x, d) ∉ s.due)
    (hdx : (d, x) ∉ s.due) :
    (s.world.cleanup P (finding P (some d)) x y).map (fun w => (w.silence s.due).hang x (some d)) =
        some (((s.world.swept P x y).silence s.due).rejoined P x d) ∧
      Endures P ⟨((s.world.swept P x y).silence s.due).rejoined P x d,
        s.due.filter (· ≠ (x, y))⟩ := by
  obtain ⟨hx, -, hnot⟩ := h.wired.gone x y hxy
  obtain ⟨hwired, hcomplete⟩ := h.swept hxy
  have hpar := h.orphan hxy hg
  have hxd' : x ≠ d := by
    rintro rfl
    exact hbelow .refl
  have hadj : ¬s.world.Adj x d := by
    rintro (hp | hp)
    · rw [hpar] at hp
      cases hp
    · exact hbelow (.single hp)
  have hl : ¬LostIn (s.due.filter (· ≠ (x, y))) x d := fun hl => hxd (lostIn_filter.1 hl).1
  have hl' : ¬LostIn (s.due.filter (· ≠ (x, y))) d x := fun hl => hdx (lostIn_filter.1 hl).1
  let v := (s.world.swept P x y).silence s.due
  have hself : (v.rejoined P x d).parent x = some d := Function.update_self ..
  have hother : ∀ i, i ≠ x → (v.rejoined P x d).parent i = s.world.parent i := fun i hi =>
    Function.update_of_ne hi ..
  refine ⟨?_, hwired.rejoined hx hd hxd' hpar hadj hl hl',
    hcomplete.rejoined hwired hx hd hxd' hpar hadj hl hl', h.forest.move hbelow hself hother,
    fun i j hij => ?_, fun i hi => ?_⟩
  · have hinfo : (cleanupInfo (s.world.nodes x).info (P.loc y)).self = (s.world.nodes x).info.self :=
      (frame_cleanupInfo _ _).self
    have hswept : ((s.world.swept P x y).silence s.due).nodes x =
        ⟨cleanupInfo (s.world.nodes x).info (P.loc y), [],
          (s.world.nodes x).net.2 ++ [.cleanup (P.loc y)]⟩ := nodes_swept
    have hquiet : ∀ j, (x, j) ∈ s.due ∨ (j, x) ∈ s.due → toward (P.loc j)
        (rejoinMsgs P (cleanupInfo (s.world.nodes x).info (P.loc y)) d) = [] := by
      intro j hj
      refine toward_rejoinMsgs _ ?_
      rintro rfl
      exact hj.elim hxd hdx
    unfold World.cleanup finding
    rw [h.node_eq hx, turn_rejoin (h.wired.node x hx).sim hg (P.pid d), Option.map_some,
      Option.map_some, Option.some.injEq]
    unfold World.rejoined
    unfold rejoinMsgs at hquiet ⊢
    rw [hinfo] at hquiet
    rw [hswept, hinfo]
    exact congrArg (World.hang · x (some d)) (post_silence_post _ _ _ _ _ _ hquiet)
  · obtain ⟨hold, -⟩ := lostIn_filter.1 hij
    have hsilent : v.chan i j = [] ∧ v.chan j i = [] := chan_silence hold
    refine ⟨(chan_rejoined_of_ne ?_).trans hsilent.1, (chan_rejoined_of_ne ?_).trans hsilent.2⟩
    · rintro ⟨rfl, rfl⟩
      exact hxd hold
    · rintro ⟨rfl, rfl⟩
      exact hdx hold
  · by_cases hix : i = x
    · subst hix
      refine .inl ⟨d, hself, ?_⟩
      show ((v.rejoined P i d).nodes i).info.parent = P.loc d
      rw [nodes_rejoined]
      rfl
    · have hnode : (v.rejoined P x d).nodes i = s.world.nodes i :=
        (nodes_rejoined_of_ne hix).trans (nodes_swept_of_ne hix)
      have hsame := hother i hix
      show (∃ p, (v.rejoined P x d).parent i = some p ∧ ((v.rejoined P x d).nodes i).info.parent = P.loc p) ∨
        ((v.rejoined P x d).parent i = none ∧ (((v.rejoined P x d).nodes i).info.parent.pid = 0 ∨
          ∃ z, (i, z) ∈ s.due.filter (· ≠ (x, y)) ∧ ((v.rejoined P x d).nodes i).info.parent = P.loc z))
      simp only [hnode, hsame]
      refine (h.up i hi).imp id fun ⟨hn, hc⟩ => ⟨hn, hc.imp id fun ⟨z, hz, hloc⟩ => ⟨z, ?_, hloc⟩⟩
      exact lostIn_filter.2 ⟨hz, fun hc => hix hc.1⟩

/-! ## Every run -/

/-- **Whatever happens, the backplane endures it.** -/
theorem Endures.step {s s' : Damaged ι} (h : Endures P s) {e : Happening ι} (he : Feasible P s e)
    (hs : s.step P e = some s') : Endures P s' := by
  cases e with
  | act c =>
    obtain ⟨w', hw', rfl⟩ := Option.map_eq_some_iff.1 hs
    exact h.act he hw'
  | lose b =>
    simp only [Damaged.step] at hs
    split at hs
    · cases hs
    · rename_i hb
      cases hs
      exact h.lose hb
  | told x y found =>
    simp only [Damaged.step] at hs
    split at hs
    · rename_i hxy
      split at hs
      · rename_i hg
        obtain ⟨w', hw', rfl⟩ := Option.map_eq_some_iff.1 hs
        cases found with
        | none =>
          obtain ⟨hc, hend⟩ := h.told_root hxy hg
          rw [hw', Option.map_some, Option.some.injEq] at hc
          rwa [hc]
        | some d =>
          obtain ⟨hd, hbelow, hxd, hdx⟩ := he hg d rfl
          obtain ⟨hc, hend⟩ := h.told_found hxy hg hd hbelow hxd hdx
          rw [hw', Option.map_some, Option.some.injEq] at hc
          rwa [hc]
      · rename_i hg
        obtain ⟨hc, hend⟩ := h.told hxy hg
        rw [hc] at hs
        exact Option.some.inj hs ▸ hend
    · cases hs

end

end Backplane
