import Ftb.Backplane.Proof.Outage

/-!
# What a system keeps that loses a link

Before the loss an agent goes by the parent it has in the tree (`Uplinks`), so the agent that lost it
attaches again and the other end does not. From the loss on, `Torn` holds in every state, whichever
end is told first: the links that are left are wired, the two ends may still keep each other, and the
agents would be a tree again if the agent had its old parent back, until it has a new one. Once both
have been told, `Torn` is `Good`.
-/

open FTB FTBU FTBN FTBMI Trace

namespace Backplane

variable {ι : Type} {P : Places ι}

/-! ## Before the loss -/

/-- Every agent goes by its parent in the tree, if it has one, and no two are each other's. -/
structure Uplinks (P : Places ι) (w : World ι) : Prop where
  up : ∀ i ∈ w.agents, (w.parent i = none ∧ (w.nodes i).info.parent.pid = 0) ∨
    ∃ p, w.parent i = some p ∧ (w.nodes i).info.parent = P.loc p
  once : ∀ c p, w.parent c = some p → w.parent p ≠ some c

theorem uplinks_start (r : ι) : Uplinks P (start P r) :=
  ⟨fun _ _ => .inl ⟨rfl, rfl⟩, nofun⟩

section
variable [DecidableEq ι] {w w' b : World ι} {x n p : ι} {msg : Msg}

theorem Uplinks.turned {incomingSrc : LocationId} (h : Uplinks P w) (ha : Arrives P w x msg b) :
    Uplinks P (b.turned P x msg incomingSrc) := by
  have hagents : (b.turned P x msg incomingSrc).agents = w.agents := ha.agents
  have hparent : (b.turned P x msg incomingSrc).parent = w.parent := ha.parent
  refine ⟨fun i hi => ?_, ?_⟩
  · rw [hagents] at hi
    rw [hparent, parent_turned ha]
    exact h.up i hi
  · rw [hparent]
    exact h.once

theorem Uplinks.joined (h : Uplinks P w) (hw : Wired P w) (hn : n ∉ w.agents)
    (hp : p ∈ w.agents) : Uplinks P (w.joined P n p) := by
  have hpn : p ≠ n := fun he => hn (he ▸ hp)
  have hself : (w.joined P n p).parent n = some p := Function.update_self ..
  have hother : ∀ {i}, i ≠ n → (w.joined P n p).parent i = w.parent i := fun hi =>
    Function.update_of_ne hi ..
  refine ⟨fun i hi => ?_, fun c q hcq hqc => ?_⟩
  · by_cases hin : i = n
    · subst hin
      refine .inr ⟨p, hself, ?_⟩
      rw [nodes_joined, boot_connecting (P.pid p)]
      rfl
    · rw [hother hin, nodes_joined_of_ne hin]
      exact h.up i ((List.mem_cons.1 hi).resolve_left hin)
  · have hnew : ∀ k, w.parent k ≠ some n := fun k hk => hn (hw.edge k n (.inl hk)).2.1
    by_cases hc : c = n
    · subst hc
      obtain rfl : p = q := Option.some.inj (hself.symm.trans hcq)
      rw [hother hpn] at hqc
      exact hnew p hqc
    · rw [hother hc] at hcq
      have hq : q ≠ n := fun hq => hnew c (hq ▸ hcq)
      rw [hother hq] at hqc
      exact h.once c q hcq hqc

theorem Uplinks.act (h : Uplinks P w) (hw : Wired P w) {c : Action ι} (hc : Control P c)
    (ha : act P w c = some w') : Uplinks P w' := by
  obtain ⟨x, msg, b, src, -, harr, rfl, -⟩ | ⟨n, p, hn, hp, rfl⟩ :=
    act_cases hw.but (fun _ _ hl => hl.elim) hc ha
  · exact h.turned harr
  · exact h.joined hw hn hp

end

/-! ## From the loss on -/

/-- `i` has lost its link to `j` and has not been told. -/
def Outage.Lost (o : Outage ι) (i j : ι) : Prop :=
  (o.parentDue = true ∧ i = o.parent ∧ j = o.child) ∨
    (o.childDue = true ∧ i = o.child ∧ j = o.parent)

/-- The links of the tree, with the lost one as long as there is no other in its place. -/
def Outage.Bridged (o : Outage ι) (w : World ι) (i j : ι) : Prop :=
  w.Adj i j ∨ (o.childDue = true ∧
    ((i = o.child ∧ j = o.parent) ∨ (i = o.parent ∧ j = o.child)))

structure Torn (P : Places ι) (w : World ι) (o : Outage ι) : Prop where
  wired : WiredBut P o.Lost w
  complete : Complete P w
  tree : Tree.Rootable (o.Bridged w) (· ∈ w.agents)
  ends : o.child ∈ w.agents ∧ o.parent ∈ w.agents ∧ o.child ≠ o.parent
  apart : ¬w.Adj o.child o.parent
  silent : w.chan o.child o.parent = [] ∧ w.chan o.parent o.child = []
  child : o.childDue = true →
    w.parent o.child = none ∧ (w.nodes o.child).info.parent = P.loc o.parent
  parent : o.parentDue = true →
    isEqualLocationId (w.nodes o.parent).info.parent (P.loc o.child) = false

section
variable {w : World ι} {o : Outage ι}

/-- When both have been told, nothing is left of the loss. -/
theorem Torn.good (h : Torn P w o) (hc : o.childDue = false) (hp : o.parentDue = false) :
    Good P w := by
  have hlost : ∀ i j, ¬o.Lost i j := by
    unfold Outage.Lost
    simp [hc, hp]
  have hadj : o.Bridged w = w.Adj := by
    funext i j
    unfold Outage.Bridged
    simp [hc]
  exact ⟨h.wired.wired hlost (hadj ▸ h.tree), h.complete⟩

theorem Torn.chan_lost (h : Torn P w o) (i j : ι) (hl : o.Lost i j) : w.chan i j = [] := by
  obtain ⟨-, rfl, rfl⟩ | ⟨-, rfl, rfl⟩ := hl
  · exact h.silent.2
  · exact h.silent.1

theorem Outage.Bridged.symm {i j : ι} (h : o.Bridged w i j) : o.Bridged w j i :=
  h.imp World.Adj.symm (And.imp_right fun he => he.symm.imp And.symm And.symm)

end

section
variable [DecidableEq ι] {w w' : World ι} {o : Outage ι} {a b d : ι}

/-- The loss. -/
theorem Good.torn (h : Good P w) (hu : Uplinks P w) (hb : w.parent b = some a) :
    Torn P (w.severed b a) ⟨b, a, true, true⟩ := by
  have ha : w.parent a ≠ some b := hu.once b a hb
  obtain ⟨hbm, ham, hne⟩ := h.wired.edge b a (.inl hb)
  have hlost : (⟨b, a, true, true⟩ : Outage ι).Lost = Ends a b := by
    funext i j
    unfold Outage.Lost Ends
    simp only [true_and]
  have hbridged : (⟨b, a, true, true⟩ : Outage ι).Bridged (w.severed b a) = w.Adj := by
    funext i j
    unfold Outage.Bridged
    rw [adj_severed hb ha, eq_iff_iff]
    have hends : Ends a b i j → w.Adj i j := by
      rintro (⟨rfl, rfl⟩ | ⟨rfl, rfl⟩)
      · exact .inr hb
      · exact .inl hb
    have hswap : (i = b ∧ j = a) ∨ (i = a ∧ j = b) ↔ Ends a b i j := or_comm
    simp only [true_and, hswap]
    refine ⟨fun hij => hij.elim And.left hends, fun hij => ?_⟩
    by_cases he : Ends a b i j
    · exact .inr he
    · exact .inl ⟨hij, he⟩
  refine ⟨?_, h.complete.severed hb ha, ?_, ⟨hbm, ham, hne⟩, not_adj_severed hb ha, chan_cut_self,
    fun _ => ⟨Function.update_self .., ?_⟩, fun _ => ?_⟩
  · rw [hlost]
    exact h.wired.severed hb ha
  · rw [hbridged]
    exact h.wired.tree
  · obtain ⟨hn, -⟩ | ⟨q, hq, hloc⟩ := hu.up b hbm
    · rw [hb] at hn
      cases hn
    · obtain rfl : a = q := Option.some.inj (hb.symm.trans hq)
      exact hloc
  · show isEqualLocationId (w.nodes a).info.parent (P.loc b) = false
    obtain ⟨-, hpid⟩ | ⟨q, hq, hloc⟩ := hu.up a ham
    · unfold isEqualLocationId
      rw [hpid, beq_eq_false_iff_ne.2 (P.pid b).symm, Bool.false_and, Bool.false_and]
    · rw [hloc, Bool.eq_false_iff]
      exact fun he => ha (P.distinct q b he ▸ hq)

/-- What the backplane does meanwhile. -/
theorem Torn.act (h : Torn P w o) {c : Action ι} (hc : Control P c) (ha : act P w c = some w') :
    Torn P (w'.cut o.child o.parent) o := by
  obtain ⟨hcm, hpm, hne⟩ := h.ends
  obtain ⟨x, msg, b, src, hx, harr, rfl, -⟩ | ⟨n, p, hn, hp, rfl⟩ :=
    act_cases h.wired h.chan_lost hc ha
  · have hadj : (b.turned P x msg src).Adj = w.Adj := by
      funext i j
      exact propext (adj_turned harr)
    have hagents : (b.turned P x msg src).agents = w.agents := harr.agents
    have hparent : (b.turned P x msg src).parent = w.parent := harr.parent
    have hapart : ¬(b.turned P x msg src).Adj o.child o.parent := by
      rw [hadj]
      exact h.apart
    have hbridged : o.Bridged ((b.turned P x msg src).cut o.child o.parent) = o.Bridged w := by
      funext i j
      exact congrArg (· ∨ _) (congrFun (congrFun hadj i) j)
    refine ⟨(h.wired.turned hx harr).cut hapart, (h.complete.turned h.wired hx harr).cut hapart, ?_,
      ?_, hapart, chan_cut_self, fun hd => ⟨?_, ?_⟩, fun hd => ?_⟩
    · rw [hbridged]
      exact hagents ▸ h.tree
    · exact hagents ▸ h.ends
    · exact hparent ▸ (h.child hd).1
    · exact (parent_turned harr o.child).trans (h.child hd).2
    · have hsame : ((b.turned P x msg src).nodes o.parent).info.parent =
          (w.nodes o.parent).info.parent := parent_turned harr o.parent
      exact hsame ▸ h.parent hd
  · have hcn : o.child ≠ n := fun he => hn (he ▸ hcm)
    have hpn : o.parent ≠ n := fun he => hn (he ▸ hpm)
    have hadj := adj_joined (p := p) h.wired hn
    have hapart : ¬(w.joined P n p).Adj o.child o.parent := by
      rw [hadj]
      rintro (hadj | ⟨he, -⟩ | ⟨-, he⟩)
      · exact h.apart hadj
      · exact hcn he
      · exact hpn he
    refine ⟨(h.wired.joined hn hp).cut hapart, (h.complete.joined h.wired hn hp).cut hapart, ?_,
      ⟨List.mem_cons_of_mem n hcm, List.mem_cons_of_mem n hpm, hne⟩, hapart, chan_cut_self,
      fun hd => ⟨?_, ?_⟩, fun hd => ?_⟩
    · refine h.tree.grow (fun _ _ => Outage.Bridged.symm) (fun i j hij => ?_) hn hp
        (fun x => List.mem_cons) fun i j => ?_
      · obtain hij | ⟨-, ⟨rfl, rfl⟩ | ⟨rfl, rfl⟩⟩ := hij
        · exact ⟨(h.wired.edge i j hij).1, (h.wired.edge i j hij).2.1⟩
        · exact ⟨hcm, hpm⟩
        · exact ⟨hpm, hcm⟩
      · have hb : o.Bridged ((w.joined P n p).cut o.child o.parent) i j ↔
            o.Bridged (w.joined P n p) i j := Iff.rfl
        rw [hb]
        unfold Outage.Bridged
        rw [hadj]
        exact or_right_comm
    · exact (Function.update_of_ne hcn ..).trans (h.child hd).1
    · show ((w.joined P n p).nodes o.child).info.parent = P.loc o.parent
      rw [nodes_joined_of_ne hcn]
      exact (h.child hd).2
    · show isEqualLocationId ((w.joined P n p).nodes o.parent).info.parent (P.loc o.child) = false
      rw [nodes_joined_of_ne hpn]
      exact h.parent hd

/-! ## The two cleanups -/

omit [DecidableEq ι] in
theorem Torn.node_eq (h : Torn P w o) {i : ι} (hi : i ∈ w.agents) :
    w.nodes i = ⟨(w.nodes i).info, [], (w.nodes i).net.2⟩ := by
  rw [← (h.wired.node i hi).idle]

/-- The turn of the end above. -/
theorem Torn.cleanup_parent (h : Torn P w o) (hp : o.parentDue = true) :
    w.cleanup P outbox o.parent o.child = some (w.swept P o.parent o.child) := by
  have hm := h.ends.2.1
  unfold World.cleanup
  rw [h.node_eq hm, turn_cleanup (h.wired.node _ hm).sim (h.parent hp)]
  rfl

/-- What a turn sends to others than `a` may as well be sent after the link to `a` is lost. -/
theorem post_cut_post (s s' : NodeInfo) (l l' : List Msg) (hist hist' : List Agent.Incident)
    (ha : toward (P.loc a) l' = []) :
    (w.post P b ⟨s', l ++ l', hist'⟩).cut b a =
      ((w.post P b ⟨s, l, hist⟩).cut b a).post P b ⟨s', l', hist'⟩ := by
  refine World.ext ?_ rfl rfl ?_ ?_
  · exact (Function.update_idem ..).symm
  · funext i j
    have hleft : (w.post P b ⟨s', l ++ l', hist'⟩).chan i j =
        if i = b then w.chan i j ++ toward (P.loc j) (l ++ l') else w.chan i j := rfl
    have hinner : (w.post P b ⟨s, l, hist⟩).chan i j =
        if i = b then w.chan i j ++ toward (P.loc j) l else w.chan i j := rfl
    have hright : (((w.post P b ⟨s, l, hist⟩).cut b a).post P b ⟨s', l', hist'⟩).chan i j =
        if i = b then ((w.post P b ⟨s, l, hist⟩).cut b a).chan i j ++ toward (P.loc j) l'
        else ((w.post P b ⟨s, l, hist⟩).cut b a).chan i j := rfl
    rw [chan_cut, hleft, hright, chan_cut, hinner]
    by_cases hi : i = b
    · rw [if_pos hi, if_pos hi, if_pos hi]
      split
      · rename_i hends
        have hj : j = a := by
          obtain ⟨-, hj⟩ | ⟨hia, hj⟩ := hends
          · exact hj
          · exact hj.trans (hi.symm.trans hia)
        rw [hj, ha]
        rfl
      · rw [toward_append, List.append_assoc]
    · rw [if_neg hi, if_neg hi, if_neg hi]
  · have hidem := Function.update_idem (a := b) (w.sent b ++ l) (w.sent b ++ (l ++ l')) w.sent
    have hself : ((w.post P b ⟨s, l, hist⟩).cut b a).sent b = w.sent b ++ l :=
      Function.update_self ..
    show Function.update w.sent b (w.sent b ++ (l ++ l')) = Function.update
      (Function.update w.sent b (w.sent b ++ l)) b
        (((w.post P b ⟨s, l, hist⟩).cut b a).sent b ++ l')
    rw [hself, List.append_assoc, hidem]

/-- The turn of the end below: a cleanup, then the attachment. -/
theorem Torn.cleanup_child (h : Torn P w o) (hc : o.childDue = true) (hd : d ≠ o.parent) :
    (w.cleanup P (rejoining (P.loc d)) o.child o.parent).map
        (fun w' => (w'.cut o.child o.parent).hang o.child (some d)) =
      some (((w.swept P o.child o.parent).cut o.child o.parent).rejoined P o.child d) := by
  have hm := h.ends.1
  have hloc : isEqualLocationId (w.nodes o.child).info.parent (P.loc o.parent) = true := by
    rw [(h.child hc).2]
    exact KeyEq.refl (P.loc o.parent)
  have hself : (cleanupInfo (w.nodes o.child).info (P.loc o.parent)).self =
      (w.nodes o.child).info.self := (frame_cleanupInfo _ _).self
  have hswept : ((w.swept P o.child o.parent).cut o.child o.parent).nodes o.child =
      ⟨cleanupInfo (w.nodes o.child).info (P.loc o.parent), [],
        (w.nodes o.child).net.2 ++ [.cleanup (P.loc o.parent)]⟩ := nodes_swept
  unfold World.cleanup
  rw [h.node_eq hm, turn_rejoin (h.wired.node _ hm).sim hloc (P.pid d), Option.map_some,
    Option.map_some, Option.some.injEq]
  have hother := toward_rejoinMsgs (P := P) (cleanupInfo (w.nodes o.child).info (P.loc o.parent))
    hd.symm
  unfold World.rejoined
  unfold rejoinMsgs at hother ⊢
  rw [hself] at hother
  rw [hswept, hself]
  exact congrArg (World.hang · o.child (some d)) (post_cut_post _ _ _ _ _ _ hother)

/-- The end above is done with the link. -/
theorem Torn.told_parent {b a : ι} {childDue : Bool} (h : Torn P w ⟨b, a, childDue, true⟩) :
    Torn P ((w.swept P a b).cut b a) ⟨b, a, childDue, false⟩ := by
  obtain ⟨hb, ha, hne⟩ := h.ends
  have hba : ¬w.Adj b a := h.apart
  have hlost : ∀ i j, (⟨b, a, childDue, false⟩ : Outage ι).Lost i j ↔
      (⟨b, a, childDue, true⟩ : Outage ι).Lost i j ∧ ¬(i = a ∧ j = b) := by
    intro i j
    unfold Outage.Lost
    constructor
    · rintro (⟨hf, -⟩ | ⟨hc, rfl, rfl⟩)
      · cases hf
      · exact ⟨.inr ⟨hc, rfl, rfl⟩, fun he => hne he.1⟩
    · rintro ⟨⟨-, hij⟩ | hc, hn⟩
      · exact absurd hij hn
      · exact .inr hc
  have hnodes : ((w.swept P a b).cut b a).nodes b = w.nodes b := nodes_swept_of_ne hne
  refine ⟨?_, ?_, h.tree, ⟨hb, ha, hne⟩, hba, chan_cut_self, fun hc => ?_, nofun⟩
  · rw [cut_comm]
    exact h.wired.swept ha (.inl ⟨rfl, rfl, rfl⟩) hlost
  · rw [cut_comm]
    exact h.complete.swept h.wired ha fun hab => hba hab.symm
  · rw [hnodes]
    exact h.child hc

omit [DecidableEq ι] in
/-- Without a parent, an agent is joined by links only to those below it. -/
theorem below_of_path {b x : ι} (hb : w.parent b = none)
    (hp : Relation.ReflTransGen w.Adj x b) : w.Below x b := by
  induction hp using Relation.ReflTransGen.head_induction_on with
  | refl => exact .refl
  | head hxy _ ih =>
    obtain hxy | hyx := hxy
    · exact .head hxy ih
    · obtain rfl | ⟨z, hyz, hz⟩ := ih.cases_head
      · rw [hb] at hyx
        cases hyx
      · rw [hyx] at hyz
        exact Option.some.inj hyz ▸ hz

/-- The end below has another parent. -/
theorem Torn.told_child {b a : ι} {parentDue : Bool} (h : Torn P w ⟨b, a, true, parentDue⟩)
    (hd : d ∈ w.agents) (hda : d ≠ a) (hbelow : ¬w.Below d b) :
    Torn P (((w.swept P b a).cut b a).rejoined P b d) ⟨b, a, false, parentDue⟩ := by
  obtain ⟨hb, ha, hne⟩ := h.ends
  obtain ⟨hpar, -⟩ := h.child rfl
  have hba : ¬w.Adj b a := h.apart
  have hbd : b ≠ d := by
    rintro rfl
    exact hbelow .refl
  have hnot : ¬w.Adj b d := by
    rintro (hp | hp)
    · rw [hpar] at hp
      cases hp
    · exact hbelow (.single hp)
  have hlost : ∀ i j, (⟨b, a, false, parentDue⟩ : Outage ι).Lost i j ↔
      (⟨b, a, true, parentDue⟩ : Outage ι).Lost i j ∧ ¬(i = b ∧ j = a) := by
    intro i j
    unfold Outage.Lost
    constructor
    · rintro (⟨hp, rfl, rfl⟩ | ⟨hf, -⟩)
      · exact ⟨.inl ⟨hp, rfl, rfl⟩, fun he => hne he.1.symm⟩
      · cases hf
    · rintro ⟨hp | ⟨-, hij⟩, hn⟩
      · exact .inl hp
      · exact absurd hij hn
  have hlostd : ∀ i j, (⟨b, a, false, parentDue⟩ : Outage ι).Lost i j → i = a ∧ j = b := by
    rintro i j (⟨-, hij⟩ | ⟨hf, -⟩)
    · exact hij
    · cases hf
  let v := (w.swept P b a).cut b a
  have hv : WiredBut P (⟨b, a, false, parentDue⟩ : Outage ι).Lost v :=
    h.wired.swept hb (.inr ⟨rfl, rfl, rfl⟩) hlost
  have hcv : Complete P v := h.complete.swept h.wired hb hba
  have hl : ¬(⟨b, a, false, parentDue⟩ : Outage ι).Lost b d := fun hl => hne (hlostd b d hl).1
  have hl' : ¬(⟨b, a, false, parentDue⟩ : Outage ι).Lost d b := fun hl => hda (hlostd d b hl).1
  have hadj : ∀ i j, (v.rejoined P b d).Adj i j ↔
      w.Adj i j ∨ (i = b ∧ j = d) ∨ (i = d ∧ j = b) := adj_rejoined hpar
  have hsilent : v.chan b a = [] ∧ v.chan a b = [] := chan_cut_self
  refine ⟨hv.rejoined hb hd hbd hpar hnot hl hl', hcv.rejoined hv hb hd hbd hpar hnot hl hl', ?_,
    ⟨hb, ha, hne⟩, ?_, ⟨?_, ?_⟩, nofun, fun hp => ?_⟩
  · have htree : Tree.Rootable (fun i j => w.Adj i j ∨ (i = b ∧ j = a) ∨ (i = a ∧ j = b))
        (· ∈ w.agents) := by
      have ht := h.tree
      unfold Outage.Bridged at ht
      simpa only [true_and] using ht
    refine htree.move (fun _ _ => World.Adj.symm) ha hd hba
      (fun hp => hbelow (below_of_path hpar hp)) fun i j => ?_
    unfold Outage.Bridged
    rw [← hadj]
    exact or_iff_left fun hf => Bool.false_ne_true hf.1
  · rw [hadj]
    rintro (hab | ⟨-, he⟩ | ⟨he, -⟩)
    · exact hba hab
    · exact hda he.symm
    · exact hbd he
  · rw [chan_rejoined_of_ne fun hc => hda hc.2.symm]
    exact hsilent.1
  · rw [chan_rejoined_of_ne fun hc => hne hc.1.symm]
    exact hsilent.2
  · have hnodes : (v.rejoined P b d).nodes a = w.nodes a :=
      (nodes_rejoined_of_ne hne.symm).trans (nodes_swept_of_ne hne.symm)
    rw [hnodes]
    exact h.parent hp

/-! ## Every system -/

/-- The invariant of every run. -/
def System.Sane (P : Places ι) (s : System ι) : Prop :=
  match s.outage with
  | none => Good P s.world ∧ Uplinks P s.world
  | some o => Torn P s.world o

theorem System.Sane.step {s s' : System ι} (h : s.Sane P) {m : Move ι} (hm : Allowed P s m)
    (hs : s.step P m = some s') : s'.Sane P := by
  obtain ⟨w, outage⟩ := s
  cases m with
  | act c =>
    obtain ⟨w', hw', rfl⟩ := Option.map_eq_some_iff.1 hs
    cases outage with
    | none => exact ⟨h.1.act hm hw', h.2.act h.1.wired hm hw'⟩
    | some o => exact Torn.act h hm hw'
  | lose b =>
    simp only [System.step] at hs
    split at hs
    · rename_i hb
      cases hs
      exact h.1.torn h.2 hb
    · cases hs
  | cleanParent =>
    simp only [System.step] at hs
    split at hs
    · rename_i b a childDue
      have hc := Torn.cleanup_parent (o := ⟨b, a, childDue, true⟩) h rfl
      rw [hc] at hs
      cases hs
      exact Torn.told_parent h
    · cases hs
  | cleanChild d =>
    simp only [System.step] at hs
    split at hs
    · rename_i b a parentDue
      obtain ⟨hd, hda, hbelow⟩ := hm _ rfl
      obtain ⟨w', hw', rfl⟩ := Option.map_eq_some_iff.1 hs
      have hc := Torn.cleanup_child (o := ⟨b, a, true, parentDue⟩) h rfl hda
      rw [hw', Option.map_some, Option.some.injEq] at hc
      have ht := Torn.told_child h hd hda hbelow
      rw [← hc] at ht
      exact ht
    · cases hs

theorem Survived.sane {s : System ι} (h : Survived P s) : s.Sane P :=
  Reachable.invariant (I := System.Sane P)
    (fun _ ⟨r, hr⟩ => hr ▸ ⟨good_start r, uplinks_start r⟩)
    (fun _ _ hs ⟨_, hm, hstep⟩ => hs.step hm hstep) h

end

end Backplane
