import Ftb.Lib.Tree
import Ftb.Backplane.Proof.Turn

/-!
# The invariant of the backplane

`Wired w`: the agents are a tree, every agent has its clients and its neighbours in `peers`, and a
link is either known at both ends or its child has just been started and its registration is on the
way (`Link`). The bit of one agent about its neighbour, as it will be when the channel between them is
empty, is `World.view`; `Complete w` says that it is set whenever it should be, `Sound w` that it is
cleared whenever it should be. A message that arrives changes no bit of its receiver, and the messages
of a turn change those of the neighbours as `complete_react` and `sound_react` say. A turn keeps all
this also while links are lost and not all agents have been told (`WiredBut`).
-/

open FTB FTBU FTBN FTBMI Trace

namespace Backplane

variable {ι : Type} {P : Places ι}

attribute [ext] World

/-- The bit that `j` will have about `i`. -/
def World.view (P : Places ι) (w : World ι) (i j : ι) (mask : Event) : Prop :=
  hears mask ((w.nodes j).info.listed (P.agent i) mask = true) (w.chan i j)

/-- Messages of an agent to a neighbour that has it in `peers`. -/
def Plain (P : Places ι) (i : ι) (msgs : List Msg) : Prop :=
  ∀ msg ∈ msgs, msg.src = P.agent i ∧
    (msg.msgType = .regSubscription ∨ msg.msgType = .subscriptionCancel)

/-- Both ends of the link know each other. -/
structure Known (P : Places ι) (w : World ι) (c p : ι) : Prop where
  up : (w.nodes c).info.isPeer (P.agent p) = true
  down : (w.nodes p).info.isPeer (P.agent c) = true
  plainUp : Plain P c (w.chan c p)
  plainDown : Plain P p (w.chan p c)

/-- The registration of the child is on its way. -/
structure Greeting (P : Places ι) (w : World ι) (c p : ι) : Prop where
  up : (w.nodes c).info.isPeer (P.agent p) = true
  down : (w.nodes p).info.isPeer (P.agent c) = false
  first : ∃ msg rest, w.chan c p = msg :: rest ∧ msg.src = P.agent c ∧ msg.msgType = .clientReg ∧
    Plain P c rest
  silent : w.chan p c = []
  unlisted : ∀ mask, (w.nodes c).info.listed (P.agent p) mask = false

def Link (P : Places ι) (w : World ι) (c p : ι) : Prop := Known P w c p ∨ Greeting P w c p

/-- An agent between two turns. -/
structure Node (P : Places ι) (w : World ι) (i : ι) : Prop where
  sim : Agent.Sim (w.nodes i).info (w.nodes i).net.2
  idle : (w.nodes i).net.1 = []
  self : (w.nodes i).info.self = P.agent i
  peers : ∀ k, (w.nodes i).info.isPeer k = true →
    P.IsClient k ∨ ∃ j, w.Adj i j ∧ isEqualFtbId k (P.agent j) = true

structure Wired (P : Places ι) (w : World ι) : Prop where
  tree : Tree.Rootable w.Adj (· ∈ w.agents)
  edge : ∀ i j, w.Adj i j → i ∈ w.agents ∧ j ∈ w.agents ∧ i ≠ j
  node : ∀ i ∈ w.agents, Node P w i
  link : ∀ c p, w.parent c = some p → Link P w c p
  away : ∀ i j, ¬w.Adj i j → w.chan i j = []

/-- An agent between two turns, some of whose links may be lost without its having been told. -/
structure NodeBut (P : Places ι) (lost : ι → ι → Prop) (w : World ι) (i : ι) : Prop where
  sim : Agent.Sim (w.nodes i).info (w.nodes i).net.2
  idle : (w.nodes i).net.1 = []
  self : (w.nodes i).info.self = P.agent i
  peers : ∀ k, (w.nodes i).info.isPeer k = true →
    P.IsClient k ∨ ∃ j, (w.Adj i j ∨ lost i j) ∧ isEqualFtbId k (P.agent j) = true

/-- `Wired`, when `lost i j` says that `i` has lost its link to `j` and has not been told. Whether the
links that are left form a tree is left open. -/
structure WiredBut (P : Places ι) (lost : ι → ι → Prop) (w : World ι) : Prop where
  edge : ∀ i j, w.Adj i j → i ∈ w.agents ∧ j ∈ w.agents ∧ i ≠ j
  node : ∀ i ∈ w.agents, NodeBut P lost w i
  link : ∀ c p, w.parent c = some p → Link P w c p
  away : ∀ i j, ¬w.Adj i j → ¬lost i j → w.chan i j = []
  gone : ∀ i j, lost i j → i ∈ w.agents ∧ j ∈ w.agents ∧ ¬w.Adj i j

/-- No link is lost. -/
def NoneLost (_ _ : ι) : Prop := False

/-- Every neighbour will list an agent under the masks that others than it have there. -/
def Complete (P : Places ι) (w : World ι) : Prop :=
  ∀ i j, w.Adj i j → (w.nodes i).info.isPeer (P.agent j) = true → ∀ mask,
    others (w.nodes i).info (P.agent j) mask → w.view P i j mask

/-- And under no others. -/
def Sound (P : Places ι) (w : World ι) : Prop :=
  ∀ i j, w.Adj i j → (w.nodes i).info.isPeer (P.agent j) = true → ∀ mask,
    w.view P i j mask → others (w.nodes i).info (P.agent j) mask

/-! ## Identities -/

theorem World.Adj.symm {w : World ι} {i j : ι} (h : w.Adj i j) : w.Adj j i := Or.symm h

theorem isAgent_agent (i : ι) : isAgent (P.agent i) = true := isAgent_agentId (P.loc i)

/-- Different agents have different ids. -/
theorem agent_ne {i j : ι} (h : i ≠ j) : isEqualFtbId (P.agent i) (P.agent j) = false := by
  rw [Bool.eq_false_iff]
  exact fun he => h (P.distinct i j (isEqualLocationId_of_ftbId he))

theorem eq_of_agent_eq {i j : ι} (h : isEqualFtbId (P.agent i) (P.agent j) = true) : i = j :=
  P.distinct i j (isEqualLocationId_of_ftbId h)

theorem agent_self (i : ι) : isEqualFtbId (P.agent i) (P.agent i) = true := KeyEq.refl (P.agent i)

theorem Places.IsClient.ne_agent {id : Id} (h : P.IsClient id) (i : ι) :
    isEqualFtbId id (P.agent i) = false := by
  rw [Bool.eq_false_iff]
  intro he
  have hl : isEqualLocationId id.locationId (P.agent i).locationId = false := h.1 i
  rw [isEqualLocationId_of_ftbId he] at hl
  cases hl

section
variable {lost : ι → ι → Prop} {w : World ι} {i j : ι}

theorem Node.but (h : Node P w i) : NodeBut P NoneLost w i :=
  ⟨h.sim, h.idle, h.self, fun k hk => (h.peers k hk).imp_right fun ⟨j, hj, he⟩ => ⟨j, .inl hj, he⟩⟩

theorem NodeBut.node (h : NodeBut P lost w i) (hl : ∀ j, ¬lost i j) : Node P w i :=
  ⟨h.sim, h.idle, h.self, fun k hk =>
    (h.peers k hk).imp_right fun ⟨j, hj, he⟩ => ⟨j, hj.resolve_right (hl j), he⟩⟩

/-- An agent that does nothing, while its links may change. -/
theorem NodeBut.same {lost' : ι → ι → Prop} {w' : World ι} (h : NodeBut P lost w i)
    (hnode : w'.nodes i = w.nodes i)
    (hlinks : ∀ j, w.Adj i j ∨ lost i j → w'.Adj i j ∨ lost' i j) : NodeBut P lost' w' i := by
  refine ⟨?_, ?_, ?_, fun k hk => ?_⟩ <;> rw [hnode] at *
  · exact h.sim
  · exact h.idle
  · exact h.self
  · exact (h.peers k hk).imp_right fun ⟨j, hj, he⟩ => ⟨j, hlinks j hj, he⟩

theorem Wired.but (h : Wired P w) : WiredBut P NoneLost w :=
  ⟨h.edge, fun i hi => (h.node i hi).but, h.link, fun i j hn _ => h.away i j hn,
    fun _ _ hl => hl.elim⟩

theorem WiredBut.wired (h : WiredBut P lost w) (hl : ∀ i j, ¬lost i j)
    (ht : Tree.Rootable w.Adj (· ∈ w.agents)) : Wired P w :=
  ⟨ht, h.edge, fun i hi => (h.node i hi).node (hl i), h.link, fun i j hn => h.away i j hn (hl i j)⟩

/-- An agent in `peers` is a neighbour, or was one. -/
theorem NodeBut.adj_of_isPeer (h : NodeBut P lost w i)
    (hp : (w.nodes i).info.isPeer (P.agent j) = true) : w.Adj i j ∨ lost i j := by
  obtain hc | ⟨k, hk, he⟩ := h.peers (P.agent j) hp
  · have hne := hc.ne_agent j
    rw [agent_self] at hne
    cases hne
  · exact eq_of_agent_eq he ▸ hk

theorem Node.adj_of_isPeer (h : Node P w i)
    (hp : (w.nodes i).info.isPeer (P.agent j) = true) : w.Adj i j :=
  (h.but.adj_of_isPeer hp).resolve_right id

/-- Nobody in `peers` but the agent itself is in its process. -/
theorem NodeBut.eq_agent_of_location (h : NodeBut P lost w i) {k : Id}
    (hp : (w.nodes i).info.isPeer k = true)
    (hl : isEqualLocationId k.locationId (P.loc j) = true) : isEqualFtbId k (P.agent j) = true := by
  obtain hc | ⟨v, -, he⟩ := h.peers k hp
  · rw [hc.1 j] at hl
    cases hl
  · have hv : isEqualLocationId (P.agent v).locationId (P.loc j) = true := by
      rwa [← KeyEq.congr_left (isEqualLocationId_of_ftbId he)]
    exact P.distinct v j hv ▸ he

end

/-! ## Links -/

section
variable {w w' : World ι} {c p : ι}

theorem Plain.nil (i : ι) : Plain P i [] := fun _ hm => absurd hm List.not_mem_nil

theorem Plain.append {i : ι} {l₁ l₂ : List Msg} (h₁ : Plain P i l₁) (h₂ : Plain P i l₂) :
    Plain P i (l₁ ++ l₂) := fun msg hm => (List.mem_append.1 hm).elim (h₁ msg) (h₂ msg)

/-- A link stays one when the ends go on sending plain messages, the parent not before it knows the
child. -/
theorem Link.extend {up down : List Msg} (hl : Link P w c p)
    (hc : (w'.nodes c).info.isPeer (P.agent p) = (w.nodes c).info.isPeer (P.agent p))
    (hp : (w'.nodes p).info.isPeer (P.agent c) = (w.nodes p).info.isPeer (P.agent c))
    (hlisted : ∀ mask,
      (w'.nodes c).info.listed (P.agent p) mask = (w.nodes c).info.listed (P.agent p) mask)
    (hcp : w'.chan c p = w.chan c p ++ up) (hup : Plain P c up)
    (hpc : w'.chan p c = w.chan p c ++ down) (hdown : Plain P p down)
    (hnone : (w.nodes p).info.isPeer (P.agent c) = false → down = []) : Link P w' c p := by
  obtain hk | hg := hl
  · refine .inl ⟨hc.trans hk.up, hp.trans hk.down, ?_, ?_⟩
    · rw [hcp]
      exact hk.plainUp.append hup
    · rw [hpc]
      exact hk.plainDown.append hdown
  · obtain ⟨msg, rest, hm, hs, ht, hrest⟩ := hg.first
    refine .inr ⟨hc.trans hg.up, hp.trans hg.down, ⟨msg, rest ++ up, ?_, hs, ht, hrest.append hup⟩,
      ?_, fun mask => (hlisted mask).trans (hg.unlisted mask)⟩
    · rw [hcp, hm, List.cons_append]
    · rw [hpc, hg.silent, hnone hg.down]
      rfl

theorem Link.congr (hl : Link P w c p) (hc : w'.nodes c = w.nodes c) (hp : w'.nodes p = w.nodes p)
    (hcp : w'.chan c p = w.chan c p) (hpc : w'.chan p c = w.chan p c) : Link P w' c p :=
  hl.extend (by rw [hc]) (by rw [hp]) (fun mask => by rw [hc])
    (hcp.trans (List.append_nil _).symm) (Plain.nil c) (hpc.trans (List.append_nil _).symm)
    (Plain.nil p) fun _ => rfl

end

/-! ## Clients -/

theorem Places.IsClient.isAgent {id : Id} (h : P.IsClient id) : isAgent id = false :=
  isAgent_of_not_name h.2

theorem Places.IsClient.congr {id k : Id} (h : P.IsClient id) (he : isEqualFtbId id k = true) :
    P.IsClient k := by
  refine ⟨fun i => ?_, (isManagerNameCase_congr he).symm.trans h.2⟩
  rw [← KeyEq.congr_left (isEqualLocationId_of_ftbId he)]
  exact h.1 i

/-- Whoever sends to an agent from its process is the agent. -/
def FromHere (P : Places ι) (id : Id) : Prop :=
  ∀ k, isEqualLocationId id.locationId (P.loc k) = true → isEqualFtbId id (P.agent k) = true

theorem Places.IsClient.fromHere {id : Id} (h : P.IsClient id) : FromHere P id := by
  intro k hk
  rw [h.1 k] at hk
  cases hk

theorem fromHere_agent (i : ι) : FromHere P (P.agent i) := by
  intro k hk
  rw [P.distinct i k hk]
  exact agent_self k

/-! ## A message arrives -/

section
variable [DecidableEq ι] {w b : World ι} {x c p : ι} {msg : Msg}

/-- The world after the turn of `x` on the message. -/
def World.turned (P : Places ι) (b : World ι) (x : ι) (msg : Msg) (incomingSrc : LocationId) :
    World ι :=
  b.post P x ⟨reactInfo (b.nodes x).info msg, reactMsgs (b.nodes x).info msg,
    (b.nodes x).net.2 ++ Agent.incidents msg incomingSrc⟩

/-- The message comes from a client, or was the first in the channel of a neighbour; `b` is the world
without it. -/
inductive Arrives (P : Places ι) (w : World ι) (x : ι) (msg : Msg) : World ι → Prop
  | client : P.IsClient msg.src → msg.msgType ≠ .notify → msg.msgType ≠ .cleanupConn →
      Arrives P w x msg w
  | agent (i : ι) (rest : List Msg) : w.Adj i x → w.chan i x = msg :: rest →
      msg.src = P.agent i →
      (((msg.msgType = .regSubscription ∨ msg.msgType = .subscriptionCancel) ∧
          (w.nodes x).info.isPeer (P.agent i) = true) ∨
        (msg.msgType = .clientReg ∧ Greeting P w i x)) →
      Arrives P w x msg (w.drain i x rest)

namespace Arrives

theorem nodes (h : Arrives P w x msg b) : b.nodes = w.nodes := by cases h <;> rfl

theorem agents (h : Arrives P w x msg b) : b.agents = w.agents := by cases h <;> rfl

theorem parent (h : Arrives P w x msg b) : b.parent = w.parent := by cases h <;> rfl

theorem fromHere (h : Arrives P w x msg b) : FromHere P msg.src := by
  cases h with
  | client hc => exact hc.fromHere
  | agent i rest _ _ hs => exact hs ▸ fromHere_agent i

/-- A turn on it is one that `turn_react` describes. -/
theorem control (h : Arrives P w x msg b) : msg.msgType ≠ .notify ∧ msg.msgType ≠ .cleanupConn ∧
    (msg.msgType = .clientDereg → P.IsClient msg.src) := by
  cases h with
  | client hc hn hcl => exact ⟨hn, hcl, fun _ => hc⟩
  | agent i rest _ _ _ ht =>
    obtain ⟨ht | ht, -⟩ | ⟨ht, -⟩ := ht <;> rw [ht] <;> simp

theorem chan_of_ne (h : Arrives P w x msg b) {i j : ι} (hj : j ≠ x) : b.chan i j = w.chan i j := by
  cases h with
  | client => rfl
  | agent => exact if_neg fun hc => hj hc.2

theorem chan_suffix (h : Arrives P w x msg b) (i j : ι) : b.chan i j <:+ w.chan i j := by
  cases h with
  | client => exact List.suffix_refl _
  | agent k rest _ hw =>
    unfold World.drain
    simp only
    split
    · rename_i hc
      rw [hc.1, hc.2, hw]
      exact List.suffix_cons msg rest
    · exact List.suffix_refl _

/-- A peer that is an agent stays one. -/
theorem isPeer_kept (h : Arrives P w x msg b) {k : ι}
    (hp : (w.nodes x).info.isPeer (P.agent k) = true) :
    (reactInfo (w.nodes x).info msg).isPeer (P.agent k) = true := by
  cases hk : isEqualFtbId msg.src (P.agent k) with
  | false => rwa [isPeer_react hk]
  | true =>
    have hd : msg.msgType ≠ .clientDereg := by
      intro hd
      rw [(h.control.2.2 hd).ne_agent k] at hk
      cases hk
    unfold reactInfo
    split
    · rw [isPeer_registerInfo, hp, Bool.true_or]
    · exact absurd ‹_› hd
    · rw [isPeer_subscribeInfo, hp]
    · rw [isPeer_cancelInfo, hp]
    · exact hp

/-- An agent that becomes a peer is a neighbour whose registration this is. -/
theorem isPeer_new (h : Arrives P w x msg b) {k : ι}
    (hp : (w.nodes x).info.isPeer (P.agent k) = false)
    (hp' : (reactInfo (w.nodes x).info msg).isPeer (P.agent k) = true) :
    w.Adj k x ∧ msg.src = P.agent k ∧ msg.msgType = .clientReg ∧ Greeting P w k x := by
  have hk := (isPeer_of_react hp').resolve_left (by rw [hp]; decide)
  cases h with
  | client hc =>
    rw [hc.ne_agent k] at hk
    cases hk
  | agent i rest ha hw hs ht =>
    rw [hs] at hk
    obtain rfl := eq_of_agent_eq hk
    obtain ⟨-, hpi⟩ | ⟨ht, hg⟩ := ht
    · rw [hpi] at hp
      cases hp
    · exact ⟨ha, hs, ht, hg⟩

end Arrives

/-! ## The bits after a turn -/

section
variable {incomingSrc : LocationId} {lost : ι → ι → Prop}

theorem adj_turned (ha : Arrives P w x msg b) {i j : ι} :
    (b.turned P x msg incomingSrc).Adj i j ↔ w.Adj i j := by
  show b.parent i = some j ∨ b.parent j = some i ↔ _
  rw [ha.parent]
  exact Iff.rfl

theorem nodes_turned : (b.turned P x msg incomingSrc).nodes x =
    ⟨reactInfo (b.nodes x).info msg, [], (b.nodes x).net.2 ++ Agent.incidents msg incomingSrc⟩ :=
  Function.update_self ..

theorem nodes_turned_of_ne {i : ι} (h : i ≠ x) :
    (b.turned P x msg incomingSrc).nodes i = b.nodes i :=
  Function.update_of_ne h ..

theorem chan_turned (j : ι) : (b.turned P x msg incomingSrc).chan x j =
    b.chan x j ++ toward (P.loc j) (reactMsgs (b.nodes x).info msg) :=
  if_pos rfl

theorem chan_turned_of_ne {i : ι} (h : i ≠ x) (j : ι) :
    (b.turned P x msg incomingSrc).chan i j = b.chan i j :=
  if_neg h

/-- The sender of a message meant what its receiver lists afterwards. -/
theorem view_received (h : WiredBut P lost w) (hx : x ∈ w.agents) (ha : Arrives P w x msg b) {j : ι}
    (hj : j ≠ x) (mask : Event) :
    (b.turned P x msg incomingSrc).view P j x mask ↔ w.view P j x mask := by
  have hinv := (h.node x hx).sim.inv
  have hlisted : isEqualFtbId msg.src (P.agent j) = false →
      (reactInfo (w.nodes x).info msg).listed (P.agent j) mask =
        (w.nodes x).info.listed (P.agent j) mask := fun hne => listed_react hinv hne mask
  unfold World.view
  rw [nodes_turned, chan_turned_of_ne hj, ha.nodes]
  have hcontrol := ha.control
  cases ha with
  | client hc => rw [hlisted (hc.ne_agent j)]
  | agent i rest hadj hw hs ht =>
    by_cases hij : i = j
    · subst hij
      have hd : msg.msgType ≠ .clientDereg := by
        obtain ⟨ht | ht, -⟩ | ⟨ht, -⟩ := ht <;> rw [ht] <;> decide
      have hp : msg.msgType = .regSubscription → (w.nodes x).info.isPeer msg.src = true := by
        intro hreg
        obtain ⟨-, hp⟩ | ⟨ht, -⟩ := ht
        · rwa [hs]
        · rw [ht] at hreg
          cases hreg
      have hrest : (w.drain i x rest).chan i x = rest := if_pos ⟨rfl, rfl⟩
      rw [hrest, hw]
      refine hears_congr mask (listed_react_self hinv hp hd ?_ mask) rest
      rw [hs]
      exact agent_self i
    · have hsame : (w.drain i x rest).chan j x = w.chan j x :=
        if_neg fun hc => hij hc.1.symm
      rw [hsame, hlisted (by rw [hs]; exact agent_ne hij)]

theorem view_sent (ha : Arrives P w x msg b) {k : ι} (hk : k ≠ x) (mask : Event) :
    (b.turned P x msg incomingSrc).view P x k mask ↔
      hears mask (w.view P x k mask) (toward (P.loc k) (reactMsgs (w.nodes x).info msg)) := by
  unfold World.view
  rw [nodes_turned_of_ne hk, chan_turned, ha.chan_of_ne hk, ha.nodes, hears_append]

theorem view_elsewhere (ha : Arrives P w x msg b) {j k : ι} (hj : j ≠ x) (hk : k ≠ x)
    (mask : Event) : (b.turned P x msg incomingSrc).view P j k mask ↔ w.view P j k mask := by
  unfold World.view
  rw [nodes_turned_of_ne hk, chan_turned_of_ne hj, ha.chan_of_ne hk, ha.nodes]

/-- The bit of an agent that has just registered. -/
theorem view_greeted (h : WiredBut P lost w) (ha : Arrives P w x msg b) {k : ι}
    (hx : x ∈ w.agents) (hp : (w.nodes x).info.isPeer (P.agent k) = false)
    (hp' : (reactInfo (w.nodes x).info msg).isPeer (P.agent k) = true) (mask : Event) :
    (b.turned P x msg incomingSrc).view P x k mask ↔
      others (reactInfo (w.nodes x).info msg) (P.agent k) mask := by
  obtain ⟨hadj, hs, ht, hg⟩ := ha.isPeer_new hp hp'
  have hview : w.view P x k mask ↔ False := by
    unfold World.view
    rw [hg.silent, hg.unlisted mask]
    exact iff_of_false Bool.false_ne_true id
  have hmsgs : reactMsgs (w.nodes x).info msg = registerMsgs (w.nodes x).info (P.agent k) := by
    unfold reactMsgs
    rw [ht, hs]
  have hinfo : reactInfo (w.nodes x).info msg = registerInfo (w.nodes x).info (P.agent k) := by
    unfold reactInfo
    rw [ht, hs]
  rw [view_sent ha (h.edge k x hadj).2.2, hmsgs, hinfo]
  exact (hears_congr mask hview _).trans
    (hears_greeting (h.node x hx).sim.inv hp (isAgent_agent k) mask)

/-- A turn keeps every bit set that should be. -/
theorem Complete.turned (hc : Complete P w) (h : WiredBut P lost w) (hx : x ∈ w.agents)
    (ha : Arrives P w x msg b) : Complete P (b.turned P x msg incomingSrc) := by
  intro i j hadj hp mask ho
  replace hadj : w.Adj i j := (adj_turned ha).1 hadj
  obtain ⟨hi, hj, hij⟩ := h.edge i j hadj
  by_cases hix : i = x
  · subst hix
    rw [nodes_turned, ha.nodes] at hp ho
    cases hpeer : (w.nodes i).info.isPeer (P.agent j) with
    | true =>
      refine (view_sent ha (Ne.symm hij) mask).2 (hears_mono mask (hc i j hadj hpeer mask) _ ?_)
      exact complete_react hpeer (isAgent_agent j) (ha.fromHere j) mask ho
    | false => exact (view_greeted h ha hi hpeer hp mask).2 ho
  · rw [nodes_turned_of_ne hix, ha.nodes] at hp ho
    have hv := hc i j hadj hp mask ho
    by_cases hjx : j = x
    · subst hjx
      exact (view_received h hj ha hix mask).2 hv
    · exact (view_elsewhere ha hix hjx mask).2 hv

/-- A turn that strands no mask keeps every bit cleared that should be. -/
theorem Sound.turned (hc : Sound P w) (h : WiredBut P lost w) (hx : x ∈ w.agents)
    (ha : Arrives P w x msg b) (hs : ¬Strands (w.nodes x).info msg) :
    Sound P (b.turned P x msg incomingSrc) := by
  intro i j hadj hp mask hv
  replace hadj : w.Adj i j := (adj_turned ha).1 hadj
  obtain ⟨hi, hj, hij⟩ := h.edge i j hadj
  by_cases hix : i = x
  · subst hix
    rw [nodes_turned, ha.nodes] at hp ⊢
    cases hpeer : (w.nodes i).info.isPeer (P.agent j) with
    | true =>
      have hv := (view_sent ha (Ne.symm hij) mask).1 hv
      exact sound_react hpeer (isAgent_agent j) (ha.fromHere j) hs mask
        (hears_mono mask (hc i j hadj hpeer mask) _ hv)
    | false => exact (view_greeted h ha hi hpeer hp mask).1 hv
  · rw [nodes_turned_of_ne hix, ha.nodes] at hp ⊢
    refine hc i j hadj hp mask ?_
    by_cases hjx : j = x
    · subst hjx
      exact (view_received h hj ha hix mask).1 hv
    · exact (view_elsewhere ha hix hjx mask).1 hv

/-! ## The links after a turn -/

/-- What a turn sends to agents goes to neighbours, or over links that are lost, and they are peers
afterwards. -/
theorem neighbour_of_sent (h : WiredBut P lost w) (hx : x ∈ w.agents) (ha : Arrives P w x msg b)
    {out : Msg} (ho : out ∈ reactMsgs (w.nodes x).info msg) :
    ∃ k, (w.Adj x k ∨ lost x k) ∧ isEqualFtbId out.dst (P.agent k) = true ∧
      (reactInfo (w.nodes x).info msg).isPeer (P.agent k) = true := by
  have hsp := spoken_react ho
  have hclient : ¬P.IsClient out.dst := by
    intro hc
    have hag := hsp.agent
    rw [hc.isAgent] at hag
    cases hag
  obtain hp | ⟨ht, hd⟩ := hsp.dst
  · obtain hc | ⟨k, hk, he⟩ := (h.node x hx).peers out.dst hp
    · exact absurd hc hclient
    · rw [NodeInfo.isPeer_congr he] at hp
      exact ⟨k, hk, he, ha.isPeer_kept hp⟩
  · cases ha with
    | client hc => exact absurd (hd ▸ hc) hclient
    | agent i rest hadj hw hs =>
      have he : isEqualFtbId out.dst (P.agent i) = true := by
        rw [hd, hs]
        exact agent_self i
      refine ⟨i, .inl hadj.symm, he, ?_⟩
      rw [← hs]
      exact isPeer_registered (w.nodes x).info ht

theorem neighbour_of_toward (h : WiredBut P lost w) (hx : x ∈ w.agents) (ha : Arrives P w x msg b) {j : ι}
    {out : Msg} (ho : out ∈ toward (P.loc j) (reactMsgs (w.nodes x).info msg)) :
    (w.Adj x j ∨ lost x j) ∧ (reactInfo (w.nodes x).info msg).isPeer (P.agent j) = true := by
  obtain ⟨ho, hl⟩ := mem_toward.1 ho
  obtain ⟨k, hk, he, hp⟩ := neighbour_of_sent h hx ha ho
  have hkj : isEqualLocationId (P.agent k).locationId (P.loc j) = true := by
    rwa [← KeyEq.congr_left (isEqualLocationId_of_ftbId he)]
  obtain rfl := P.distinct k j hkj
  exact ⟨hk, hp⟩

omit [DecidableEq ι] in
theorem plain_sent (h : WiredBut P lost w) (hx : x ∈ w.agents) (l : LocationId) :
    Plain P x (toward l (reactMsgs (w.nodes x).info msg)) := by
  intro out ho
  have hsp := spoken_react (mem_toward.1 ho).1
  exact ⟨hsp.src.trans (h.node x hx).self, hsp.type⟩

/-- A plain channel stays plain. -/
theorem Plain.turned (h : WiredBut P lost w) (hx : x ∈ w.agents) (ha : Arrives P w x msg b) {i j : ι}
    (hp : Plain P i (w.chan i j)) : Plain P i ((b.turned P x msg incomingSrc).chan i j) := by
  have hb : Plain P i (b.chan i j) := fun m hm => hp m ((ha.chan_suffix i j).subset hm)
  by_cases hi : i = x
  · subst hi
    rw [chan_turned, ha.nodes]
    exact hb.append (plain_sent h hx (P.loc j))
  · rwa [chan_turned_of_ne hi]

/-- The parent that an agent goes by stays the same. -/
theorem parent_turned (ha : Arrives P w x msg b) (i : ι) :
    ((b.turned P x msg incomingSrc).nodes i).info.parent = (w.nodes i).info.parent := by
  by_cases hi : i = x
  · subst hi
    rw [nodes_turned, ha.nodes]
    exact parent_react _ msg
  · rw [nodes_turned_of_ne hi, ha.nodes]

/-- An agent in `peers` stays there. -/
theorem isPeer_turned (ha : Arrives P w x msg b) {i j : ι}
    (hp : (w.nodes i).info.isPeer (P.agent j) = true) :
    ((b.turned P x msg incomingSrc).nodes i).info.isPeer (P.agent j) = true := by
  by_cases hi : i = x
  · subst hi
    rw [nodes_turned, ha.nodes]
    exact ha.isPeer_kept hp
  · rwa [nodes_turned_of_ne hi, ha.nodes]

theorem Known.turned (hk : Known P w c p) (h : WiredBut P lost w) (hx : x ∈ w.agents)
    (ha : Arrives P w x msg b) : Known P (b.turned P x msg incomingSrc) c p :=
  ⟨isPeer_turned ha hk.up, isPeer_turned ha hk.down, hk.plainUp.turned h hx ha,
    hk.plainDown.turned h hx ha⟩

/-- The link is known as soon as the parent handles the registration. -/
theorem Greeting.received {rest : List Msg} (hg : Greeting P w c x) (h : WiredBut P lost w)
    (hx : x ∈ w.agents) (hcx : c ≠ x) (hw : w.chan c x = msg :: rest) (hs : msg.src = P.agent c)
    (ht : msg.msgType = .clientReg) (ha : Arrives P w x msg (w.drain c x rest)) :
    Known P ((w.drain c x rest).turned P x msg incomingSrc) c x := by
  have hplain : Plain P c rest := by
    obtain ⟨m, r, hm, -, -, hr⟩ := hg.first
    rw [hw] at hm
    exact (List.cons.inj hm).2 ▸ hr
  refine ⟨isPeer_turned ha hg.up, ?_, ?_, ?_⟩
  · rw [nodes_turned, ha.nodes, ← hs]
    exact isPeer_registered (w.nodes x).info ht
  · have hrest : (w.drain c x rest).chan c x = rest := if_pos ⟨rfl, rfl⟩
    rwa [chan_turned_of_ne hcx, hrest]
  · rw [chan_turned, ha.chan_of_ne hcx, hg.silent, ha.nodes]
    exact plain_sent h hx (P.loc c)

/-- Until then it stays as it is. -/
theorem Greeting.waiting (hg : Greeting P w c p) (h : WiredBut P lost w) (hx : x ∈ w.agents)
    (hcp : c ≠ p) (ha : Arrives P w x msg b)
    (hn : ¬(p = x ∧ msg.src = P.agent c ∧ msg.msgType = .clientReg)) :
    Greeting P (b.turned P x msg incomingSrc) c p := by
  have hdown : p = x → (reactInfo (w.nodes x).info msg).isPeer (P.agent c) = false := by
    intro hpx
    subst hpx
    rw [Bool.eq_false_iff]
    intro hp'
    obtain ⟨-, hs, ht, -⟩ := ha.isPeer_new hg.down hp'
    exact hn ⟨rfl, hs, ht⟩
  obtain ⟨m, rest, hm, hms, hmt, hrest⟩ := hg.first
  refine ⟨isPeer_turned ha hg.up, ?_, ?_, ?_, ?_⟩
  · by_cases hpx : p = x
    · subst hpx
      rw [nodes_turned, ha.nodes]
      exact hdown rfl
    · rw [nodes_turned_of_ne hpx, ha.nodes]
      exact hg.down
  · -- the registration is not taken out, and only plain messages follow it
    have hb : b.chan c p = m :: rest := by
      rw [← hm]
      by_cases hpx : p = x
      · subst hpx
        cases ha with
        | client => rfl
        | agent i r hadj hw hs =>
          refine if_neg fun hc => ?_
          obtain rfl := hc.1
          rw [hw] at hm
          obtain rfl := (List.cons.inj hm).1
          exact hn ⟨rfl, hms, hmt⟩
      · exact ha.chan_of_ne hpx
    by_cases hcx : c = x
    · subst hcx
      refine ⟨m, rest ++ toward (P.loc p) (reactMsgs (b.nodes c).info msg), ?_, hms, hmt, ?_⟩
      · rw [chan_turned, hb, List.cons_append]
      · rw [ha.nodes]
        exact hrest.append (plain_sent h hx (P.loc p))
    · exact ⟨m, rest, by rw [chan_turned_of_ne hcx, hb], hms, hmt, hrest⟩
  · have hb : b.chan p c = [] := List.suffix_nil.1 (hg.silent ▸ ha.chan_suffix p c)
    by_cases hpx : p = x
    · subst hpx
      rw [chan_turned, hb, ha.nodes, List.nil_append, List.eq_nil_iff_forall_not_mem]
      intro out ho
      have hp' := (neighbour_of_toward h hx ha ho).2
      rw [hdown rfl] at hp'
      cases hp'
    · rw [chan_turned_of_ne hpx, hb]
  · intro mask
    by_cases hcx : c = x
    · subst hcx
      rw [nodes_turned, ha.nodes]
      refine (listed_react (h.node c hx).sim.inv ?_ mask).trans (hg.unlisted mask)
      cases ha with
      | client hcl => exact hcl.ne_agent p
      | agent i r hadj hw hs =>
        rw [hs]
        refine agent_ne fun hip => ?_
        subst hip
        rw [hg.silent] at hw
        cases hw
    · rw [nodes_turned_of_ne hcx, ha.nodes]
      exact hg.unlisted mask

theorem NodeBut.turned {i : ι} (hn : NodeBut P lost w i) (ha : Arrives P w x msg b) :
    NodeBut P lost (b.turned P x msg incomingSrc) i := by
  have hadj : ∀ j, (b.turned P x msg incomingSrc).Adj i j ↔ w.Adj i j := fun j => adj_turned ha
  by_cases hix : i = x
  · subst hix
    obtain ⟨h1, h2, h3⟩ := ha.control
    refine ⟨?_, ?_, ?_, ?_⟩
    · rw [nodes_turned, ha.nodes]
      exact sim_react hn.sim h1 h2 (fun hd => (h3 hd).2) incomingSrc
    · rw [nodes_turned]
    · rw [nodes_turned, ha.nodes]
      exact (self_react _ msg).trans hn.self
    · intro k hk
      rw [nodes_turned, ha.nodes] at hk
      simp only [hadj]
      obtain hp | hk := isPeer_of_react hk
      · exact hn.peers k hp
      · cases ha with
        | client hc => exact .inl (hc.congr hk)
        | agent j rest hj hw hs =>
          rw [hs, KeyEq.comm isEqualFtbId] at hk
          exact .inr ⟨j, .inl hj.symm, hk⟩
  · refine hn.same ?_ fun j hj => hj.imp_left (hadj j).2
    rw [nodes_turned_of_ne hix, ha.nodes]

theorem Link.turned (hl : Link P w c p) (h : WiredBut P lost w) (hx : x ∈ w.agents) (hcp : c ≠ p)
    (ha : Arrives P w x msg b) : Link P (b.turned P x msg incomingSrc) c p := by
  obtain hk | hg := hl
  · exact .inl (hk.turned h hx ha)
  · by_cases hn : p = x ∧ msg.src = P.agent c ∧ msg.msgType = .clientReg
    · obtain ⟨rfl, hs, ht⟩ := hn
      cases ha with
      | client hc =>
        have hcc := hc.ne_agent c
        rw [hs, agent_self] at hcc
        cases hcc
      | agent i rest hi hw hs' ht' =>
        obtain rfl : i = c := by
          refine eq_of_agent_eq (P := P) ?_
          rw [← hs', hs]
          exact agent_self c
        exact .inl (hg.received h hx hcp hw hs ht (.agent i rest hi hw hs' ht'))
    · exact .inr (hg.waiting h hx hcp ha hn)

/-- **A turn keeps the agents wired**, but for the same links. -/
theorem WiredBut.turned (h : WiredBut P lost w) (hx : x ∈ w.agents) (ha : Arrives P w x msg b) :
    WiredBut P lost (b.turned P x msg incomingSrc) := by
  have hadj : (b.turned P x msg incomingSrc).Adj = w.Adj := by
    funext i j
    exact propext (adj_turned ha)
  have hagents : (b.turned P x msg incomingSrc).agents = w.agents := ha.agents
  have hparent : (b.turned P x msg incomingSrc).parent = w.parent := ha.parent
  refine ⟨?_, ?_, ?_, ?_, ?_⟩
  · rw [hadj, hagents]
    exact h.edge
  · intro i hi
    rw [hagents] at hi
    exact (h.node i hi).turned ha
  · intro c p hcp
    rw [hparent] at hcp
    exact (h.link c p hcp).turned h hx (h.edge c p (.inl hcp)).2.2 ha
  · intro i j hij hl
    rw [hadj] at hij
    have hb : b.chan i j = [] := List.suffix_nil.1 (h.away i j hij hl ▸ ha.chan_suffix i j)
    by_cases hix : i = x
    · subst hix
      rw [chan_turned, hb, ha.nodes, List.nil_append, List.eq_nil_iff_forall_not_mem]
      exact fun out ho => (neighbour_of_toward h hx ha ho).1.elim hij hl
    · rw [chan_turned_of_ne hix, hb]
  · rw [hadj, hagents]
    exact h.gone

theorem Wired.turned (h : Wired P w) (hx : x ∈ w.agents) (ha : Arrives P w x msg b) :
    Wired P (b.turned P x msg incomingSrc) := by
  refine (h.but.turned hx ha).wired (fun _ _ => id) ?_
  have hadj : (b.turned P x msg incomingSrc).Adj = w.Adj := by
    funext i j
    exact propext (adj_turned ha)
  have hagents : (b.turned P x msg incomingSrc).agents = w.agents := ha.agents
  rw [hadj, hagents]
  exact h.tree

end

end

end Backplane
