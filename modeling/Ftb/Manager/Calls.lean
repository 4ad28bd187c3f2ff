import Ftb.Lib.Trace
import Ftb.Manager.Proof.Inv

/-!
# Runs of the manager library

Any sequence of calls after `FTBM_Init`, over any network layer: every send may fail, and a
reconnection may find any parent or none. `reachable_tables` says what the tables are in every
state such a run reaches.
-/

open FTB FTBU FTBN

namespace FTBM

open FTBMI Trace

variable {N : Type} (w : Network N)

/-- A call of a function that changes `FTBMI_info`. -/
inductive Call
  | clientRegister (id : Id)
  | registerSubscription (id : Id) (event : Event)
  | cancelSubscription (id : Id) (event : Event)
  | clientDeregister (id : Id)
  | cleanupConnection (location : LocationId)
  | send (msg : Msg)
  deriving DecidableEq, Repr

def call (a : Manager N) : Call → Option (Manager N)
  | .clientRegister id => some (clientRegister w id a).2
  | .registerSubscription id event => some (registerSubscription w id event a).2
  | .cancelSubscription id event => some (cancelSubscription w id event a).2
  | .clientDeregister id => some (clientDeregister w id a).2
  | .cleanupConnection location => some (cleanupConnection w location a).2
  | .send msg => (send w msg a).map Prod.snd

/-- The state after `FTBM_Init` and the calls. -/
def runCalls (leaf : Bool) (location : LocationId) (net : N) (calls : List Call) :
    Option (Manager N) :=
  calls.foldlM (call w) (init w leaf location net).2

theorem inv_blankInfo (leaf : Bool) (location : LocationId) : Inv (blankInfo leaf location) := by
  refine ⟨?_, ?_, ?_, ?_, ?_⟩ <;> simp [NoEmpty, AllRefs, blankInfo]

theorem inv_init (leaf : Bool) (location : LocationId) (net : N) :
    Inv (init w leaf location net).2.info := by
  rw [init_eq]
  have h := (attachInfo_spec (inv_blankInfo leaf location) (initResult w leaf location net).2.1).1
  exact ⟨h.noEmpty, h.held, h.sync, h.fresh, h.addrs⟩

theorem inv_utilReconnect {a : Manager N} (h : Inv a.info) : Inv (utilReconnect w a).info := by
  rw [utilReconnect_eq]
  exact (attachInfo_spec h _).1

/-- Every call keeps the invariant. -/
theorem inv_call {a a' : Manager N} (c : Call) (h : Inv a.info) (hc : call w a c = some a') :
    Inv a'.info := by
  cases c with
  | clientRegister id =>
    cases hc
    rw [clientRegister_eq]
    split
    · exact h.registerInfo id
    · exact h
  | registerSubscription id event =>
    cases hc
    rw [registerSubscription_eq]
    split
    · exact h.subscribeInfo id event
    · exact h
  | cancelSubscription id event =>
    cases hc
    rw [cancelSubscription_eq]
    split
    · exact h.cancelInfo id event
    · exact h
  | clientDeregister id =>
    cases hc
    rcases clientDeregister_cases w id a with ⟨he, -⟩ | ⟨net, -, he | he⟩
    · rw [he]; exact h
    · rw [he]; exact h.dropInfo id
    · rw [he]; exact inv_utilReconnect w (h.dropInfo id)
  | cleanupConnection location =>
    cases hc
    have hcl := (cleanupInfo_spec h location).1
    rcases cleanupConnection_cases w location a with ⟨he, -⟩ | ⟨net, -, he | he⟩
    · rw [he]; exact h
    · rw [he]; exact hcl
    · rw [he]; exact inv_utilReconnect w hcl
  | send msg =>
    obtain ⟨r, hr, rfl⟩ := Option.map_eq_some_iff.1 hc
    obtain ⟨s, net, -, hs, he⟩ := send_cases w hr
    have hi : Inv s := by
      rcases hs with ⟨rfl, -⟩ | rfl
      · exact h
      · exact h.dropInfo msg.dst
    rcases he with he | he
    · rw [he]; exact hi
    · rw [he]; exact inv_utilReconnect w hi

theorem ready_utilReconnect {a : Manager N} (hr : a.info.ready = true) :
    (utilReconnect w a).info.ready = true := by
  have hl : a.info.leaf = false := (NodeInfo.ready_iff.1 hr).2
  rw [utilReconnect_eq, (frame_attachInfo hl _).ready]
  exact hr

/-- An agent stays ready for components. -/
theorem ready_call {a a' : Manager N} {c : Call} (hc : call w a c = some a')
    (hr : a.info.ready = true) : a'.info.ready = true := by
  have after : ∀ {s : NodeInfo} {net : N}, Frame a.info s →
      (a' = ⟨s, net⟩ ∨ a' = utilReconnect w ⟨s, net⟩) → a'.info.ready = true := by
    intro s net hf he
    have hs : s.ready = true := hf.ready.trans hr
    rcases he with rfl | rfl
    · exact hs
    · exact ready_utilReconnect w hs
  cases c with
  | clientRegister id =>
    have he := clientRegister_eq w id a
    rw [if_pos hr, Option.some.inj hc] at he
    exact after (frame_registerInfo a.info id) (.inl he)
  | registerSubscription id event =>
    have he := registerSubscription_eq w id event a
    rw [if_pos hr, Option.some.inj hc] at he
    exact after (frame_subscribeInfo a.info id event) (.inl he)
  | cancelSubscription id event =>
    have he := cancelSubscription_eq w id event a
    rw [if_pos hr, Option.some.inj hc] at he
    exact after (frame_cancelInfo a.info id event) (.inl he)
  | clientDeregister id =>
    have he : (clientDeregister w id a).2 = a' := Option.some.inj hc
    have hcases := clientDeregister_cases w id a
    rw [he] at hcases
    obtain ⟨rfl, -⟩ | ⟨net, -, hend⟩ := hcases
    · exact hr
    · exact after (frame_dropInfo a.info id) hend
  | cleanupConnection location =>
    have he : (cleanupConnection w location a).2 = a' := Option.some.inj hc
    have hcases := cleanupConnection_cases w location a
    rw [he] at hcases
    obtain ⟨rfl, -⟩ | ⟨net, -, hend⟩ := hcases
    · exact hr
    · exact after (frame_cleanupInfo a.info location) hend
  | send msg =>
    obtain ⟨r, hsend, rfl⟩ := Option.map_eq_some_iff.1 hc
    obtain ⟨s, net, -, ⟨rfl, -⟩ | rfl, hend⟩ := send_cases w hsend
    · exact after (.refl a.info) hend
    · exact after (frame_dropInfo a.info msg.dst) hend

theorem inv_runCalls {leaf : Bool} {location : LocationId} {net : N} {calls : List Call}
    {a : Manager N} (h : runCalls w leaf location net calls = some a) : Inv a.info :=
  foldlM_invariant (f := call w) (I := fun a => Inv a.info)
    (fun _ c _ hi hc => inv_call w c hi hc) calls (inv_init w leaf location net) h

/-- What the three linked tables say is one thing. The ids in `peers` are pairwise different, and
so are the masks in `catch_event_map`, none of which has an empty component map; a listed
component is the one in `peers`; and a peer has a mask in its set exactly when it is listed under
it. -/
structure Consistent (s : NodeInfo) : Prop where
  ids : s.peers.nodes.Pairwise fun c d => isEqualFtbId c.id d.id = false ∧ c.addr ≠ d.addr
  masks : s.catchEventMap.nodes.Pairwise fun e e' => isEqualEventMask e.mask e'.mask = false
  nonempty : ∀ ent ∈ s.catchEventMap.nodes, ent.comps.isEmpty = false
  held : ∀ ent ∈ s.catchEventMap.nodes, ∀ r ∈ ent.comps.nodes, ∃ c ∈ s.peers.nodes, c.ref = r
  sync : ∀ c ∈ s.peers.nodes, ∀ m, c.catchEventSet.contains m = true ↔
    ∃ ent ∈ s.catchEventMap.nodes, isEqualEventMask ent.mask m = true ∧ c.ref ∈ ent.comps.nodes

theorem Consistent.of_inv {s : NodeInfo} (h : Inv s) : Consistent s := by
  refine ⟨List.pairwise_and_iff.2 ⟨s.peers.distinct, h.addrs⟩, s.catchEventMap.distinct, ?_, h.held,
    ?_⟩
  · intro ent he
    rw [Bool.eq_false_iff]
    exact fun hn => h.noEmpty ent he (KeyList.isEmpty_iff.1 hn)
  · intro c hc m
    rw [h.sync c hc m, NodeInfo.listed, lists_iff]
    refine ⟨fun ⟨ent, he, hm, r, hr, hid⟩ => ⟨ent, he, hm, ?_⟩,
      fun ⟨ent, he, hm, hr⟩ => ⟨ent, he, hm, c.ref, hr, KeyEq.refl _⟩⟩
    -- the listed component has the id of `c`, so it is `c`
    obtain ⟨d, hd, rfl⟩ := h.held ent he r hr
    rwa [← KeyList.eq_of_mem hd hc hid]

/-- **The tables of every reachable agent state are consistent**, over any network. -/
theorem consistent_runCalls {leaf : Bool} {location : LocationId} {net : N} {calls : List Call}
    {a : Manager N} (h : runCalls w leaf location net calls = some a) : Consistent a.info :=
  .of_inv (inv_runCalls w h)

/-- A client registers and subscribes, and a send to it follows. -/
theorem consistent_runCalls_client : ∃ a, runCalls FTBN.outbox false default []
    [.clientRegister default, .registerSubscription default default,
      .send ⟨.notify, default, default, default⟩] = some a ∧ Consistent a.info := by
  have hs : (runCalls FTBN.outbox false default []
    [.clientRegister default, .registerSubscription default default,
      .send ⟨.notify, default, default, default⟩]).isSome = true := rfl
  obtain ⟨a, ha⟩ := Option.isSome_iff_exists.1 hs
  exact ⟨a, ha, consistent_runCalls FTBN.outbox ha⟩

end FTBM
