import Ftb.Agent
import Ftb.Manager.Calls

/-!
# The tables are the history

The abstract view of an agent: who is registered and who holds a subscription, read off the
history of what the agent was told (`Incident`) and nothing else. `Registered` and `Holds` are
the specification; `Sim` says that `peers` and `catch_event_map` answer the same, and every step
on the tables keeps it.
-/

open FTB FTBU FTBN FTBMI FTBM Trace

namespace Agent

/-- What an agent is told, or does on its own: `attach` is the registration of its parent. -/
inductive Incident
  | register (id : Id)
  | attach (id : Id)
  | deregister (id : Id)
  | cleanup (location : LocationId)
  | subscribe (id : Id) (mask : Event)
  | cancel (id : Id) (mask : Event)
  deriving DecidableEq, Repr

namespace Incident

/-- It registers a component with this id. -/
def adds : Incident → Id → Bool
  | register j, i => isEqualFtbId j i
  | attach j, i => isEqualFtbId j i
  | _, _ => false

/-- It ends the registration of the component with this id. -/
def removes : Incident → Id → Bool
  | deregister j, i => isEqualFtbId j i
  | cleanup l, i => isEqualLocationId l i.locationId
  | _, _ => false

/-- It subscribes the component to an equal mask. -/
def subscribes : Incident → Id → Event → Bool
  | subscribe j e, i, m => isEqualFtbId j i && isEqualEventMask e m
  | _, _, _ => false

/-- It cancels an equal mask of the component. -/
def cancels : Incident → Id → Event → Bool
  | cancel j e, i, m => isEqualFtbId j i && isEqualEventMask e m
  | _, _, _ => false

end Incident

/-- The component is registered after the history. -/
def Registered (hist : List Incident) (i : Id) : Prop :=
  Since (fun _ x => x.adds i = true) (fun x => x.removes i = true) hist

/-- The component subscribed to an equal mask while it was registered, and since then it neither
cancelled an equal mask nor lost its registration. -/
def Holds (hist : List Incident) (i : Id) (m : Event) : Prop :=
  Since (fun pre x => Registered pre i ∧ x.subscribes i m = true)
    (fun x => x.removes i = true ∨ x.cancels i m = true) hist

theorem registered_concat (hist : List Incident) (x : Incident) (i : Id) :
    Registered (hist ++ [x]) i ↔ x.adds i = true ∨ (Registered hist i ∧ x.removes i = false) := by
  unfold Registered
  rw [since_concat, Bool.not_eq_true]

theorem holds_concat (hist : List Incident) (x : Incident) (i : Id) (m : Event) :
    Holds (hist ++ [x]) i m ↔ (Registered hist i ∧ x.subscribes i m = true) ∨
      (Holds hist i m ∧ x.removes i = false ∧ x.cancels i m = false) := by
  unfold Holds
  rw [since_concat, not_or, Bool.not_eq_true, Bool.not_eq_true]

/-! ## The simulation -/

/-- The tables answer as the history does. -/
structure Sim (s : NodeInfo) (hist : List Incident) : Prop where
  inv : Inv s
  ready : s.ready = true
  isPeer : ∀ i, s.isPeer i = true ↔ Registered hist i
  listed : ∀ i m, s.listed i m = true ↔ Holds hist i m

namespace Sim

variable {s : NodeInfo} {hist : List Incident}

/-- A registration, by a message or by an attachment. -/
theorem registerInfo (h : Sim s hist) {x : Incident} {id : Id}
    (hx : x = .register id ∨ x = .attach id) : Sim (registerInfo s id) (hist ++ [x]) := by
  refine ⟨h.inv.registerInfo id, (frame_registerInfo s id).ready.trans h.ready, ?_, ?_⟩
  · intro i
    rw [registered_concat, isPeer_registerInfo, Bool.or_eq_true, h.isPeer, or_comm]
    rcases hx with rfl | rfl <;> simp [Incident.adds, Incident.removes]
  · intro i m
    rw [holds_concat, listed_registerInfo, h.listed]
    rcases hx with rfl | rfl <;> simp [Incident.subscribes, Incident.removes, Incident.cancels]

theorem subscribeInfo (h : Sim s hist) (id : Id) (event : Event) :
    Sim (subscribeInfo s id event) (hist ++ [.subscribe id event]) := by
  refine ⟨h.inv.subscribeInfo id event, (frame_subscribeInfo s id event).ready.trans h.ready, ?_, ?_⟩
  · intro i
    rw [registered_concat, isPeer_subscribeInfo, h.isPeer]
    simp [Incident.adds, Incident.removes]
  · intro i m
    rw [holds_concat, listed_subscribeInfo, Bool.or_eq_true, h.listed, or_comm, Bool.and_eq_true,
      Bool.and_eq_true, and_assoc]
    simp only [Incident.subscribes, Incident.removes, Incident.cancels, Bool.and_eq_true, and_self,
      and_true]
    refine or_congr_left (and_congr_left fun ⟨hi, _⟩ => ?_)
    rw [← h.isPeer, NodeInfo.isPeer_congr hi]

theorem cancelInfo (h : Sim s hist) (id : Id) (event : Event) :
    Sim (cancelInfo s id event) (hist ++ [.cancel id event]) := by
  refine ⟨h.inv.cancelInfo id event, (frame_cancelInfo s id event).ready.trans h.ready, ?_, ?_⟩
  · intro i
    rw [registered_concat, isPeer_cancelInfo, h.isPeer]
    simp [Incident.adds, Incident.removes]
  · intro i m
    rw [holds_concat, listed_cancelInfo h.inv, Bool.and_eq_true, h.listed, Bool.not_eq_true']
    simp [Incident.subscribes, Incident.removes, Incident.cancels]

theorem dropInfo (h : Sim s hist) (id : Id) :
    Sim (dropInfo s id) (hist ++ [.deregister id]) := by
  refine ⟨h.inv.dropInfo id, (frame_dropInfo s id).ready.trans h.ready, ?_, ?_⟩
  · intro i
    rw [registered_concat, isPeer_dropInfo, Bool.and_eq_true, h.isPeer, Bool.not_eq_true']
    simp [Incident.adds, Incident.removes]
  · intro i m
    rw [holds_concat, listed_dropInfo h.inv, Bool.and_eq_true, h.listed, Bool.not_eq_true']
    simp [Incident.subscribes, Incident.removes, Incident.cancels]

theorem cleanupInfo (h : Sim s hist) (location : LocationId) :
    Sim (cleanupInfo s location) (hist ++ [.cleanup location]) := by
  obtain ⟨hi, hp, hl⟩ := cleanupInfo_spec h.inv location
  refine ⟨hi, (frame_cleanupInfo s location).ready.trans h.ready, ?_, ?_⟩
  · intro i
    rw [registered_concat, hp, Bool.and_eq_true, h.isPeer, Bool.not_eq_true']
    simp [Incident.adds, Incident.removes]
  · intro i m
    rw [holds_concat, hl, Bool.and_eq_true, h.listed, Bool.not_eq_true']
    simp [Incident.subscribes, Incident.removes, Incident.cancels]

theorem initialized (h : Sim s hist) : s.initialized = true := by
  have hr := h.ready
  unfold NodeInfo.ready at hr
  rw [Bool.and_eq_true] at hr
  exact hr.1

theorem leaf (h : Sim s hist) : s.leaf = false := by
  have hr := h.ready
  unfold NodeInfo.ready at hr
  rw [Bool.and_eq_true, Bool.not_eq_true'] at hr
  exact hr.2

/-- An attachment registers the parent, if one was found. -/
theorem attachInfo (h : Sim s hist) (parent : LocationId) :
    Sim (attachInfo s parent)
      (hist ++ if parent.pid != 0 then [.attach (agentId parent)] else []) := by
  have hf := frame_attachInfo h.leaf parent
  obtain ⟨hi, hp, hl⟩ := attachInfo_spec h.inv parent
  have hr : (FTBMI.attachInfo s parent).ready = true := hf.ready.trans h.ready
  simp only [h.leaf, Bool.not_false, Bool.true_and] at hp
  split
  · rename_i hpid
    refine ⟨hi, hr, fun i => ?_, fun i m => ?_⟩
    · rw [registered_concat, hp, hpid, Bool.true_and, Bool.or_eq_true, h.isPeer, or_comm]
      simp [Incident.adds, Incident.removes]
    · rw [holds_concat, hl, h.listed]
      simp [Incident.subscribes, Incident.removes, Incident.cancels]
  · rename_i hpid
    rw [List.append_nil]
    refine ⟨hi, hr, fun i => ?_, fun i m => ?_⟩
    · rw [hp, Bool.eq_false_iff.2 hpid, Bool.false_and, Bool.or_false, h.isPeer]
    · rw [hl, h.listed]

end Sim

end Agent
