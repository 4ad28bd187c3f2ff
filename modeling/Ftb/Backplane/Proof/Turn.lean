import Ftb.Backplane.World

/-!
# One turn of an agent

What a turn changes in the tables and what it sends (`reactInfo`, `reactMsgs`), when nothing fails.
The messages are then read from the other end of a channel: a neighbour `β` that hears them keeps one
bit for each mask, whether it lists the agent (`hear`), and this bit should be whether the agent lists
anybody but `β` (`others`). After every turn the bit is set if it should be (`complete_react`); it is
cleared if it should be (`sound_react`) unless the turn takes a component away from a mask that it
shares with one other agent only (`Shared`).
-/

open FTB FTBU FTBN FTBMI

namespace Backplane

/-! ## What a turn does -/

/-- What the deregistration of a component sends. -/
def leaveMsgs (s : NodeInfo) (id : Id) : List Msg :=
  match s.peers.find? id with
  | none => []
  | some comp => dropMsgs comp.id comp.catchEventSet.nodes s

/-- The tables after a turn. -/
def reactInfo (s : NodeInfo) (msg : Msg) : NodeInfo :=
  match msg.msgType with
  | .clientReg => registerInfo s msg.src
  | .clientDereg => dropInfo s msg.src
  | .regSubscription => subscribeInfo s msg.src msg.event
  | .subscriptionCancel => cancelInfo s msg.src msg.event
  | _ => s

/-- What a turn sends. -/
def reactMsgs (s : NodeInfo) (msg : Msg) : List Msg :=
  match msg.msgType with
  | .clientReg => registerMsgs s msg.src
  | .clientDereg => leaveMsgs s msg.src
  | .regSubscription => subscribeMsgs s msg.src msg.event
  | .subscriptionCancel => cancelMsgs s msg.src msg.event
  | _ => []

theorem sendAll_logged (msgs out : List Msg) (hist : List Agent.Incident) :
    (Agent.logged outbox).sendAll msgs (out, hist) = (out ++ msgs, hist) := by
  induction msgs generalizing out with
  | nil => rw [List.append_nil]; rfl
  | cons msg msgs ih => exact (ih (out ++ [msg])).trans (by rw [List.append_assoc]; rfl)

/-- The exact names are the names. -/
theorem isManagerNameCase_of_exact {id : Id} (h : FTBM.isManagerName id = true) :
    FTBM.isManagerNameCase id = true := by
  unfold FTBM.isManagerName at h
  rw [Bool.and_eq_true, beq_iff_eq, beq_iff_eq] at h
  unfold FTBM.isManagerNameCase CStr.strcaseEq
  rw [h.1, h.2]
  decide

theorem isManagerNameCase_congr {i j : Id} (h : isEqualFtbId i j = true) :
    FTBM.isManagerNameCase i = FTBM.isManagerNameCase j := by
  simp only [isEqualFtbId_iff, canonId, Id.mk.injEq, ClientId.mk.injEq] at h
  obtain ⟨-, -, hcat, hcomp, -, -⟩ := h
  unfold FTBM.isManagerNameCase
  rw [strcaseEq_congr_left hcat, strcaseEq_congr_left hcomp]

theorem isAgent_congr {i j : Id} (h : isEqualFtbId i j = true) : isAgent i = isAgent j := by
  have hn := isManagerNameCase_congr h
  simp only [isEqualFtbId_iff, canonId, Id.mk.injEq, ClientId.mk.injEq] at h
  unfold FTBM.isManagerNameCase at hn
  unfold isAgent
  rw [hn, h.2.2.2.2.2]

theorem isAgent_of_not_name {id : Id} (h : FTBM.isManagerNameCase id = false) :
    isAgent id = false := by
  unfold FTBM.isManagerNameCase at h
  unfold isAgent
  rw [h, Bool.false_and]

/-- A deregistration of a component that is no agent. -/
theorem clientDereg_eq {s : NodeInfo} (hr : s.ready = true) {id : Id}
    (hid : FTBM.isManagerNameCase id = false) (hist : List Agent.Incident) :
    (FTBM.clientDeregister (Agent.logged outbox) id ⟨s, [], hist⟩).2 =
      ⟨dropInfo s id, leaveMsgs s id, hist⟩ := by
  unfold FTBM.clientDeregister leaveMsgs
  rw [ready_guard, hr, if_pos rfl]
  cases hf : s.peers.find? id with
  | none => simp only [dropInfo, hf]
  | some comp =>
    have hname : FTBM.isManagerName comp.id = false := by
      rw [Bool.eq_false_iff]
      intro hn
      have hc := isManagerNameCase_congr (KeyList.mem_of_find? hf).2
      rw [isManagerNameCase_of_exact hn, hid] at hc
      cases hc
    simp only [utilCleanComponent_eq, sendAll_logged, hname, dropInfo_of_find? hf]
    rfl

/-- **A turn of an agent on which nothing fails.** -/
theorem turn_react {s : NodeInfo} {hist : List Agent.Incident} (h : Agent.Sim s hist) {msg : Msg}
    (hn : msg.msgType ≠ .notify) (hc : msg.msgType ≠ .cleanupConn)
    (hd : msg.msgType = .clientDereg → FTBM.isManagerNameCase msg.src = false)
    (incomingSrc : LocationId) :
    Agent.turn outbox ⟨s, [], hist⟩ (msg, incomingSrc) =
      some ⟨reactInfo s msg, reactMsgs s msg, hist ++ Agent.incidents msg incomingSrc⟩ := by
  unfold Agent.turn Agent.progressLoop reactInfo reactMsgs
  cases ht : msg.msgType with
  | notify => exact absurd ht hn
  | cleanupConn => exact absurd ht hc
  | clientReg => simp only [FTBM.clientRegister_eq, h.ready, if_true, sendAll_logged]; rfl
  | clientDereg => simp only [clientDereg_eq h.ready (hd ht)]
  | regSubscription =>
    simp only [FTBM.registerSubscription_eq, h.ready, if_true, sendAll_logged]; rfl
  | subscriptionCancel =>
    simp only [FTBM.cancelSubscription_eq, h.ready, if_true, sendAll_logged]; rfl
  | regPublishableEvent => rfl
  | publishableEventRegCancel => rfl
  | unknown t => rfl

/-- The history goes on with the tables. -/
theorem sim_react {s : NodeInfo} {hist : List Agent.Incident} (h : Agent.Sim s hist) {msg : Msg}
    (hn : msg.msgType ≠ .notify) (hc : msg.msgType ≠ .cleanupConn)
    (hd : msg.msgType = .clientDereg → FTBM.isManagerNameCase msg.src = false)
    (incomingSrc : LocationId) :
    Agent.Sim (reactInfo s msg) (hist ++ Agent.incidents msg incomingSrc) := by
  have hs : Agent.Sim (⟨s, [], hist⟩ : Manager (List Msg × List Agent.Incident)).info
    (⟨s, [], hist⟩ : Manager (List Msg × List Agent.Incident)).net.2 := h
  obtain ⟨a', ha, hs'⟩ := hs.turn outbox (msg, incomingSrc) hn
  rw [turn_react h hn hc hd] at ha
  rw [← Option.some.inj ha] at hs'
  exact hs'

/-! ## The bit of a neighbour -/

/-- Somebody but `β` is listed under the mask. -/
def others (s : NodeInfo) (β : Id) (mask : Event) : Prop :=
  ∃ k, isEqualFtbId k β = false ∧ s.listed k mask = true

/-- What a message does to the bit `p` of its receiver. -/
def hear (mask : Event) (p : Prop) (msg : Msg) : Prop :=
  match msg.msgType with
  | .regSubscription => p ∨ isEqualEventMask msg.event mask = true
  | .subscriptionCancel => p ∧ isEqualEventMask msg.event mask = false
  | _ => p

/-- What messages do, in order. -/
def hears (mask : Event) (p : Prop) (msgs : List Msg) : Prop := msgs.foldl (hear mask) p

theorem hears_append (mask : Event) (p : Prop) (l₁ l₂ : List Msg) :
    hears mask p (l₁ ++ l₂) ↔ hears mask (hears mask p l₁) l₂ := by
  unfold hears
  rw [List.foldl_append]

theorem hears_mono (mask : Event) {p q : Prop} (h : p → q) (msgs : List Msg) :
    hears mask p msgs → hears mask q msgs := by
  induction msgs generalizing p q with
  | nil => exact h
  | cons msg msgs ih =>
    refine ih ?_
    unfold hear
    split
    · exact Or.imp_left h
    · exact And.imp_left h
    · exact h

theorem hears_congr (mask : Event) {p q : Prop} (h : p ↔ q) (msgs : List Msg) :
    hears mask p msgs ↔ hears mask q msgs :=
  ⟨hears_mono mask h.1 msgs, hears_mono mask h.2 msgs⟩

/-- Subscriptions only set the bit. -/
theorem hears_subscriptions (mask : Event) (p : Prop) {msgs : List Msg}
    (h : ∀ msg ∈ msgs, msg.msgType = .regSubscription) :
    hears mask p msgs ↔ p ∨ ∃ msg ∈ msgs, isEqualEventMask msg.event mask = true := by
  induction msgs generalizing p with
  | nil => simp [hears]
  | cons msg msgs ih =>
    have ht := h msg List.mem_cons_self
    have hh : hear mask p msg ↔ p ∨ isEqualEventMask msg.event mask = true := by simp [hear, ht]
    refine (ih (hear mask p msg) fun m hm => h m (List.mem_cons_of_mem _ hm)).trans ?_
    rw [hh, or_assoc]
    simp only [List.mem_cons, exists_eq_or_imp]

/-- Cancellations only clear it. -/
theorem hears_cancellations (mask : Event) (p : Prop) {msgs : List Msg}
    (h : ∀ msg ∈ msgs, msg.msgType = .subscriptionCancel) :
    hears mask p msgs ↔ p ∧ ∀ msg ∈ msgs, isEqualEventMask msg.event mask = false := by
  induction msgs generalizing p with
  | nil => simp [hears]
  | cons msg msgs ih =>
    have ht := h msg List.mem_cons_self
    have hh : hear mask p msg ↔ p ∧ isEqualEventMask msg.event mask = false := by simp [hear, ht]
    refine (ih (hear mask p msg) fun m hm => h m (List.mem_cons_of_mem _ hm)).trans ?_
    rw [hh, and_assoc]
    simp only [List.mem_cons, forall_eq_or_imp]

/-! ## Propagations -/

theorem mem_toward {location : LocationId} {msgs : List Msg} {msg : Msg} :
    msg ∈ toward location msgs ↔
      msg ∈ msgs ∧ isEqualLocationId msg.dst.locationId location = true :=
  List.mem_filter

theorem toward_append (location : LocationId) (l₁ l₂ : List Msg) :
    toward location (l₁ ++ l₂) = toward location l₁ ++ toward location l₂ :=
  List.filter_append ..

theorem mem_propMsgs {s : NodeInfo} {t : MsgType} {event : Event} {incoming : LocationId}
    {msg : Msg} : msg ∈ propMsgs s t event incoming ↔ ∃ c ∈ s.peers.nodes,
      isAgent c.id = true ∧ isEqualLocationId c.id.locationId incoming = false ∧
      msg = { msgType := t, src := s.self, dst := c.id, event } := by
  simp only [propMsgs, List.mem_map, List.mem_filter, Bool.and_eq_true, Bool.not_eq_true']
  constructor
  · rintro ⟨_, ⟨⟨c, hc, rfl⟩, ha, hl⟩, rfl⟩
    exact ⟨c, hc, ha, hl, rfl⟩
  · rintro ⟨c, hc, ha, hl, rfl⟩
    exact ⟨c.id, ⟨⟨c, hc, rfl⟩, ha, hl⟩, rfl⟩

section
variable {s : NodeInfo} {β : Id}

/-- A propagation reaches every agent in `peers` but those where it came from. -/
theorem exists_toward_propMsgs (hp : s.isPeer β = true) (ha : isAgent β = true) (t : MsgType)
    (event : Event) (incoming : LocationId) :
    (∃ msg, msg ∈ toward β.locationId (propMsgs s t event incoming)) ↔
      isEqualLocationId β.locationId incoming = false := by
  constructor
  · rintro ⟨msg, hm⟩
    obtain ⟨hm, hl⟩ := mem_toward.1 hm
    obtain ⟨c, -, -, hi, rfl⟩ := mem_propMsgs.1 hm
    rwa [← KeyEq.congr_left hl]
  · intro hi
    obtain ⟨c, hc, hcβ⟩ := NodeInfo.isPeer_iff.1 hp
    have hloc := isEqualLocationId_of_ftbId hcβ
    refine ⟨_, mem_toward.2 ⟨mem_propMsgs.2 ⟨c, hc, ?_, ?_, rfl⟩, hloc⟩⟩
    · rw [isAgent_congr hcβ, ha]
    · rw [KeyEq.congr_left hloc, hi]

theorem event_of_mem_propMsgs {t : MsgType} {event : Event} {incoming : LocationId} {msg : Msg}
    (h : msg ∈ toward β.locationId (propMsgs s t event incoming)) :
    msg.msgType = t ∧ msg.event = event := by
  obtain ⟨c, -, -, -, rfl⟩ := mem_propMsgs.1 (mem_toward.1 h).1
  exact ⟨rfl, rfl⟩

theorem hears_propSubscription (hp : s.isPeer β = true) (ha : isAgent β = true) (mask event : Event)
    (incoming : LocationId) (p : Prop) :
    hears mask p (toward β.locationId (propMsgs s .regSubscription event incoming)) ↔
      p ∨ (isEqualLocationId β.locationId incoming = false ∧
        isEqualEventMask event mask = true) := by
  rw [hears_subscriptions mask p fun msg hm => (event_of_mem_propMsgs hm).1,
    ← exists_toward_propMsgs hp ha .regSubscription event incoming]
  refine or_congr_right ⟨fun ⟨msg, hm, he⟩ => ⟨⟨msg, hm⟩, ?_⟩, fun ⟨⟨msg, hm⟩, he⟩ => ⟨msg, hm, ?_⟩⟩
  · rwa [(event_of_mem_propMsgs hm).2] at he
  · rwa [(event_of_mem_propMsgs hm).2]

theorem hears_propCancellation (hp : s.isPeer β = true) (ha : isAgent β = true) (mask event : Event)
    (incoming : LocationId) (p : Prop) :
    hears mask p (toward β.locationId (propMsgs s .subscriptionCancel event incoming)) ↔
      p ∧ (isEqualLocationId β.locationId incoming = false →
        isEqualEventMask event mask = false) := by
  rw [hears_cancellations mask p fun msg hm => (event_of_mem_propMsgs hm).1,
    ← exists_toward_propMsgs hp ha .subscriptionCancel event incoming]
  refine and_congr_right fun _ => ⟨fun h ⟨msg, hm⟩ => ?_, fun h msg hm => ?_⟩
  · have := h msg hm
    rwa [(event_of_mem_propMsgs hm).2] at this
  · rw [(event_of_mem_propMsgs hm).2]
    exact h ⟨msg, hm⟩

end

/-! ## Removals -/

/-- The component and one other agent share the mask, and nobody else has it. -/
def Shared (s : NodeInfo) (id : Id) (mask : Event) : Prop :=
  s.listed id mask = true ∧ ∃ β, isAgent β = true ∧ isEqualFtbId id β = false ∧
    s.listed β mask = true ∧
    ∀ k, s.listed k mask = true → isEqualFtbId k id = true ∨ isEqualFtbId k β = true

section
variable {s : NodeInfo} {β id : Id}

theorem listed_congr {i j : Id} {m m' : Event} (hi : isEqualFtbId i j = true)
    (hm : isEqualEventMask m m' = true) : s.listed i m = s.listed j m' :=
  lists_congr hi hm

/-- Nobody but `id` is listed under a mask that `utilRemoveComFromCatchMap` empties. -/
theorem removeMsgs_cases (s : NodeInfo) (id : Id) (mask : Event) :
    (removeMsgs s id mask = [] ∧
      ((∃ k, isEqualFtbId k id = false ∧ s.listed k mask = true) ∨ s.listed id mask = false)) ∨
    ∃ event, isEqualEventMask event mask = true ∧
      removeMsgs s id mask = propMsgs s .subscriptionCancel event id.locationId ∧
      ∀ k, s.listed k mask = true → isEqualFtbId k id = true := by
  unfold removeMsgs
  cases hf : s.catchEventMap.find? mask with
  | none => exact .inl ⟨rfl, .inr (lists_eq_false_of_find?_none hf id)⟩
  | some ent =>
    have hl : ∀ k, s.listed k mask = ent.comps.contains k := lists_eq_contains hf
    simp only [hl]
    cases hc : ent.comps.contains id with
    | false => exact .inl ⟨rfl, .inr rfl⟩
    | true =>
      cases he : (ent.comps.erase id).isEmpty with
      | true =>
        refine .inr ⟨ent.mask, (KeyList.mem_of_find? hf).2, rfl, fun k hk => ?_⟩
        by_contra hn
        have hk' := contains_erase ent.comps id k
        rw [hk, KeyEq.comm isEqualFtbId, Bool.eq_false_iff.2 hn, KeyList.contains,
          KeyList.isEmpty_iff.1 he] at hk'
        cases hk'
      | false =>
        refine .inl ⟨rfl, .inl ?_⟩
        obtain ⟨r, hr⟩ : ∃ r, r ∈ (ent.comps.erase id).nodes := by
          refine List.exists_mem_of_ne_nil _ fun hn => ?_
          rw [KeyList.isEmpty_iff.2 hn] at he
          cases he
        obtain ⟨hr, hn⟩ := KeyList.mem_erase.1 hr
        exact ⟨r.id, hn, List.any_eq_true.2 ⟨r, hr, KeyEq.refl r.id⟩⟩

theorem listed_removeInfo (s : NodeInfo) (id : Id) (mask : Event) (i : Id) (m : Event) :
    (removeInfo s id mask).listed i m =
      (s.listed i m && !(isEqualFtbId id i && isEqualEventMask mask m)) :=
  lists_catchRemove s.catchEventMap id mask i m

/-- Under another mask, a removal changes nothing and says nothing. -/
theorem remove_other (s : NodeInfo) (β id : Id) {mask m : Event} (hm : isEqualEventMask mask m = false) :
    (others (removeInfo s id mask) β m ↔ others s β m) ∧
      ∀ p, hears m p (toward β.locationId (removeMsgs s id mask)) ↔ p := by
  refine ⟨exists_congr fun k => ?_, fun p => ?_⟩
  · rw [listed_removeInfo, hm, Bool.and_false, Bool.not_false, Bool.and_true]
  · obtain ⟨he, -⟩ | ⟨event, hev, he, -⟩ := removeMsgs_cases s id mask
    · rw [he]
      exact Iff.rfl
    · rw [he, hears_cancellations m p fun msg h => (event_of_mem_propMsgs h).1]
      refine and_iff_left fun msg h => ?_
      rw [(event_of_mem_propMsgs h).2, KeyEq.congr_left hev, hm]

theorem complete_remove (β id : Id) (mask m : Event) :
    others (removeInfo s id mask) β m →
      hears m (others s β m) (toward β.locationId (removeMsgs s id mask)) := by
  intro ⟨k, hkβ, hk⟩
  by_cases hm : isEqualEventMask mask m = true
  · rw [listed_removeInfo, hm, Bool.and_true, Bool.and_eq_true, Bool.not_eq_true',
      KeyEq.comm isEqualFtbId] at hk
    obtain ⟨he, -⟩ | ⟨event, -, -, hall⟩ := removeMsgs_cases s id mask
    · rw [he]
      exact ⟨k, hkβ, hk.1⟩
    · -- the mask was emptied, and nobody else had it
      rw [hall k ((listed_congr (KeyEq.refl k) hm).trans hk.1)] at hk
      cases hk.2
  · obtain ⟨ho, hh⟩ := remove_other s β id (Bool.eq_false_iff.2 hm)
    exact (hh _).2 (ho.1 ⟨k, hkβ, hk⟩)

theorem sound_remove (hp : s.isPeer β = true) (ha : isAgent β = true)
    (hsep : isEqualLocationId id.locationId β.locationId = true → isEqualFtbId id β = true)
    {mask : Event} (hs : ¬Shared s id mask) (m : Event) :
    hears m (others s β m) (toward β.locationId (removeMsgs s id mask)) →
      others (removeInfo s id mask) β m := by
  intro hh
  by_cases hm : isEqualEventMask mask m = true
  · have hl : ∀ k, s.listed k m = s.listed k mask := fun k =>
      (listed_congr (KeyEq.refl k) hm).symm
    have hgoal : ∀ k, isEqualFtbId k β = false → isEqualFtbId k id = false →
        s.listed k mask = true → others (removeInfo s id mask) β m := by
      intro k hkβ hki hk
      refine ⟨k, hkβ, ?_⟩
      rw [listed_removeInfo, hl, hk, KeyEq.comm isEqualFtbId, hki]
      rfl
    obtain ⟨he, hcase⟩ | ⟨event, hev, he, hall⟩ := removeMsgs_cases s id mask
    · rw [he] at hh
      obtain ⟨k, hkβ, hk⟩ : others s β m := hh
      rw [hl] at hk
      by_cases hki : isEqualFtbId k id = true
      · -- `id` goes, and somebody else must be left who is not `β`
        have hid : s.listed id mask = true :=
          (listed_congr hki (KeyEq.refl mask)).symm.trans hk
        have hidβ : isEqualFtbId id β = false := by rwa [← KeyEq.congr_left hki]
        by_contra hno
        have hall : ∀ j, s.listed j mask = true →
            isEqualFtbId j id = true ∨ isEqualFtbId j β = true := by
          intro j hj
          by_contra hor
          rw [not_or, Bool.not_eq_true, Bool.not_eq_true] at hor
          exact hno (hgoal j hor.2 hor.1 hj)
        obtain ⟨j, hji, hj⟩ := hcase.resolve_right (by rw [hid]; decide)
        have hjβ := (hall j hj).resolve_left (by rw [hji]; decide)
        have hβ : s.listed β mask = true :=
          (listed_congr hjβ (KeyEq.refl mask)).symm.trans hj
        exact hs ⟨hid, β, ha, hidβ, hβ, hall⟩
      · exact hgoal k hkβ (Bool.eq_false_iff.2 hki) hk
    · -- the mask was emptied, so `β` was told, unless it is the component that goes
      rw [he, hears_propCancellation hp ha] at hh
      obtain ⟨⟨k, hkβ, hk⟩, hno⟩ := hh
      rw [hl] at hk
      cases hloc : isEqualLocationId β.locationId id.locationId with
      | false =>
        have := hno hloc
        rw [KeyEq.congr_left hev, hm] at this
        cases this
      | true =>
        rw [KeyEq.comm isEqualLocationId] at hloc
        rw [KeyEq.trans (hall k hk) (hsep hloc)] at hkβ
        cases hkβ
  · obtain ⟨ho, hh'⟩ := remove_other s β id (Bool.eq_false_iff.2 hm)
    exact ho.2 ((hh' _).1 hh)

/-! ## The masks of a component that leaves -/

/-- A removal leaves fewer masks that are shared. -/
theorem shared_of_removeInfo {mask m : Event} (h : Shared (removeInfo s id mask) id m) :
    Shared s id m := by
  obtain ⟨hid, β, ha, hidβ, hβ, hall⟩ := h
  rw [listed_removeInfo, Bool.and_eq_true, (KeyEq.refl id : isEqualFtbId id id = true),
    Bool.true_and, Bool.not_eq_true'] at hid
  have hl : ∀ k, (removeInfo s id mask).listed k m = s.listed k m := fun k => by
    rw [listed_removeInfo, hid.2, Bool.and_false, Bool.not_false, Bool.and_true]
  simp only [hl] at hβ hall
  exact ⟨hid.1, β, ha, hidβ, hβ, hall⟩

theorem complete_drop (β id : Id) (masks : List Event) (m : Event) :
    others (masks.foldl (fun s mask => removeInfo s id mask) s) β m →
      hears m (others s β m) (toward β.locationId (dropMsgs id masks s)) := by
  induction masks generalizing s with
  | nil => exact fun h => h
  | cons mask masks ih =>
    intro ho
    rw [dropMsgs, toward_append, hears_append]
    exact hears_mono m (complete_remove β id mask m) _ (ih ho)

theorem sound_drop (hp : s.isPeer β = true) (ha : isAgent β = true)
    (hsep : isEqualLocationId id.locationId β.locationId = true → isEqualFtbId id β = true)
    (hs : ∀ m, ¬Shared s id m) (masks : List Event) (m : Event) :
    hears m (others s β m) (toward β.locationId (dropMsgs id masks s)) →
      others (masks.foldl (fun s mask => removeInfo s id mask) s) β m := by
  induction masks generalizing s with
  | nil => exact fun h => h
  | cons mask masks ih =>
    intro hh
    rw [dropMsgs, toward_append, hears_append] at hh
    exact ih hp (fun m hm => hs m (shared_of_removeInfo hm))
      (hears_mono m (sound_remove hp ha hsep (hs mask) m) _ hh)

/-- What is left under a mask after a component has gone. -/
theorem others_dropComp (comp : CompInfo) (m : Event) :
    others (dropComp s comp) β m ↔
      others (comp.catchEventSet.nodes.foldl (fun s mask => removeInfo s comp.id mask) s) β m := by
  rw [foldl_removeInfo]
  exact Iff.rfl

/-- The neighbours of an agent that drops the components at a location. -/
theorem complete_sweep (location : LocationId) (β : Id) (comps : List CompInfo) (m : Event) :
    others (comps.foldl (fun s comp =>
        if isEqualLocationId location comp.id.locationId then dropComp s comp else s) s) β m →
      hears m (others s β m) (toward β.locationId (sweepMsgs location comps s)) := by
  induction comps generalizing s with
  | nil => exact fun h => h
  | cons comp comps ih =>
    intro ho
    rw [List.foldl_cons] at ho
    unfold sweepMsgs
    split at ho
    · rename_i hl
      rw [if_pos hl, toward_append, hears_append]
      refine hears_mono m (fun hd => ?_) _ (ih ho)
      exact complete_drop β comp.id comp.catchEventSet.nodes m ((others_dropComp comp m).1 hd)
    · rename_i hl
      rw [if_neg hl]
      exact ih ho

/-! ## A whole turn -/

/-- The turn takes a component away from a mask that it shares with one other agent only. -/
def Strands (s : NodeInfo) (msg : Msg) : Prop :=
  match msg.msgType with
  | .subscriptionCancel => Shared s msg.src msg.event
  | .clientDereg => ∃ mask, Shared s msg.src mask
  | _ => False

theorem shared_congr {i j : Id} {m m' : Event} (hi : isEqualFtbId i j = true)
    (hm : isEqualEventMask m m' = true) (h : Shared s i m) : Shared s j m' := by
  obtain ⟨hid, β, ha, hiβ, hβ, hall⟩ := h
  refine ⟨(listed_congr hi hm).symm.trans hid, β, ha, ?_,
    (listed_congr (KeyEq.refl β) hm).symm.trans hβ, fun k hk => ?_⟩
  · rwa [← KeyEq.congr_left hi]
  · rw [← KeyEq.congr_right hi]
    exact hall k ((listed_congr (KeyEq.refl k) hm).trans hk)

/-- A cancellation is a removal, or nothing. -/
theorem cancel_cases (s : NodeInfo) (id : Id) (event : Event) :
    (cancelInfo s id event = s ∧ cancelMsgs s id event = []) ∨
      ∃ t i mask, isEqualFtbId i id = true ∧ isEqualEventMask mask event = true ∧
        (∀ k m, t.listed k m = s.listed k m) ∧ t.self = s.self ∧ (∀ k, t.isPeer k = s.isPeer k) ∧
        cancelInfo s id event = removeInfo t i mask ∧ cancelMsgs s id event = removeMsgs t i mask := by
  cases hf : s.peers.find? id with
  | none => exact .inl ⟨by simp only [cancelInfo, hf], by simp only [cancelMsgs, hf]⟩
  | some comp =>
    cases hm : comp.catchEventSet.find? event with
    | none => exact .inl ⟨by simp only [cancelInfo, hf, hm], by simp only [cancelMsgs, hf, hm]⟩
    | some mask =>
      refine .inr ⟨{ s with peers := adjustSet s.peers id (·.erase mask) }, comp.id, mask,
        (KeyList.mem_of_find? hf).2, (KeyList.mem_of_find? hm).2, fun _ _ => rfl, rfl, ?_, ?_, ?_⟩
      · exact contains_adjustSet s.peers id _
      · simp only [cancelInfo, hf, hm]
      · simp only [cancelMsgs, hf, hm]

/-- A registration is told to nobody but the agent that registers. -/
theorem toward_registerMsgs (hp : s.isPeer β = true)
    (hsep : isEqualLocationId id.locationId β.locationId = true → isEqualFtbId id β = true) :
    toward β.locationId (registerMsgs s id) = [] := by
  refine List.eq_nil_iff_forall_not_mem.2 fun msg hm => ?_
  obtain ⟨hm, hl⟩ := mem_toward.1 hm
  unfold registerMsgs at hm
  split at hm
  · rename_i hc
    rw [Bool.and_eq_true, Bool.not_eq_true'] at hc
    obtain ⟨ent, -, rfl⟩ := List.mem_map.1 hm
    rw [NodeInfo.isPeer_congr (hsep hl), hp] at hc
    cases hc.1
  · cases hm

/-- A subscription is told to everybody that has to know. -/
theorem hears_subscribe (hp : s.isPeer β = true) (ha : isAgent β = true)
    (hsep : isEqualLocationId id.locationId β.locationId = true → isEqualFtbId id β = true)
    (event m : Event) :
    hears m (others s β m) (toward β.locationId (subscribeMsgs s id event)) ↔
      others (subscribeInfo s id event) β m := by
  unfold others
  simp only [listed_subscribeInfo]
  unfold subscribeMsgs
  cases hid : s.isPeer id with
  | false => simp [hears, toward]
  | true =>
    cases hl : s.listed id event with
    | true =>
      -- `id` has the mask already
      have hsame : ∀ k, (s.listed k m || (true && isEqualFtbId id k && isEqualEventMask event m)) =
          s.listed k m := by
        intro k
        rw [Bool.true_and]
        cases hk : isEqualFtbId id k && isEqualEventMask event m with
        | false => exact Bool.or_false _
        | true =>
          rw [Bool.and_eq_true] at hk
          rw [← listed_congr hk.1 hk.2, hl]
          rfl
      simp only [hsame]
      exact Iff.rfl
    | false =>
      simp only [Bool.not_false, Bool.and_self, if_true, hears_propSubscription hp ha, Bool.true_and,
        Bool.or_eq_true, Bool.and_eq_true]
      constructor
      · rintro (⟨k, hkβ, hk⟩ | ⟨hloc, hm⟩)
        · exact ⟨k, hkβ, .inl hk⟩
        · refine ⟨id, ?_, .inr ⟨KeyEq.refl id, hm⟩⟩
          rw [Bool.eq_false_iff]
          intro hi
          rw [KeyEq.comm isEqualLocationId, isEqualLocationId_of_ftbId hi] at hloc
          cases hloc
      · rintro ⟨k, hkβ, hk | ⟨hik, hm⟩⟩
        · exact .inl ⟨k, hkβ, hk⟩
        · refine .inr ⟨?_, hm⟩
          rw [Bool.eq_false_iff]
          intro hloc
          rw [KeyEq.comm isEqualLocationId] at hloc
          rw [← KeyEq.congr_left hik, hsep hloc] at hkβ
          cases hkβ

/-- **After a turn, a neighbour that should have its bit set has it set.** -/
theorem complete_react (hp : s.isPeer β = true) (ha : isAgent β = true) {msg : Msg}
    (hsep : isEqualLocationId msg.src.locationId β.locationId = true →
      isEqualFtbId msg.src β = true) (m : Event) :
    others (reactInfo s msg) β m →
      hears m (others s β m) (toward β.locationId (reactMsgs s msg)) := by
  intro ho
  unfold reactInfo at ho
  unfold reactMsgs
  split at ho
  · rw [toward_registerMsgs hp hsep]
    exact ho
  · unfold dropInfo at ho
    unfold leaveMsgs
    cases hf : s.peers.find? msg.src with
    | none =>
      rw [hf] at ho
      exact ho
    | some comp =>
      rw [hf] at ho
      exact complete_drop β comp.id comp.catchEventSet.nodes m ((others_dropComp comp m).1 ho)
  · exact (hears_subscribe hp ha hsep msg.event m).2 ho
  · obtain ⟨hi, hm⟩ | ⟨t, i, mask, -, -, hc, -, -, hi, hm⟩ := cancel_cases s msg.src msg.event
    · rw [hi] at ho
      rw [hm]
      exact ho
    · have hl : others t β m ↔ others s β m := by
        unfold others
        simp only [hc]
      rw [hi] at ho
      rw [hm]
      exact hears_mono m hl.1 _ (complete_remove β i mask m ho)
  · exact ho

/-- **And one that should have it cleared has it cleared**, if the turn strands no mask. -/
theorem sound_react (hp : s.isPeer β = true) (ha : isAgent β = true) {msg : Msg}
    (hsep : isEqualLocationId msg.src.locationId β.locationId = true →
      isEqualFtbId msg.src β = true) (hs : ¬Strands s msg) (m : Event) :
    hears m (others s β m) (toward β.locationId (reactMsgs s msg)) →
      others (reactInfo s msg) β m := by
  intro hh
  unfold Strands at hs
  unfold reactMsgs at hh
  unfold reactInfo
  split at hh
  · rw [toward_registerMsgs hp hsep] at hh
    exact hh
  · rename_i ht
    rw [ht] at hs
    unfold leaveMsgs at hh
    unfold dropInfo
    cases hf : s.peers.find? msg.src with
    | none =>
      rw [hf] at hh
      exact hh
    | some comp =>
      rw [hf] at hh
      have hid := (KeyList.mem_of_find? hf).2
      refine (others_dropComp comp m).2 (sound_drop hp ha (fun hl => ?_) (fun mask hsh => ?_)
        comp.catchEventSet.nodes m hh)
      · rw [KeyEq.congr_left hid]
        refine hsep ?_
        rwa [← KeyEq.congr_left (isEqualLocationId_of_ftbId hid)]
      · exact hs ⟨mask, shared_congr hid (KeyEq.refl mask) hsh⟩
  · exact (hears_subscribe hp ha hsep msg.event m).1 hh
  · rename_i ht
    rw [ht] at hs
    obtain ⟨hi, hm⟩ | ⟨t, i, mask, hid, hmask, hc, -, hpeer, hi, hm⟩ :=
      cancel_cases s msg.src msg.event
    · rw [hm] at hh
      rw [hi]
      exact hh
    · have ho : others t β m ↔ others s β m := by
        unfold others
        simp only [hc]
      have hsh : ¬Shared t i mask := by
        intro hsh
        refine hs (shared_congr hid hmask ?_)
        unfold Shared at hsh ⊢
        simpa only [hc] using hsh
      rw [hm] at hh
      rw [hi]
      refine sound_remove (by rw [hpeer, hp]) ha (fun hloc => ?_) hsh m (hears_mono m ho.2 _ hh)
      rw [KeyEq.congr_left hid]
      refine hsep ?_
      rwa [← KeyEq.congr_left (isEqualLocationId_of_ftbId hid)]
  · exact hh

/-- The greeting tells a new agent everything. -/
theorem hears_greeting (h : Inv s) (hp : s.isPeer β = false) (ha : isAgent β = true) (m : Event) :
    hears m False (toward β.locationId (registerMsgs s β)) ↔ others (registerInfo s β) β m := by
  have hmsgs : registerMsgs s β = greetMsgs s β := by
    unfold registerMsgs
    rw [hp, ha]
    rfl
  have htype : ∀ msg ∈ toward β.locationId (greetMsgs s β), msg.msgType = .regSubscription := by
    intro msg hm
    obtain ⟨ent, -, rfl⟩ := List.mem_map.1 (mem_toward.1 hm).1
    rfl
  rw [hmsgs, hears_subscriptions m False htype, false_or]
  constructor
  · rintro ⟨msg, hm, he⟩
    obtain ⟨ent, hent, rfl⟩ := List.mem_map.1 (mem_toward.1 hm).1
    obtain ⟨r, hr⟩ := List.exists_mem_of_ne_nil _ (h.noEmpty ent hent)
    have hl : s.listed r.id m = true :=
      lists_iff.2 ⟨ent, hent, he, r, hr, KeyEq.refl r.id⟩
    refine ⟨r.id, ?_, hl⟩
    -- `β` is no peer yet, so it is not listed
    rw [Bool.eq_false_iff]
    intro hi
    rw [NodeInfo.isPeer_congr (KeyEq.symm hi), h.isPeer_of_listed hl] at hp
    cases hp
  · rintro ⟨k, -, hk⟩
    obtain ⟨ent, hent, he, -⟩ := lists_iff.1 hk
    exact ⟨_, mem_toward.2 ⟨List.mem_map.2 ⟨ent, hent, rfl⟩, KeyEq.refl β.locationId⟩, he⟩

/-! ## What a turn keeps -/

/-- A turn changes what is listed for the sender only, and for an agent as a neighbour hears it. -/
theorem listed_react (h : Inv s) {msg : Msg} {k : Id} (hk : isEqualFtbId msg.src k = false)
    (m : Event) : (reactInfo s msg).listed k m = s.listed k m := by
  unfold reactInfo
  split
  · exact listed_registerInfo s msg.src k m
  · rw [listed_dropInfo h, hk, Bool.not_false, Bool.and_true]
  · rw [listed_subscribeInfo, hk, Bool.and_false, Bool.false_and, Bool.or_false]
  · rw [listed_cancelInfo h, hk, Bool.false_and, Bool.not_false, Bool.and_true]
  · rfl

theorem listed_react_self (h : Inv s) {msg : Msg}
    (hp : msg.msgType = .regSubscription → s.isPeer msg.src = true)
    (hd : msg.msgType ≠ .clientDereg) {k : Id} (hk : isEqualFtbId msg.src k = true) (m : Event) :
    (reactInfo s msg).listed k m = true ↔ hear m (s.listed k m = true) msg := by
  unfold reactInfo hear
  cases ht : msg.msgType with
  | clientDereg => exact absurd ht hd
  | regSubscription =>
    simp only
    rw [listed_subscribeInfo, hp ht, hk, Bool.or_eq_true]
    rfl
  | subscriptionCancel =>
    simp only
    rw [listed_cancelInfo h, hk, Bool.and_eq_true, Bool.true_and, Bool.not_eq_true']
  | _ => exact Iff.rfl

theorem isPeer_registered (s : NodeInfo) {msg : Msg} (ht : msg.msgType = .clientReg) :
    (reactInfo s msg).isPeer msg.src = true := by
  have hi : reactInfo s msg = registerInfo s msg.src := by
    unfold reactInfo
    rw [ht]
  have hself : isEqualFtbId msg.src msg.src = true := KeyEq.refl msg.src
  rw [hi, isPeer_registerInfo, hself, Bool.or_true]

theorem isPeer_react {msg : Msg} {k : Id} (hk : isEqualFtbId msg.src k = false) :
    (reactInfo s msg).isPeer k = s.isPeer k := by
  unfold reactInfo
  split
  · rw [isPeer_registerInfo, hk, Bool.or_false]
  · rw [isPeer_dropInfo, hk, Bool.not_false, Bool.and_true]
  · exact isPeer_subscribeInfo s msg.src msg.event k
  · exact isPeer_cancelInfo s msg.src msg.event k
  · rfl

/-- Nobody but the sender becomes a peer. -/
theorem isPeer_of_react {msg : Msg} {k : Id} (hp : (reactInfo s msg).isPeer k = true) :
    s.isPeer k = true ∨ isEqualFtbId msg.src k = true := by
  cases hk : isEqualFtbId msg.src k with
  | true => exact .inr rfl
  | false => exact .inl (by rwa [isPeer_react hk] at hp)

/-- A turn keeps the parent that the agent goes by. -/
theorem parent_react (s : NodeInfo) (msg : Msg) : (reactInfo s msg).parent = s.parent := by
  unfold reactInfo
  split
  · rfl
  · unfold dropInfo
    split <;> rfl
  · unfold subscribeInfo
    split <;> rfl
  · unfold cancelInfo
    split
    · rfl
    · split <;> rfl
  · rfl

theorem self_react (s : NodeInfo) (msg : Msg) : (reactInfo s msg).self = s.self := by
  unfold reactInfo
  split
  · rfl
  · exact (frame_dropInfo s msg.src).self
  · exact (frame_subscribeInfo s msg.src msg.event).self
  · exact (frame_cancelInfo s msg.src msg.event).self
  · rfl

/-- A message between agents: a subscription or a cancellation of the agent, for an agent that is a
peer, or that registers. -/
structure Spoken (s : NodeInfo) (msg out : Msg) : Prop where
  src : out.src = s.self
  type : out.msgType = .regSubscription ∨ out.msgType = .subscriptionCancel
  agent : isAgent out.dst = true
  dst : s.isPeer out.dst = true ∨ (msg.msgType = .clientReg ∧ out.dst = msg.src)

theorem spoken_propMsgs {t : NodeInfo} {msg out : Msg} {ty : MsgType} {event : Event}
    {incoming : LocationId} (hself : t.self = s.self)
    (hpeer : ∀ k, t.isPeer k = true → s.isPeer k = true)
    (hty : ty = .regSubscription ∨ ty = .subscriptionCancel)
    (h : out ∈ propMsgs t ty event incoming) : Spoken s msg out := by
  obtain ⟨c, hc, ha, -, rfl⟩ := mem_propMsgs.1 h
  exact ⟨hself, hty, ha, .inl (hpeer c.id (NodeInfo.isPeer_iff.2 ⟨c, hc, KeyEq.refl c.id⟩))⟩

theorem spoken_removeMsgs {t : NodeInfo} {msg out : Msg} {i : Id} {mask : Event}
    (hself : t.self = s.self) (hpeer : ∀ k, t.isPeer k = true → s.isPeer k = true)
    (h : out ∈ removeMsgs t i mask) : Spoken s msg out := by
  obtain ⟨he, -⟩ | ⟨event, -, he, -⟩ := removeMsgs_cases t i mask
  · rw [he] at h
    cases h
  · rw [he] at h
    exact spoken_propMsgs hself hpeer (.inr rfl) h

theorem spoken_dropMsgs {msg out : Msg} {id : Id} (masks : List Event) {t : NodeInfo}
    (hself : t.self = s.self) (hpeer : ∀ k, t.isPeer k = true → s.isPeer k = true)
    (h : out ∈ dropMsgs id masks t) : Spoken s msg out := by
  induction masks generalizing t with
  | nil => exact absurd h List.not_mem_nil
  | cons mask masks ih =>
    obtain h | h := List.mem_append.1 h
    · exact spoken_removeMsgs hself hpeer h
    · exact ih (t := removeInfo t id mask) hself hpeer h

theorem spoken_sweepMsgs {msg out : Msg} {location : LocationId} (comps : List CompInfo)
    {t : NodeInfo} (hself : t.self = s.self) (hpeer : ∀ k, t.isPeer k = true → s.isPeer k = true)
    (h : out ∈ sweepMsgs location comps t) : Spoken s msg out := by
  induction comps generalizing t with
  | nil => exact absurd h List.not_mem_nil
  | cons comp comps ih =>
    unfold sweepMsgs at h
    split at h
    · obtain h | h := List.mem_append.1 h
      · exact spoken_dropMsgs _ hself hpeer h
      · refine ih (t := dropComp t comp) hself (fun k hk => hpeer k ?_) h
        obtain ⟨c, hc, hck⟩ := NodeInfo.isPeer_iff.1 hk
        exact NodeInfo.isPeer_iff.2 ⟨c, KeyList.mem_of_mem_erase hc, hck⟩
    · exact ih hself hpeer h

theorem spoken_react {msg out : Msg} (h : out ∈ reactMsgs s msg) : Spoken s msg out := by
  unfold reactMsgs at h
  split at h
  · rename_i ht
    unfold registerMsgs at h
    split at h
    · rename_i hc
      rw [Bool.and_eq_true] at hc
      obtain ⟨ent, -, rfl⟩ := List.mem_map.1 h
      exact ⟨rfl, .inl rfl, hc.2, .inr ⟨ht, rfl⟩⟩
    · cases h
  · unfold leaveMsgs at h
    split at h
    · cases h
    · exact spoken_dropMsgs _ rfl (fun _ => id) h
  · unfold subscribeMsgs at h
    split at h
    · exact spoken_propMsgs rfl (fun _ => id) (.inl rfl) h
    · cases h
  · obtain ⟨-, hm⟩ | ⟨t, i, mask, -, -, -, hself, hpeer, -, hm⟩ := cancel_cases s msg.src msg.event
    · rw [hm] at h
      cases h
    · rw [hm] at h
      exact spoken_removeMsgs hself (fun k hk => hpeer k ▸ hk) h
  · cases h

end

/-! ## An event -/

/-- The message that carries an event on. -/
def copyTo (msg : Msg) (id : Id) : Msg :=
  { msgType := .notify, src := msg.src, dst := id, event := msg.event }

theorem notifyLoop_eq {s : NodeInfo} (hs : s.initialized = true) (msg : Msg)
    (incomingSrc : LocationId) (hist : List Agent.Incident) (ids : List Id) (out : List Msg) :
    Agent.notifyLoop (Agent.logged outbox) msg incomingSrc (ids.map some) ⟨s, out, hist⟩ =
      some ⟨s, out ++ (ids.filter fun id => !Agent.isIncomingAgent id incomingSrc).map (copyTo msg),
        hist⟩ := by
  induction ids generalizing out with
  | nil => simp [Agent.notifyLoop]
  | cons id ids ih =>
    have hsend : FTBM.send (Agent.logged outbox) (copyTo msg id) ⟨s, out, hist⟩ =
        some (.success, ⟨s, out ++ [copyTo msg id], hist⟩) := by
      unfold FTBM.send
      simp only [hs]
      rfl
    rw [List.map_cons, Agent.notifyLoop]
    cases hi : Agent.isIncomingAgent id incomingSrc with
    | true =>
      rw [List.filter_cons_of_neg (by simp [hi])]
      exact ih out
    | false =>
      rw [List.filter_cons_of_pos (by simp [hi]), List.map_cons]
      simp only [Bool.false_eq_true, if_false]
      show ((FTBM.send (Agent.logged outbox) (copyTo msg id) ⟨s, out, hist⟩).bind _) = _
      rw [hsend]
      refine (ih (out ++ [copyTo msg id])).trans ?_
      rw [List.append_assoc]
      rfl

/-- **An event is sent once to everybody who is to get it**, but not back to the agent it came
from, and changes nothing. -/
theorem turn_notify {s : NodeInfo} {hist : List Agent.Incident} (h : Agent.Sim s hist) {msg : Msg}
    (ht : msg.msgType = .notify) (incomingSrc : LocationId) :
    ∃ ids : List Id, ids.Pairwise (fun i j => isEqualFtbId i j = false) ∧
      (∀ i, (∃ x ∈ ids, isEqualFtbId x i = true) ↔ Catches hist msg.event i) ∧
      Agent.turn outbox ⟨s, [], hist⟩ (msg, incomingSrc) = some ⟨s,
        (ids.filter fun id => !Agent.isIncomingAgent id incomingSrc).map (copyTo msg), hist⟩ := by
  obtain ⟨l, hl, ⟨ids, hlist, -, hd, hmem⟩, -⟩ := h.catchers msg.event
  refine ⟨ids, hd, hmem, ?_⟩
  unfold Agent.turn Agent.progressLoop Agent.incidents
  simp only [ht, hl, hlist, List.append_nil]
  exact notifyLoop_eq h.initialized msg incomingSrc hist ids []

end Backplane
