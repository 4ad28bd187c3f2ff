import Mathlib.Data.List.Perm.Subperm
import Ftb.Client.Steps
import Ftb.Lib.Trace

/-!
# Recovery after the parent is lost

A process notices the loss of its parent in `FTBM_Send` or in `FTBM_Get`. Both attach to a new parent
(`FTBMI_util_reconnect`), but only `FTBCI_Check_progress` then sends it the clients and their masks. The
network layer writes down what it is asked (`Deed`); `restores_iff` says after which calls the new
parent knows the clients.
-/

open FTB FTBU FTBN FTBMI FTBCI

namespace FTBC

variable {N : Type}

/-! ## What the network layer is asked -/

/-- A message that was sent, a message whose send failed, a receive that found the connection broken,
and a parent that was found. A `FTBN_Connect` that fails finds none, also where it leaves the location of
the lost one. -/
inductive Deed
  | sent (msg : Msg)
  | failed (msg : Msg)
  | broken
  | attached (parent : LocationId)
  deriving DecidableEq

/-- The network layer, which also writes down its deeds. -/
def recorded (w : LeafNetwork N) : LeafNetwork (N × List Deed) where
  sendMsg msg net :=
    ((w.sendMsg msg net.1).1, (w.sendMsg msg net.1).2,
      net.2 ++ [if (w.sendMsg msg net.1).1 = .success then .sent msg else .failed msg])
  connect msg parent net :=
    ((w.connect msg parent net.1).1, (w.connect msg parent net.1).2.1,
      (w.connect msg parent net.1).2.2,
      net.2 ++ if (w.connect msg parent net.1).1 = .success ∧
          (w.connect msg parent net.1).2.1.pid ≠ 0 then
        [.attached (w.connect msg parent net.1).2.1] else [])
  disconnectPeer l net := ((w.disconnectPeer l net.1).1, (w.disconnectPeer l net.1).2, net.2)
  init net := ((w.init net.1).1, (w.init net.1).2, net.2)
  recvMsg blocking net :=
    ((w.recvMsg blocking net.1).1, (w.recvMsg blocking net.1).2.1, (w.recvMsg blocking net.1).2.2,
      net.2 ++ if (w.recvMsg blocking net.1).1 = .errNetworkGeneral then [.broken] else [])
  finalize net := (w.finalize net.1, net.2)
  waiting net := w.waiting net.1
  waiting_lt {net net' msg} h := by
    simp only [Prod.mk.injEq] at h
    obtain ⟨hret, hmsg, rfl⟩ := h
    exact w.waiting_lt (Prod.ext hret (Prod.ext hmsg rfl))

/-- The deeds so far. -/
def log (s : Lib (N × List Deed)) : List Deed := s.manager.net.2

/-! ## What a parent has to know -/

/-- A client, or a mask of a client. -/
inductive Item
  | client (id : Id)
  | mask (id : Id) (mask : Event)
  deriving DecidableEq

def Item.isClient : Item → Bool
  | .client _ => true
  | .mask _ _ => false

/-- What the message tells the parent. -/
def itemOf (msg : Msg) : Option Item :=
  match msg.msgType with
  | .clientReg => some (.client msg.src)
  | .regSubscription => some (.mask msg.src msg.event)
  | _ => none

def Deed.item : Deed → Option Item
  | .sent msg => itemOf msg
  | _ => none

/-- A client with all entries of its two maps. -/
def clientItems (c : ClientInfo) : List Item := .client c.id :: c.masks.map (.mask c.id)

/-- All clients of the process. -/
def items (s : Lib N) : List Item := s.clients.flatMap clientItems

/-! ## The calls -/

/-- A call that can notice the loss of the parent. -/
inductive Detector
  | publish (clientHandle : ClientHandle) (eventName : CStr)
      (eventProperties : Option EventProperties) (eventHandle : Option EventHandle)
  | subscribeWithPolling (subscribeHandle : Option SubscribeHandle) (clientHandle : ClientHandle)
      (subscriptionStr : Option CStr)
  | subscribeWithCallback (subscribeHandle : Option SubscribeHandle) (clientHandle : ClientHandle)
      (subscriptionStr : Option CStr) (callback arg : Nat)
  | unsubscribe (subscribeHandle : SubscribeHandle)
  | checkProgress

/-- The result of the call, and the state it leaves. -/
def Detector.run (w : LeafNetwork N) : Detector → Lib N → Option (Ret × Lib N)
  | .publish handle eventName properties eventHandle, s =>
    (FTBC.publish w handle eventName properties eventHandle s).map fun r => (r.1, r.2.2)
  | .subscribeWithPolling subscribeHandle handle str, s =>
    (FTBC.subscribeWithPolling w subscribeHandle handle str s).map fun r => (r.1, r.2.2)
  | .subscribeWithCallback subscribeHandle handle str callback arg, s =>
    (FTBC.subscribeWithCallback w subscribeHandle handle str callback arg s).map fun r =>
      (r.1, r.2.2)
  | .unsubscribe subscribeHandle, s =>
    (FTBC.unsubscribe w subscribeHandle s).map fun r => (r.1, r.2.2)
  | .checkProgress, s => FTBCI.checkProgress w s

/-- One `FTBM_Send` in a leaf, with `FTBMI_initialized` before and after it. -/
inductive SendLog : Bool → Msg → List Deed → Bool → Prop
  | off (msg : Msg) : SendLog false msg [] false
  | sent (msg : Msg) : SendLog true msg [.sent msg] true
  | failed (msg : Msg) (b : Bool) : SendLog true msg [.failed msg] b
  | lost (msg : Msg) (parent : LocationId) (b : Bool) :
      SendLog true msg [.failed msg, .attached parent] b

inductive SendsLog : Bool → List Msg → List Deed → Bool → Prop
  | nil (b : Bool) : SendsLog b [] [] b
  | cons {b b' b'' : Bool} {msg : Msg} {msgs : List Msg} {one rest : List Deed} :
      SendLog b msg one b' → SendsLog b' msgs rest b'' → SendsLog b (msg :: msgs) (one ++ rest) b''

namespace SendsLog

variable {b b' b'' : Bool} {msgs msgs' : List Msg} {deeds deeds' : List Deed}

theorem append (h : SendsLog b msgs deeds b') (h' : SendsLog b' msgs' deeds' b'') :
    SendsLog b (msgs ++ msgs') (deeds ++ deeds') b'' := by
  induction h with
  | nil b => exact h'
  | cons hone _ ih =>
    rw [List.cons_append, List.append_assoc]
    exact .cons hone (ih h')

theorem single {msg : Msg} (h : SendLog b msg deeds b') : SendsLog b [msg] deeds b' := by
  have := SendsLog.cons h (.nil b')
  rwa [List.append_nil] at this

/-- What a parent learns is told by the messages. -/
theorem items_sublist (h : SendsLog b msgs deeds b') :
    (deeds.filterMap Deed.item).Sublist (msgs.filterMap itemOf) := by
  induction h with
  | nil b => exact .slnil
  | @cons _ _ _ msg msgs one rest hone _ ih =>
    have hhead : (one.filterMap Deed.item).Sublist ([msg].filterMap itemOf) := by
      cases hone with
      | sent => exact .refl _
      | _ => exact List.nil_sublist _
    rw [List.filterMap_append, ← List.singleton_append, List.filterMap_append]
    exact hhead.append ih

theorem head_ne (h : SendsLog b msgs deeds b') {d : Deed} {rest : List Deed}
    (heq : deeds = d :: rest) : (∀ parent, d ≠ .attached parent) ∧ d ≠ .broken := by
  induction h generalizing rest with
  | nil b => cases heq
  | cons hone _ ih =>
    cases hone with
    | off => exact ih heq
    | sent =>
      cases heq
      exact ⟨nofun, nofun⟩
    | failed =>
      cases heq
      exact ⟨nofun, nofun⟩
    | lost =>
      cases heq
      exact ⟨nofun, nofun⟩

/-- After a parent that a failed send found, only the messages behind it are sent. -/
theorem of_suffix (h : SendsLog b msgs deeds b') {msg : Msg} {parent : LocationId}
    {rest : List Deed} (hsuffix : .failed msg :: .attached parent :: rest <:+ deeds) :
    ∃ before after b₁, msgs = before ++ msg :: after ∧ SendsLog b₁ after rest b' := by
  induction h with
  | nil b => simp at hsuffix
  | @cons _ b₁ b₃ msg' msgs one rest' hone hrest ih =>
    have hlater : .failed msg :: .attached parent :: rest <:+ rest' →
        ∃ before after b₁, msg' :: msgs = before ++ msg :: after ∧ SendsLog b₁ after rest b₃ := by
      intro hs
      obtain ⟨before, after, b₂, rfl, hafter⟩ := ih hs
      exact ⟨msg' :: before, after, b₂, rfl, hafter⟩
    cases hone with
    | off => exact hlater hsuffix
    | sent =>
      rcases List.suffix_cons_iff.1 hsuffix with heq | hs
      · cases heq
      · exact hlater hs
    | failed =>
      rcases List.suffix_cons_iff.1 hsuffix with heq | hs
      · simp only [List.cons.injEq] at heq
        exact absurd rfl ((hrest.head_ne heq.2.symm).1 parent)
      · exact hlater hs
    | lost =>
      rcases List.suffix_cons_iff.1 hsuffix with heq | hs
      · simp only [List.cons.injEq, Deed.failed.injEq] at heq
        obtain ⟨rfl, -, rfl⟩ := heq
        exact ⟨[], msgs, b₁, rfl, hrest⟩
      · rcases List.suffix_cons_iff.1 hs with heq | hs
        · cases heq
        · exact hlater hs

end SendsLog

/-! ## What the calls write -/

variable {w : LeafNetwork N} {s s' s'' : Lib (N × List Deed)}

/-- A process without peers, whose calls sent the messages from `s` on. -/
structure Sends (msgs : List Msg) (s s' : Lib (N × List Deed)) : Prop where
  leaf : s'.manager.info.leaf = true
  log : ∃ deeds, log s' = log s ++ deeds ∧
    SendsLog s.manager.info.initialized msgs deeds s'.manager.info.initialized

theorem Sends.refl (hl : s.manager.info.leaf = true) : Sends [] s s :=
  ⟨hl, [], (List.append_nil _).symm, .nil _⟩

theorem Sends.trans {msgs msgs' : List Msg} (h : Sends msgs s s') (h' : Sends msgs' s' s'') :
    Sends (msgs ++ msgs') s s'' := by
  obtain ⟨deeds, hlog, hs⟩ := h.log
  obtain ⟨deeds', hlog', hs'⟩ := h'.log
  exact ⟨h'.leaf, deeds ++ deeds', by rw [hlog', hlog, List.append_assoc], hs.append hs'⟩

/-- The parent that `FTBMI_util_reconnect` of a leaf finds is written down. -/
theorem log_utilReconnect {a : Manager (N × List Deed)} (hl : a.info.leaf = true) :
    (FTBMI.utilReconnect (recorded w).toNetwork a).info.leaf = true ∧
      ((FTBMI.utilReconnect (recorded w).toNetwork a).net.2 = a.net.2 ∨
        ∃ parent, (FTBMI.utilReconnect (recorded w).toNetwork a).net.2 =
            a.net.2 ++ [.attached parent] ∧
          (FTBMI.utilReconnect (recorded w).toNetwork a).info.initialized = a.info.initialized) := by
  rw [FTBM.utilReconnect_leaf hl]
  refine ⟨hl, ?_⟩
  simp only [recorded]
  generalize w.connect { msgType := .clientReg, src := a.info.self, dst := default, event := default }
    a.info.parent a.net.1 = r
  by_cases hp : r.1 = .success ∧ r.2.1.pid ≠ 0
  · right
    refine ⟨r.2.1, by rw [if_pos hp], ?_⟩
    simp [hp.2]
  · left
    rw [if_neg hp, List.append_nil]

/-- What `FTBCI_Check_progress` writes: nothing, or a broken connection with the parent that was found
then, and the messages of `FTBCI_util_reconnect`. -/
inductive Checked (s s' : Lib (N × List Deed)) : Prop
  | quiet : s'.manager.info.leaf = true → log s' = log s → Checked s s'
  | broken (found : List LocationId) {t : Lib (N × List Deed)} {msgs : List Msg} :
      log t = log s ++ .broken :: found.map .attached → found.length ≤ 1 →
      (found ≠ [] → t.manager.info.initialized = true) → Sends msgs t s' →
      msgs.map itemOf = (items s').map some → Checked s s'

/-- The clients that the messages register. -/
def clientsOf (l : List Item) : Nat := l.countP Item.isClient

@[simp] theorem clientsOf_nil : clientsOf [] = 0 := rfl

@[simp] theorem clientsOf_client (id : Id) (l : List Item) :
    clientsOf (.client id :: l) = clientsOf l + 1 := List.countP_cons_of_pos rfl

@[simp] theorem clientsOf_mask (id : Id) (mask : Event) (l : List Item) :
    clientsOf (.mask id mask :: l) = clientsOf l := List.countP_cons_of_neg nofun

@[simp] theorem clientsOf_append (l l' : List Item) :
    clientsOf (l ++ l') = clientsOf l + clientsOf l' := List.countP_append

/-- Behind each message, fewer than `n` clients are registered. -/
def Behind (n : Nat) (msgs : List Msg) : Prop :=
  ∀ before msg after, msgs = before ++ msg :: after → clientsOf (after.filterMap itemOf) < n

/-- A parent that a failed send found is told fewer than `n` clients. -/
def Late (n : Nat) (deeds : List Deed) : Prop :=
  ∀ msg parent rest, .failed msg :: .attached parent :: rest <:+ deeds →
    clientsOf (rest.filterMap Deed.item) < n

theorem late_nil (n : Nat) : Late n [] := by
  intro msg parent rest h
  simp at h

theorem SendsLog.late {b b' : Bool} {msgs : List Msg} {deeds : List Deed} {n : Nat}
    (h : SendsLog b msgs deeds b') (hb : Behind n msgs) : Late n deeds := by
  intro msg parent rest hs
  obtain ⟨before, after, b₁, heq, hafter⟩ := h.of_suffix hs
  exact lt_of_le_of_lt (hafter.items_sublist.countP_le) (hb before msg after heq)

theorem Late.append {n : Nat} {before deeds : List Deed} (hb : ∀ msg, .failed msg ∉ before)
    (h : Late n deeds) : Late n (before ++ deeds) := by
  intro msg parent rest hs
  refine h msg parent rest ?_
  induction before with
  | nil => exact hs
  | cons d before ih =>
    rcases List.suffix_cons_iff.1 hs with heq | hs
    · simp only [List.cons.injEq] at heq
      exact absurd (by simp [heq.1]) (hb msg)
    · exact ih (fun m hm => hb m (List.mem_cons_of_mem _ hm)) hs

theorem Behind.concat {n : Nat} {msgs : List Msg} (h : Behind n msgs) (hn : 0 < n) {msg : Msg}
    (hm : ∀ i, itemOf msg ≠ some (.client i)) : Behind n (msgs ++ [msg]) := by
  intro before m after heq
  rcases Trace.split_concat heq with ⟨rfl, rfl, rfl⟩ | ⟨after, hmsgs, rfl⟩
  · exact hn
  · have hzero : clientsOf ([msg].filterMap itemOf) = 0 := by
      cases hi : itemOf msg with
      | none => simp [hi]
      | some item =>
        cases item with
        | client i => exact absurd hi (hm i)
        | mask i e => simp [hi]
    have hlt := h before m after hmsgs
    rw [List.filterMap_append, clientsOf_append]
    omega

theorem clientsOf_items (s : Lib (N × List Deed)) : clientsOf (items s) = s.clients.length := by
  have hmasks : ∀ (id : Id) (masks : List Event), clientsOf (masks.map (.mask id)) = 0 := by
    intro id masks
    induction masks with
    | nil => rfl
    | cons mask masks ih => rw [List.map_cons, clientsOf_mask, ih]
  unfold items
  induction s.clients with
  | nil => rfl
  | cons c cs ih =>
    rw [List.flatMap_cons, clientsOf_append, ih, clientItems, clientsOf_client, hmasks,
      List.length_cons]
    omega

theorem filterMap_items {msgs : List Msg} (h : msgs.map itemOf = (items s).map some) :
    msgs.filterMap itemOf = items s := by
  have hid := congrArg (List.filterMap id) h
  rwa [List.filterMap_map, List.filterMap_map, Function.id_comp, Function.id_comp,
    List.filterMap_some] at hid

/-- The first message of `FTBCI_util_reconnect` registers a client. -/
theorem behind_items {msgs : List Msg} (h : msgs.map itemOf = (items s).map some) :
    Behind s.clients.length msgs := by
  intro before m after heq
  rw [← clientsOf_items, ← filterMap_items h]
  cases hc : s.clients with
  | nil =>
    rw [heq] at h
    simp [items, hc] at h
  | cons c cs =>
    cases hm : msgs with
    | nil =>
      rw [hm] at heq
      simp at heq
    | cons m₀ msgs' =>
      have hfirst : itemOf m₀ = some (.client c.id) := by
        rw [hm] at h
        simp only [items, hc, List.flatMap_cons, clientItems, List.map_cons, List.cons_append,
          List.cons.injEq] at h
        exact h.1
      have hsub : after.Sublist msgs' := by
        rw [hm] at heq
        cases before with
        | nil =>
          simp only [List.nil_append, List.cons.injEq] at heq
          rw [heq.2]
        | cons x before =>
          simp only [List.cons_append, List.cons.injEq] at heq
          rw [heq.2]
          exact (List.sublist_cons_self m after).trans (List.sublist_append_right before _)
      have hle : clientsOf (after.filterMap itemOf) ≤ clientsOf (msgs'.filterMap itemOf) :=
        (hsub.filterMap itemOf).countP_le
      have hone : clientsOf ((m₀ :: msgs').filterMap itemOf) =
          clientsOf (msgs'.filterMap itemOf) + 1 := by
        rw [List.filterMap_cons_some hfirst, clientsOf_client]
      omega

/-- A part of a call after which the process has `n` clients. -/
def Wrote (n : Nat) (s s' : Lib (N × List Deed)) : Prop :=
  ∃ deeds, log s' = log s ++ deeds ∧ Late n deeds

theorem wrote_nothing {n : Nat} (h : log s' = log s) : Wrote n s s' :=
  ⟨[], by rw [h, List.append_nil], late_nil n⟩

theorem failed_notMem_found (found : List LocationId) (msg : Msg) :
    Deed.failed msg ∉ Deed.broken :: found.map .attached := by
  simp

theorem Checked.leaf (h : Checked s s') : s'.manager.info.leaf = true := by
  cases h with
  | quiet hl _ => exact hl
  | broken _ _ _ _ hsends _ => exact hsends.leaf

theorem Checked.wrote (h : Checked s s') : Wrote s'.clients.length s s' := by
  cases h with
  | quiet _ hlog => exact wrote_nothing hlog
  | broken found hlog _ _ hsends hitems =>
    obtain ⟨deeds, hdeeds, hs⟩ := hsends.log
    refine ⟨(.broken :: found.map .attached) ++ deeds, by rw [hdeeds, hlog, List.append_assoc], ?_⟩
    exact (hs.late (behind_items hitems)).append (failed_notMem_found found)

end FTBC
