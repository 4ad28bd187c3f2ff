import Ftb.Manager.Proof.Catching
import Ftb.Manager.Closing

/-!
# The memory of an agent over a run

`turn_follows`: one turn of `progress_loop` touches only allocated memory and leaves the tables of
`Ftb.Agent`, unless it is told a mask that the component has already. `run_follows` is the same for
all turns of an agent.
-/

open FTB FTBU FTBN FTBMI Layout

namespace FTBM.Memory

variable {N : Type} {w : Network N} {A : Allocator Block}

/-! ## The loop of a notification -/

/-- The scratch of a turn that has the list. -/
def listed (list : List (Option Id)) : Nat → Option Block :=
  Function.update (fun _ => none) 1 (some (.ids list))

theorem notifyLoop_run (msg : Msg) (incomingSrc : LocationId) {place : Nat → Nat}
    {list : List (Option Id)} :
    ∀ (slots : List Nat) {lost : Nat} {m : Manager N} {a : Image N},
      Keeps place lost (listed list) m a → Inv m.info → m.info.ready = true →
      (Agent.notifyLoop w msg incomingSrc (slots.map fun i => (list[i]?).join) m = none ∧
          notifyLoop w A msg incomingSrc (place 1) slots a = none) ∨
        ∃ lost' m' a',
          Agent.notifyLoop w msg incomingSrc (slots.map fun i => (list[i]?).join) m = some m' ∧
          notifyLoop w A msg incomingSrc (place 1) slots a = some a' ∧
          Keeps place lost' (listed list) m' a'
  | [], lost, m, a, hk, _, _ => .inr ⟨lost, m, a, rfl, rfl, hk⟩
  | i :: slots, lost, m, a, hk, hi, hr => by
    obtain ⟨⟨L, hh, hplace⟩, hnet⟩ := hk
    have hread : idsAt a.heap (place 1) = some list := by
      rw [← hplace]
      exact idsAt_of hh.laid (o := (.inr (.scratch 1) : Owner)) (scratch_block (by simp [listed]))
    rw [List.map_cons, notifyLoop, hread]
    simp only [Option.bind_eq_bind, Option.bind_some]
    cases hs : list[i]? with
    | none => exact .inl ⟨rfl, rfl⟩
    | some slot =>
      cases slot with
      | none => exact .inl ⟨rfl, rfl⟩
      | some id =>
        simp only [Option.join_some, Agent.notifyLoop]
        cases hin : Agent.isIncomingAgent id incomingSrc with
        | true => exact notifyLoop_run msg incomingSrc slots ⟨⟨L, hh, hplace⟩, hnet⟩ hi hr
        | false =>
          have hcopy := send_run (w := w) (A := A) hh hi hr
            { msgType := .notify, src := msg.src, dst := id, event := msg.event }
          have hm : (⟨m.info, a.net⟩ : Manager N) = m := by rw [hnet]
          rw [hm] at hcopy
          simp only [Bool.false_eq_true, if_false]
          rcases hcopy with ⟨hsend, hsend'⟩ | ⟨lost', ret, m', a', hsend, hsend', hk'⟩
          · simp only [hsend, hsend', Option.bind_none]
            exact .inl ⟨rfl, trivial⟩
          · have hcall : FTBM.call w m
                (.send { msgType := .notify, src := msg.src, dst := id, event := msg.event }) = some m' := by
              simp [FTBM.call, hsend]
            simp only [hsend, hsend', Option.bind_some]
            have hp : (fun k => L (.inr (.scratch k))) = place := funext hplace
            rw [hp] at hk'
            exact notifyLoop_run msg incomingSrc slots hk' (inv_call w _ hi hcall)
              (ready_call w hcall hr)

theorem slots_eq (ids : List Id) :
    (List.range ids.length).map (fun i => ((ids.map some)[i]?).join) = ids.map some := by
  refine List.ext_getElem (by simp) fun i h₁ h₂ => ?_
  simp only [List.length_map, List.length_range] at h₁ h₂
  simp [h₁]

theorem notify_run {lost : Nat} {m : Manager N} {a : Image N}
    (hf : Follows lost (fun _ => none) m a) (hi : Inv m.info) (hr : m.info.ready = true) {msg : Msg}
    (hmsg : msg.msgType = .notify) (incomingSrc : LocationId) :
    ∃ lost' m' a', Agent.progressLoop w msg incomingSrc m = some m' ∧
      progressLoop w A msg incomingSrc a = some a' ∧ Follows lost' (fun _ => none) m' a' ∧
      Inv m'.info ∧ m'.info.ready = true := by
  obtain ⟨⟨L, hh⟩, hnet⟩ := hf
  obtain ⟨l, L', h', hl, hrun, hh'⟩ := getCatcherCompList_run (A := A) hh hi hr msg.event
  have hinit : m.info.initialized = true := (NodeInfo.ready_iff.1 hr).1
  obtain ⟨l', ids, hl', hlist, hlen, -, hd, hmem⟩ := getCatcherCompList_spec hinit msg.event
  obtain rfl : l = l' := Except.ok.inj (hl.symm.trans hl')
  have hp : ∀ i ∈ ids, m.info.isPeer i = true := by
    intro i hx
    obtain ⟨mask, -, hm⟩ := (hmem i).1 ⟨i, hx, KeyEq.refl i⟩
    exact hi.isPeer_of_listed hm
  obtain ⟨m', habs, -, -, hkept⟩ := Agent.notifyLoop_kept w msg incomingSrc hi hr hd hp
  have hk : Keeps (fun k => L' (.inr (.scratch k))) lost (listed l.list) m { a with heap := h' } :=
    ⟨⟨L', hh', fun _ => rfl⟩, hnet⟩
  have hloop := notifyLoop_run (w := w) (A := A) msg incomingSrc (List.range l.len) hk hi hr
  rw [hlen, hlist, slots_eq, habs] at hloop
  obtain ⟨hn, -⟩ | ⟨lost', m'', a', hm, hloop, ⟨L'', hh'', hplace⟩, hnet'⟩ := hloop
  · cases hn
  · cases hm
    obtain ⟨h₂, hfree, hh₂⟩ := hh''.scratchFree (k := 1) (b := .ids (ids.map some))
      (by simp [listed])
    rw [hplace] at hfree
    have hnone : Function.update (listed (ids.map some)) 1 none = fun _ => none := by
      rw [listed, Function.update_idem]
      exact Function.update_eq_self ..
    rw [hnone] at hh₂
    refine ⟨lost', m', { a' with heap := h₂ }, ?_, ?_, ⟨⟨L'', hh₂⟩, hnet'⟩, hkept.inv, hkept.ready⟩
    · unfold Agent.progressLoop
      simp only [hmsg, hl, hlist, habs]
    · unfold progressLoop
      simp only [hmsg, hrun, Option.bind_eq_bind, Option.bind_some, hlen, hloop, releaseCompList, hfree]
      rfl

/-! ## One turn -/

theorem lookupOnly_run {L : Owner → Nat} {s : NodeInfo} {lost : Nat} {scratch : Nat → Option Block}
    {a : Image N} (h : HoldsAt L s lost scratch a) (hi : Inv s) (hr : s.ready = true) (id : Id) :
    ∃ ret, lookupOnly id a = some ret := by
  have hinit : a.initialized = true := h.initialized.trans (NodeInfo.ready_iff.1 hr).1
  unfold lookupOnly
  rw [if_neg (by simp [hinit]), h.lookup hi]
  cases s.peers.find? id with
  | none => exact ⟨_, rfl⟩
  | some c => exact ⟨_, rfl⟩

/-- The message asks for a mask that its component has already. -/
def Repeats (msg : Msg) (s : NodeInfo) : Prop :=
  msg.msgType = .regSubscription ∧ s.listed msg.src msg.event = true

/-- A mask that its component has already is looked up through freed memory. -/
theorem turn_repeats {lost : Nat} {m : Manager N} {a : Image N}
    (hf : Follows lost (fun _ => none) m a) (hi : Inv m.info) (hr : m.info.ready = true) {msg : Msg}
    (incomingSrc : LocationId) (h : Repeats msg m.info) :
    progressLoop w A msg incomingSrc a = none := by
  obtain ⟨⟨L, hh⟩, -⟩ := hf
  simp only [progressLoop, h.1, registerSubscription_twice hh hi hr h.2, Option.map_none]

/-- **One turn** on the tables in memory does what the turn of the agent does. -/
theorem turn_follows {lost : Nat} {m : Manager N} {a : Image N}
    (hf : Follows lost (fun _ => none) m a) (hi : Inv m.info) (hr : m.info.ready = true) {msg : Msg}
    (incomingSrc : LocationId) (h : ¬Repeats msg m.info) :
    ∃ lost' m' a', Agent.progressLoop w msg incomingSrc m = some m' ∧
      progressLoop w A msg incomingSrc a = some a' ∧ Follows lost' (fun _ => none) m' a' ∧
      Inv m'.info ∧ m'.info.ready = true := by
  have hnotify := fun ht : msg.msgType = .notify =>
    notify_run (w := w) (A := A) hf hi hr ht incomingSrc
  have hcall : ∀ {c m'}, FTBM.call w m c = some m' → Inv m'.info ∧ m'.info.ready = true :=
    fun hc => ⟨inv_call w _ hi hc, ready_call w hc hr⟩
  have hsame := hf
  obtain ⟨⟨L, hh⟩, hnet⟩ := hf
  have hm : (⟨m.info, a.net⟩ : Manager N) = m := by rw [hnet]
  unfold Agent.progressLoop progressLoop at *
  cases ht : msg.msgType with
  | notify => simpa [ht] using hnotify ht
  | clientReg =>
    obtain ⟨ret, a', hrun, hfol⟩ := clientRegister_run (w := w) (A := A) hh hi hr msg.src
    have heq := clientRegister_eq w msg.src m
    rw [if_pos hr] at heq
    rw [hnet, ← heq] at hfol
    exact ⟨lost, _, a', rfl, by simp only [hrun, Option.map_some], hfol,
      hcall (c := .clientRegister msg.src) rfl⟩
  | clientDereg =>
    obtain ⟨lost', ret, a', hrun, hfol⟩ :=
      clientDeregister_run (w := w) (A := A) hh hi hr msg.src
    rw [hm] at hfol
    exact ⟨lost', _, a', rfl, by simp only [hrun, Option.map_some], hfol,
      hcall (c := .clientDeregister msg.src) rfl⟩
  | cleanupConn =>
    obtain ⟨lost', ret, a', hrun, hfol⟩ :=
      cleanupConnection_run (w := w) (A := A) hh hi hr incomingSrc
    rw [hm] at hfol
    exact ⟨lost', _, a', rfl, by simp only [hrun, Option.map_some], hfol,
      hcall (c := .cleanupConnection incomingSrc) rfl⟩
  | regSubscription =>
    have hlisted : m.info.listed msg.src msg.event = false := by
      by_contra hl
      rw [Bool.not_eq_false] at hl
      exact h ⟨ht, hl⟩
    obtain ⟨ret, a', hrun, hfol⟩ := registerSubscription_run (w := w) (A := A) hh hi hr hlisted
    have heq := registerSubscription_eq w msg.src msg.event m
    rw [if_pos hr] at heq
    rw [hnet, ← heq] at hfol
    exact ⟨lost, _, a', rfl, by simp only [hrun, Option.map_some], hfol,
      hcall (c := .registerSubscription msg.src msg.event) rfl⟩
  | subscriptionCancel =>
    obtain ⟨ret, a', hrun, hfol⟩ := cancelSubscription_run (w := w) hh hi hr msg.src msg.event
    have heq := cancelSubscription_eq w msg.src msg.event m
    rw [if_pos hr] at heq
    rw [hnet, ← heq] at hfol
    exact ⟨lost, _, a', rfl, by simp only [hrun, Option.map_some], hfol,
      hcall (c := .cancelSubscription msg.src msg.event) rfl⟩
  | regPublishableEvent =>
    obtain ⟨ret, hret⟩ := lookupOnly_run hh hi hr msg.src
    exact ⟨lost, m, a, rfl, by simp only [hret, Option.map_some], hsame, hi, hr⟩
  | publishableEventRegCancel =>
    obtain ⟨ret, hret⟩ := lookupOnly_run hh hi hr msg.src
    exact ⟨lost, m, a, rfl, by simp only [hret, Option.map_some], hsame, hi, hr⟩
  | unknown t => exact ⟨lost, m, a, rfl, rfl, hsame, hi, hr⟩

/-! ## All turns -/

/-- The turns of `progress_loop` on the messages and the locations that `FTBM_Recv` returned. -/
def turns (w : Network N) (alloc : Allocator Block) : List (Msg × LocationId) → Image N → Option (Image N)
  | [], a => some a
  | (msg, incomingSrc) :: msgs, a => do
    let a ← progressLoop w alloc msg incomingSrc a
    turns w alloc msgs a

/-- The same turns of the agent without the memory. -/
def plainTurns (w : Network N) : List (Msg × LocationId) → Manager N → Option (Manager N)
  | [], m => some m
  | (msg, incomingSrc) :: msgs, m => do
    let m ← Agent.progressLoop w msg incomingSrc m
    plainTurns w msgs m

/-- No turn is asked for a mask that its component has already. -/
def NoRepeat (w : Network N) : List (Msg × LocationId) → Manager N → Prop
  | [], _ => True
  | (msg, incomingSrc) :: msgs, m =>
    ¬Repeats msg m.info ∧ ∀ m', Agent.progressLoop w msg incomingSrc m = some m' → NoRepeat w msgs m'

theorem turns_follow :
    ∀ (msgs : List (Msg × LocationId)) {lost : Nat} {m : Manager N} {a : Image N},
      Follows lost (fun _ => none) m a → Inv m.info → m.info.ready = true →
      (¬NoRepeat w msgs m ∧ turns w A msgs a = none) ∨
        NoRepeat w msgs m ∧ ∃ lost' m' a', plainTurns w msgs m = some m' ∧
          turns w A msgs a = some a' ∧ Follows lost' (fun _ => none) m' a' ∧ Inv m'.info ∧
          m'.info.ready = true
  | [], lost, m, a, hf, hi, hr => .inr ⟨trivial, lost, m, a, rfl, rfl, hf, hi, hr⟩
  | (msg, incomingSrc) :: msgs, lost, m, a, hf, hi, hr => by
    by_cases hrep : Repeats msg m.info
    · refine .inl ⟨fun h => h.1 hrep, ?_⟩
      rw [turns, turn_repeats hf hi hr incomingSrc hrep]
      rfl
    · obtain ⟨lost₁, m₁, a₁, hm, ha, hf₁, hi₁, hr₁⟩ :=
        turn_follows (w := w) (A := A) hf hi hr incomingSrc hrep
      have hclear : NoRepeat w ((msg, incomingSrc) :: msgs) m ↔ NoRepeat w msgs m₁ := by
        refine ⟨fun h => h.2 m₁ hm, fun h => ⟨hrep, fun m' hm' => ?_⟩⟩
        rw [hm] at hm'
        cases hm'
        exact h
      rw [hclear, turns, plainTurns, hm, ha]
      exact turns_follow msgs hf₁ hi₁ hr₁

/-- **The memory of an agent.** After `FTBM_Init` and any turns, the agent has read and written only
allocated memory, and what is allocated is its tables and the sets that `FTBMI_util_reconnect` lost, if
no message asked for a mask that its component had already; it reads freed memory if one did. -/
theorem run_follows (w : Network N) (alloc : Allocator Block) (location : LocationId) (net : N)
    (msgs : List (Msg × LocationId)) :
    ∃ a, init w alloc location net = some (.success, a) ∧
      ((¬NoRepeat w msgs (FTBM.init w false location net).2 ∧ turns w alloc msgs a = none) ∨
        NoRepeat w msgs (FTBM.init w false location net).2 ∧ ∃ m' a',
          plainTurns w msgs (FTBM.init w false location net).2 = some m' ∧
          turns w alloc msgs a = some a' ∧ Follows a'.lostSets.length (fun _ => none) m' a') := by
  obtain ⟨a, hinit, hf⟩ := init_run w alloc location net
  have hready : (FTBM.init w false location net).2.info.ready = true :=
    Agent.ready_runCalls w (show runCalls w false location net [] = some _ from rfl)
  refine ⟨a, hinit, ?_⟩
  rcases turns_follow (w := w) (A := alloc) msgs hf (inv_init w false location net) hready with
    hno | ⟨hclear, lost, m', a', hm, ha, hf', -, -⟩
  · exact .inl hno
  · rw [← hf'.length_lostSets] at hf'
    exact .inr ⟨hclear, m', a', hm, ha, hf'⟩

/-- **The end of an agent.** After any turns, `FTBM_Finalize` reads freed memory exactly when a
component after the first has a mask; otherwise it frees all that the tables hold, and what is left are
the sets that were lost before. -/
theorem finalize_after_run (w : Network N) (alloc : Allocator Block) (location : LocationId) (net : N)
    (msgs : List (Msg × LocationId)) (ending : N → N) :
    ∃ a, init w alloc location net = some (.success, a) ∧
      (turns w alloc msgs a = none ∨ ∃ m' a',
        plainTurns w msgs (FTBM.init w false location net).2 = some m' ∧
        turns w alloc msgs a = some a' ∧ Follows a'.lostSets.length (fun _ => none) m' a' ∧
        (finalize w ending a' = none ∧ (∃ c ∈ m'.info.peers.nodes.tail, c.catchEventSet.nodes ≠ []) ∨
          ∃ b, finalize w ending a' = some (.success, b) ∧
            (∀ x block, b.heap.cells x = some block ↔ x ∈ a'.lostSets ∧ block = .map []) ∧
            {x | b.heap.cells x ≠ none}.ncard = a'.lostSets.length ∧
            ¬∃ c ∈ m'.info.peers.nodes.tail, c.catchEventSet.nodes ≠ [])) := by
  obtain ⟨a, hinit, hf⟩ := init_run w alloc location net
  have hready : (FTBM.init w false location net).2.info.ready = true :=
    Agent.ready_runCalls w (show runCalls w false location net [] = some _ from rfl)
  refine ⟨a, hinit, ?_⟩
  rcases turns_follow (w := w) (A := alloc) msgs hf (inv_init w false location net) hready with
    ⟨-, hno⟩ | ⟨-, lost, m', a', hm, ha, hf', hi', hr'⟩
  · exact .inl hno
  · rw [← hf'.length_lostSets] at hf'
    refine .inr ⟨m', a', hm, ha, hf', ?_⟩
    obtain ⟨⟨L, hh⟩, -⟩ := hf'
    have hinit' : a'.initialized = true := hh.initialized.trans (NodeInfo.ready_iff.1 hr').1
    rcases finalize_cases (w := w) ending hi' hh hinit' with hnone | ⟨h', net', hrun, hl, hno⟩
    · exact .inl hnone
    · exact .inr ⟨_, hrun, leftover_cells hh hl, hl.ncard.trans ncard_leftover, hno⟩

/-! ## A set that is lost -/

/-- The lowest free address below 16, when there is one. -/
def firstFit : Allocator Block where
  pick h := ((List.range 16).find? fun x => (h.cells x).isNone).getD (Allocator.lowest.pick h)
  unused h := by
    cases hf : (List.range 16).find? fun x => (h.cells x).isNone with
    | none => exact Allocator.lowest.unused h
    | some x =>
      exact Option.isNone_iff_eq_none.1 (List.find?_some (p := fun x => (h.cells x).isNone) hf)

/-- The layer that finds the parents of its state, one each time it connects. -/
def offering : Network (List LocationId) where
  sendMsg _ net := (.success, net)
  connect _ _ net := (.success, net.headD default, net.tail)
  disconnectPeer _ net := (.success, net)

/-- The process `pid` of one host. -/
def processOf (pid : Int) : LocationId := { (default : LocationId) with pid }

/-- Agent 3 registers and subscribes; then the connection with agent 2 is lost. -/
def childThenLoss : List (Msg × LocationId) :=
  let child := agentId (processOf 3)
  [(⟨.clientReg, child, default, default⟩, processOf 3),
    (⟨.regSubscription, child, default, default⟩, processOf 3),
    (⟨.cleanupConn, default, default, default⟩, processOf 2)]

/-- The parent 2 is lost and the child 3 is found as the new parent: the set that
`FTBMI_util_reconnect` makes for it is all that is left at the end. -/
theorem finalize_after_run_lost : ∃ a a' b,
    init offering firstFit (processOf 1) [processOf 2, processOf 3] = some (.success, a) ∧
    turns offering firstFit childThenLoss a = some a' ∧ a'.lostSets = [3] ∧
    finalize offering id a' = some (.success, b) ∧
    ∀ x block, b.heap.cells x = some block ↔ x = 3 ∧ block = .map [] := by
  have hlost : ((init offering firstFit (processOf 1) [processOf 2, processOf 3]).bind fun r =>
      (turns offering firstFit childThenLoss r.2).map Image.lostSets) = some [3] := by decide +kernel
  have hends : ((init offering firstFit (processOf 1) [processOf 2, processOf 3]).bind fun r =>
      (turns offering firstFit childThenLoss r.2).bind fun a => finalize offering id a).isSome = true := by
    decide +kernel
  obtain ⟨a, hinit, hrun⟩ := finalize_after_run offering firstFit (processOf 1)
    [processOf 2, processOf 3] childThenLoss id
  rw [hinit, Option.bind_some] at hlost hends
  rcases hrun with hno | ⟨m', a', -, ha, -, hrun⟩
  · simp [hno] at hlost
  · simp only [ha, Option.map_some, Option.some.injEq, Option.bind_some] at hlost hends
    rcases hrun with ⟨hno, -⟩ | ⟨b, hb, hcells, -⟩
    · simp [hno] at hends
    · exact ⟨a, a', b, hinit, ha, hlost, hb, fun x block => by simp [hcells, hlost]⟩

end FTBM.Memory
