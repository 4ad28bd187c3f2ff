import Ftb.Tcp.Proof.Held

/-!
# Descriptors are closed once

Each function over the connection table keeps the invariant of `Ftb.Tcp.Proof.Held`. Behind
`FTBN_Finalize` no entry is left, so a run that ends with it has closed every descriptor once,
before its entry was freed, exactly when none of its reads and writes failed
(`descriptors_closed_once`).
-/

open FTB FTBU Journal

namespace FTBN.Io

/-! ## The functions -/

section
variable {table : List ConnectionEntry} {k : Nat} (lay : Layout) (mem : Memory)

theorem hoare_utilConnectTo (regMsg : Msg) :
    Hoare FdOp.exec (On table k (table.map ConnectionEntry.mark)) (utilConnectTo lay mem regMsg)
      fun _ => Tidy k := by
  refine hoare_sysSocket.bind fun r => ?_
  cases r with
  | none => exact Hoare.pure fun _ _ h => h.tidy
  | some fd =>
    let new : ConnectionEntry := { errFlag := false, fd, dst := default, refCount := 0 }
    refine hoare_sysReach.bind fun r => ?_
    cases r with
    | some ret => exact (hoare_closeFree new).bind fun _ => Hoare.pure fun _ _ h => h.tidy
    | none =>
      refine Hoare.get.bind fun s => ?_
      refine @hoare_utilWrite_bind _ _ _ _ new _ _ _ fun entry₁ h₁ => ?_
      refine hoare_utilWrite_bind fun entry₂ h₂ => hoare_utilWrite_bind fun entry₃ h₃ => ?_
      refine hoare_utilRead_bind fun entry₄ bytes h₄ => ?_
      have hcount : entry₄.refCount = 0 := (((h₁.trans h₂).trans h₃).trans h₄).refCount
      refine Hoare.ite (fun _ => ?_) fun _ => ?_
      · exact (hoare_closeFree _).bind fun _ => Hoare.pure fun _ _ h => h.tidy
      · let added : ConnectionEntry := { entry₄ with dst := lay.toLocationId bytes }
        exact @hoare_addFront _ _ _ added _ hcount (hoare_pure _)

/-- `FTBN_Send_msg` holds its reference under the lock of the table. -/
theorem hoare_sendMsg (msg : Msg) :
    Hoare FdOp.exec (Tidy k) (sendMsg lay msg) fun _ => Tidy k := by
  refine hoare_connections.bind fun conns => ?_
  cases hfind : findConnection msg.dst.locationId conns with
  | none => exact Hoare.pure fun _ _ h => h.tidy
  | some conn =>
    have hmem : conn ∈ conns := List.mem_of_find?_eq_some hfind
    refine Hoare.of_pre (fun _ _ h => h.1.2 conn hmem) fun hidle => ?_
    refine Hoare.conseq (P := On conns k (conn.mark :: (conns.erase conn).map ConnectionEntry.mark))
      ?_ (fun _ _ h => ⟨h.1, h.2.perm (marks_erase hmem)⟩) fun _ _ _ h => h
    refine @hoare_utilWrite_bind _ _ _ _ { conn with refCount := conn.refCount + 1 } _ _ _
      fun sent hsent => ?_
    have hcount : sent.refCount - 1 = 0 := by simp [hsent.refCount, hidle]
    refine Hoare.ite (fun _ => ?_) fun hflag => ?_
    · rw [if_pos hcount]
      exact hoare_remove (hoare_pure _)
    · have hmark : sent.mark = conn.mark := hsent.mark (by simpa using hflag)
      rw [hmark]
      exact Hoare.pure fun _ _ h => On.tidy ⟨h.1, h.2.perm (marks_erase hmem).symm⟩

/-- An entry of the table is read; a broken one is taken out. -/
theorem hoare_readEntry {α : Type} {conn : ConnectionEntry} {buf : List UInt8} {x : α}
    {f : List UInt8 → NetProg α} (hmem : conn ∈ table)
    (hf : ∀ bytes, Hoare FdOp.exec (On table k (table.map ConnectionEntry.mark)) (f bytes)
      fun _ => Tidy k) :
    Hoare FdOp.exec (On table k (table.map ConnectionEntry.mark))
      (do
        let r ← utilRead conn buf
        if r.1.errFlag then do
          setConnections (table.erase conn)
          closeFree r.1
          pure x
        else f r.2)
      fun _ => Tidy k := by
  refine Hoare.conseq (P := On table k (conn.mark :: (table.erase conn).map ConnectionEntry.mark))
    ?_ (fun _ _ h => ⟨h.1, h.2.perm (marks_erase hmem)⟩) fun _ _ _ h => h
  refine hoare_utilRead_bind fun got bytes hgot => ?_
  refine Hoare.ite (fun _ => hoare_remove (hoare_pure _)) fun hflag => ?_
  rw [hgot.mark (by simpa using hflag)]
  exact (hf bytes).conseq (fun _ _ h => ⟨h.1, h.2.perm (marks_erase hmem).symm⟩) fun _ _ _ h => h

theorem hoare_recvLoop (blocking : Bool) (n : Nat) :
    Hoare FdOp.exec (Tidy k) (recvLoop lay mem blocking n) fun _ => Tidy k := by
  induction n with
  | zero => exact Hoare.undefined
  | succ n ih =>
    have hnext (conns : List ConnectionEntry) :
        Hoare FdOp.exec (On conns k (conns.map ConnectionEntry.mark)) (recvLoop lay mem blocking n)
          fun _ => Tidy k :=
      ih.conseq (fun _ _ h => h.tidy) fun _ _ _ h => h
    refine hoare_connections.bind fun conns => hoare_sysSelect.bind fun r => ?_
    cases r with
    | again => exact hnext conns
    | fail => exact Hoare.pure fun _ _ h => h.tidy
    | ready fds =>
      cases hfind : conns.find? fun conn => conn.fd ∈ fds with
      | none =>
        dsimp only
        rw [hfind]
        exact Hoare.ite (fun _ => hnext conns) fun _ => Hoare.pure fun _ _ h => h.tidy
      | some conn =>
        dsimp only
        rw [hfind]
        exact hoare_readEntry (x := (Ret.errNetworkGeneral, none))
          (f := fun bytes => pure (Ret.success, some (lay.toMsg bytes, conn.dst)))
          (List.mem_of_find?_eq_some hfind) fun bytes => Hoare.pure fun _ _ h => h.tidy

theorem hoare_grabReady (conns : List ConnectionEntry) (fds : List Fd) :
    ∀ (rest : List ConnectionEntry) (msgs : List (Msg × LocationId)),
      (∀ conn ∈ rest, conn ∈ conns) →
      Hoare FdOp.exec (On conns k (conns.map ConnectionEntry.mark))
        (grabReady lay mem conns fds rest msgs) fun _ => Tidy k := by
  intro rest
  induction rest with
  | nil => exact fun msgs _ => Hoare.pure fun _ _ h => h.tidy
  | cons conn rest ih =>
    intro msgs hrest
    have hmem : ∀ c ∈ rest, c ∈ conns := fun c hc => hrest c (List.mem_cons_of_mem _ hc)
    refine Hoare.ite (fun _ => ?_) fun _ => ih msgs hmem
    exact hoare_readEntry (x := ⟨some .errNetworkGeneral, msgs, some conn.dst⟩)
      (f := fun bytes => grabReady lay mem conns fds rest (msgs ++ [(lay.toMsg bytes, conn.dst)]))
      (hrest conn (List.mem_cons_self ..)) fun bytes => ih _ hmem

theorem hoare_grabConnections (fds : List Fd) (msgs : List (Msg × LocationId)) :
    Hoare FdOp.exec (Tidy k) (grabConnections lay mem fds msgs) fun _ => Tidy k :=
  hoare_connections.bind fun conns => hoare_grabReady lay mem conns fds conns msgs fun _ h => h

/-- The greeting of a new connection may fail and leave a flagged entry in the table. -/
theorem hoare_grabAccepted (fd : Fd) :
    Hoare FdOp.exec (On table k ((fd, false) :: table.map ConnectionEntry.mark))
      (grabAccepted lay mem fd) fun _ => Tidy k := by
  let new : ConnectionEntry := { errFlag := false, fd, dst := default, refCount := 0 }
  have hgone (entry : ConnectionEntry) (r : Option (List (Msg × LocationId))) :
      Hoare FdOp.exec (On table k (entry.mark :: table.map ConnectionEntry.mark))
        (do
          closeFree entry
          pure r)
        fun _ => Tidy k :=
    (hoare_closeFree entry).bind fun _ => Hoare.pure fun _ _ h => h.tidy
  refine Hoare.get.bind fun s => ?_
  refine @hoare_utilRead_bind _ _ _ _ new _ _ _ fun entry₁ bytes h₁ => ?_
  refine Hoare.ite (fun _ => hgone _ none) fun _ => ?_
  refine hoare_utilRead_bind fun entry₂ dst h₂ => hoare_utilRead_bind fun entry₃ bytes h₃ => ?_
  let named : ConnectionEntry := { entry₃ with dst := lay.toLocationId dst }
  refine Hoare.ite (fun _ => hgone named (some [])) fun _ => ?_
  refine @hoare_utilWrite_bind _ _ _ _ named _ _ _ fun entry₄ h₄ => ?_
  have hcount : entry₄.refCount = 0 := by
    rw [h₄.refCount]
    exact ((h₁.trans h₂).trans h₃).refCount
  exact hoare_addFront hcount (hoare_pure _)

theorem hoare_grabTurn {next : NetProg Grabbed}
    (hnext : Hoare FdOp.exec (Tidy k) next fun _ => Tidy k) (fds : List Fd) (listenFd : Option Fd) :
    Hoare FdOp.exec (On table k (table.map ConnectionEntry.mark))
      (grabTurn lay mem next fds listenFd) fun _ => Tidy k := by
  refine Hoare.ite (fun _ => hoare_sysAccept.bind fun r => ?_) fun _ =>
    (hoare_grabConnections lay mem fds []).conseq (fun _ _ h => h.tidy) fun _ _ _ h => h
  cases r with
  | none =>
    -- the process ends
    have hover : Hoare FdOp.exec (On table k (table.map ConnectionEntry.mark))
        (Prog.modify fun s : Net => { s with connectionTable := none }) fun _ => Tidy k := by
      refine Hoare.modify fun s o h => ⟨fun t ht => ?_, fun _ ho => ?_⟩
      · cases ht
      · subst ho
        exact h.2
    exact hover.bind fun _ => hoare_pure _
  | some fd =>
    refine (hoare_grabAccepted lay mem fd).bind fun r => ?_
    cases r with
    | none => exact hnext
    | some msgs => exact hoare_grabConnections lay mem fds msgs

theorem hoare_grabLoop (n : Nat) :
    Hoare FdOp.exec (Tidy k) (grabLoop lay mem n) fun _ => Tidy k := by
  induction n with
  | zero => exact Hoare.undefined
  | succ n ih =>
    refine Hoare.get.bind fun s => hoare_connections.bind fun conns => ?_
    refine hoare_sysSelect.bind fun r => ?_
    cases r with
    | again => exact ih.conseq (fun _ _ h => h.tidy) fun _ _ _ h => h
    | fail => exact hoare_grabTurn lay mem ih _ _
    | ready fds => exact hoare_grabTurn lay mem ih fds _

theorem hoare_disconnectPeer (peerLocationId : LocationId) :
    Hoare FdOp.exec (Tidy k) (disconnectPeer peerLocationId) fun _ => Tidy k := by
  refine hoare_connections.bind fun conns => ?_
  cases hfind : findConnection peerLocationId conns with
  | none => exact Hoare.pure fun _ _ h => h.tidy
  | some conn =>
    have hmem : conn ∈ conns := List.mem_of_find?_eq_some hfind
    refine Hoare.ite (fun _ => Hoare.undefined) fun _ => ?_
    refine Hoare.conseq (P := On conns k (conn.mark :: (conns.erase conn).map ConnectionEntry.mark))
      ?_ (fun _ _ h => ⟨h.1, h.2.perm (marks_erase hmem)⟩) fun _ _ _ h => h
    refine Hoare.of_pre (fun _ _ h => h.1.2) fun hidle => ?_
    refine (hoare_closeFree conn).bind fun _ => ?_
    refine (hoare_setConnections fun e he => hidle e (List.mem_of_mem_erase he)).bind fun _ => ?_
    exact Hoare.pure fun _ _ h => h.tidy

theorem hoare_closeAll (conns : List ConnectionEntry) :
    Hoare FdOp.exec (On table k (conns.map ConnectionEntry.mark)) (closeAll conns)
      fun _ => On table k [] := by
  induction conns with
  | nil => exact Hoare.pure fun _ _ h => h
  | cons entry conns ih => exact (hoare_closeFree entry).bind fun _ => ih

/-- Behind `FTBN_Finalize` a read or a write failed exactly when a descriptor was used wrongly. -/
theorem hoare_finalize :
    Hoare FdOp.exec (Tidy k) finalize fun _ s o =>
      s.connectionTable = none ∧ (o = none ↔ s.failing < k) := by
  refine hoare_connections.bind fun conns => (hoare_closeAll conns).bind fun _ => ?_
  have hlisten : Hoare FdOp.exec (On conns k []) closeListen
      fun _ s o => o = none ↔ s.failing < k := by
    intro s o h _ s' ops hr
    obtain ⟨-, h⟩ := h
    unfold closeListen at hr
    obtain ⟨x, mid, hx, hr⟩ := Prog.lift_bind_eq_some.1 hr
    cases hx
    cases o with
    | none =>
      have hfail : s'.failing < k := by
        have hlt : s.failing < k := h
        cases hl : s.listenFd with
        | none =>
          simp only [hl] at hr
          cases hr
          exact hlt
        | some fd =>
          simp only [hl] at hr
          cases hr
          exact hlt
      rw [follow_none]
      exact iff_of_true rfl hfail
    | some held =>
      obtain ⟨hheld, hfail, -⟩ := h
      have hok : ¬s.failing < k := fun hlt => by simpa using hfail.1 hlt
      cases hl : s.listenFd with
      | none =>
        simp only [hl] at hr
        cases hr
        exact iff_of_false (by simp) hok
      | some fd =>
        simp only [hl] at hr
        cases hr
        have hfd : fd ∈ held := (hheld.listen fd hl).1
        have hexec : FdOp.exec (.close fd) held = some (held.erase fd) := if_pos hfd
        refine iff_of_false ?_ hok
        rw [follow_cons, Option.bind_some, hexec]
        simp
  refine hlisten.bind fun _ => Hoare.bind (R := fun _ s o => s.connectionTable = none ∧
    (o = none ↔ s.failing < k)) (Hoare.modify fun s o h => ⟨rfl, h⟩) fun _ => ?_
  exact Hoare.pure fun _ _ h => h

end

/-! ## Any calls -/

variable {lay : Layout} {k : Nat}

theorem hoare_call {table : List ConnectionEntry} (call : Call) :
    Hoare FdOp.exec (On table k (table.map ConnectionEntry.mark)) (call.prog lay)
      fun _ => Tidy k := by
  have htidy : ∀ s o, On table k (table.map ConnectionEntry.mark) s o → Tidy k s o :=
    fun _ _ h => h.tidy
  cases call with
  | connectTo mem regMsg =>
    exact (hoare_utilConnectTo lay mem regMsg).bind fun _ => hoare_pure ()
  | sendMsg msg =>
    exact ((hoare_sendMsg lay msg).conseq htidy fun _ _ _ h => h).bind fun _ => hoare_pure ()
  | recvMsg mem isNull blocking =>
    refine Hoare.bind (R := fun _ => Tidy k) ?_ fun _ => hoare_pure ()
    refine Hoare.ite (fun _ => Hoare.pure htidy) fun _ => Hoare.get.bind fun s => ?_
    exact (hoare_recvLoop lay mem blocking _).conseq htidy fun _ _ _ h => h
  | grabMessages mem =>
    refine Hoare.bind (R := fun _ => Tidy k) (Hoare.get.bind fun s => ?_) fun _ => hoare_pure ()
    exact (hoare_grabLoop lay mem _).conseq htidy fun _ _ _ h => h
  | disconnectPeer peerLocationId =>
    refine Hoare.bind (R := fun _ => Tidy k) ?_ fun _ => hoare_pure ()
    exact (hoare_disconnectPeer peerLocationId).conseq htidy fun _ _ _ h => h
  | finalize =>
    refine (hoare_finalize.conseq htidy fun _ _ _ h => h).bind fun _ => Hoare.pure fun s o h => ?_
    refine ⟨fun t ht => ?_, fun _ ho => h.2.1 ho⟩
    rw [h.1] at ht
    cases ht

theorem hoare_runCalls (calls : List Call) :
    Hoare FdOp.exec (Tidy k) (runCalls lay calls) fun _ => Tidy k := by
  induction calls with
  | nil => exact hoare_pure ()
  | cons call calls ih =>
    exact hoare_connections.bind fun conns => (hoare_call call).bind fun _ => ih

theorem hoare_runCalls_finalize (calls : List Call) :
    Hoare FdOp.exec (Tidy k) (runCalls lay (calls ++ [.finalize]))
      fun _ s o => o = none ↔ s.failing < k := by
  induction calls with
  | nil =>
    refine hoare_connections.bind fun conns => ?_
    refine Hoare.bind (R := fun _ s o => o = none ↔ s.failing < k) ?_ fun _ =>
      Hoare.pure fun _ _ h => h
    refine Hoare.conseq ?_ (fun _ _ h => On.tidy h) fun _ _ _ h => h
    exact hoare_finalize.bind fun _ => Hoare.pure fun _ _ h => h.2
  | cons call calls ih =>
    exact hoare_connections.bind fun conns => (hoare_call call).bind fun _ => ih

/-- No descriptor, but for new connections. -/
theorem tidy_start {s : Net} (htable : s.connectionTable = some [])
    (hlisten : ∀ fd, s.listenFd = some fd → fd < s.nextFd) :
    Tidy s.failing s (some s.listenFd.toList) := by
  have hheld : Held [] s s.listenFd.toList := by
    refine ⟨?_, List.nodup_nil, by simp, by simp, by simp, fun fd hfd => ?_, fun fd hfd => ?_⟩
    · cases s.listenFd <;> simp
    · exact hlisten fd (by simpa using hfd)
    · simp [hfd]
  exact On.tidy ⟨⟨htable, by simp⟩, hheld, by simp, Nat.le_refl _⟩

/-- Where no read and no write fails, the descriptors are closed once; and where the calls end with
`FTBN_Finalize`, in no other case. -/
theorem descriptors_closed_once {calls : List Call} {s s' : Net} {ops : List FdOp}
    (htable : s.connectionTable = some [])
    (hlisten : ∀ fd, s.listenFd = some fd → fd < s.nextFd)
    (hrun : runCalls lay calls s = some ((), s', ops)) (hend : s'.outcomes = []) :
    ((∀ x ∈ s.outcomes, x.fails = false) → ClosedOnce s.listenFd.toList ops) ∧
      ∀ before, calls = before ++ [.finalize] →
        (ClosedOnce s.listenFd.toList ops ↔ ∀ x ∈ s.outcomes, x.fails = false) := by
  have hstart := tidy_start htable hlisten
  have hzero : s'.failing = 0 := by simp [Net.failing, hend]
  have hclean : s.failing = 0 ↔ ∀ x ∈ s.outcomes, x.fails = false := by
    simp [Net.failing, List.countP_eq_zero]
  have hclosed : ClosedOnce s.listenFd.toList ops ↔
      follow FdOp.exec ops (some s.listenFd.toList) ≠ none := Option.isSome_iff_ne_none
  constructor
  · intro hx
    have hk := hclean.2 hx
    have hrest := hoare_runCalls calls s _ hstart () s' ops hrun
    rw [hclosed]
    intro hnone
    rw [hnone, hk] at hrest
    cases ht : s'.connectionTable with
    | none => exact absurd (hrest.2 ht rfl) (Nat.not_lt_zero _)
    | some table => exact absurd (hrest.1 table ht).2 (Nat.not_lt_zero _)
  · intro before hcalls
    subst hcalls
    have hrest : follow FdOp.exec ops (some s.listenFd.toList) = none ↔ s'.failing < s.failing :=
      hoare_runCalls_finalize before s _ hstart () s' ops hrun
    rw [hclosed, Ne, hrest, hzero, ← hclean]
    omega

/-- A layout in which only the sizes matter. -/
private def plainLayout : Layout where
  sizeofLocationId := 100
  sizeofMsg := 1024
  systemId _ := List.replicate 4 0
  locationId _ := List.replicate 100 0
  msg _ := List.replicate 1024 0
  toSystemId _ := 0
  toLocationId _ := default
  toMsg _ := default

private def zeroMemory : Memory := ⟨fun n => List.replicate n 0, fun _ => List.length_replicate⟩

/-- A process that has no connection yet, and the outcomes of its system calls. -/
private def unconnected (outcomes : List Outcome) : Net where
  outcomes := outcomes
  nextFd := 0
  connectionTable := some []
  listenFd := none
  systemId := 0
  myLocationId := default

/-- The parent takes the registration and closes the connection before it answers. -/
private def hungUp : List Outcome :=
  [.socket true, .gethostbyname true, .setsockopt true, .connect true, .write (.wrote 4),
    .write (.wrote 100), .write (.wrote 1024), .read .eof]

private theorem hungUp_ran :
    ((runCalls plainLayout [.connectTo zeroMemory default, .finalize] (unconnected hungUp)).map
      fun r => (decide (r.2.1.outcomes = []), decide (ClosedOnce [] r.2.2))) =
        some (true, false) := by
  decide +kernel

/-- The descriptor of the failed attempt is closed twice. -/
theorem descriptors_closed_twice : ∃ s' ops,
    runCalls plainLayout [.connectTo zeroMemory default, .finalize] (unconnected hungUp) =
      some ((), s', ops) ∧
    s'.outcomes = [] ∧ ¬ClosedOnce [] ops := by
  obtain ⟨⟨_, s', ops⟩, hrun, h⟩ := Option.map_eq_some_iff.1 hungUp_ran
  rw [Prod.mk.injEq, decide_eq_true_iff, decide_eq_false_iff_not] at h
  exact ⟨s', ops, hrun, h⟩

/-- The parent answers in two pieces, and a message goes to it in two. -/
private def served : List Outcome :=
  [.socket true, .gethostbyname true, .setsockopt true, .connect true, .write (.wrote 4),
    .write (.wrote 100), .write (.wrote 1024), .read (.got (List.replicate 60 0)),
    .read .again, .read (.got (List.replicate 40 0)),
    .write (.wrote 1000), .write .again, .write (.wrote 24)]

/-- No call fails: the descriptor of the connection is closed once, by `FTBN_Finalize`. -/
theorem descriptors_closed_once_served : ∃ s' ops,
    runCalls plainLayout [.connectTo zeroMemory default, .sendMsg default, .finalize]
        (unconnected served) = some ((), s', ops) ∧
      ops.count (.close 0) = 1 ∧ ClosedOnce [] ops := by
  have hran : (runCalls plainLayout [.connectTo zeroMemory default, .sendMsg default, .finalize]
      (unconnected served)).any
        (fun r => decide (r.2.1.outcomes = [] ∧ r.2.2.count (.close 0) = 1)) = true := by
    decide +kernel
  obtain ⟨⟨_, s', ops⟩, hrun, h⟩ := (Option.any_eq_true _ _).1 hran
  obtain ⟨hend, hcount⟩ := of_decide_eq_true h
  refine ⟨s', ops, hrun, hcount, ?_⟩
  exact (descriptors_closed_once rfl (fun _ hfd => by cases hfd) hrun hend).1 (by decide)

end FTBN.Io
