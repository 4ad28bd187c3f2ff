import Ftb.Tcp.Proof.Frames

/-!
# The functions over the connection table keep the streams

Each function over the connection table keeps `Settled`, with the messages that it reports tagged by
their descriptors (`Ends`), and so does a run (`reportCalls_settled`).
-/

open FTB FTBU Journal Pieces

namespace FTBN.Io

variable {lay : Layout} {start : Net} {table : List ConnectionEntry} {fd : Fd} {V : View → Prop}
  {g : Tagged}

/-! ## System calls -/

theorem sysSelect_run {s s' : Net} {r : SelectResult} {ops : List FdOp} (fd : Fd)
    (h : sysSelect s = some (r, s', ops)) : ∃ used, Moves fd s s' ops used [] [] := by
  obtain ⟨x, mid, t, u, hx, h, rfl⟩ := Prog.bind_eq_some.1 h
  cases x with
  | select r' =>
    cases h
    exact ⟨_, (nextOutcome_moves fd hx rfl).trans (Moves.refl fd _)⟩
  | _ => cases h

/-- A connection that is not reached is not a success. -/
theorem sysReach_run {s s' : Net} {r : Option Ret} {ops : List FdOp} (fd : Fd)
    (h : sysReach s = some (r, s', ops)) :
    (∃ used, Moves fd s s' ops used [] []) ∧ r ≠ some .success := by
  obtain ⟨x, mid, t, u, hx, h, rfl⟩ := Prog.bind_eq_some.1 h
  cases x with
  | gethostbyname ok =>
    have hhost := nextOutcome_moves fd hx rfl
    cases ok with
    | false =>
      cases h
      exact ⟨⟨_, hhost.trans (Moves.refl fd _)⟩, by simp⟩
    | true =>
      obtain ⟨y, mid', t', u', hy, h, rfl⟩ := Prog.bind_eq_some.1 h
      cases y with
      | setsockopt ok =>
        have hopt := hhost.trans (nextOutcome_moves fd hy rfl)
        rw [← List.append_assoc]
        cases ok with
        | false =>
          cases h
          exact ⟨⟨_, hopt.trans (Moves.refl fd _)⟩, by simp⟩
        | true =>
          obtain ⟨z, mid'', t'', u'', hz, h, rfl⟩ := Prog.bind_eq_some.1 h
          cases z with
          | connect ok =>
            have hconnect := hopt.trans (nextOutcome_moves fd hz rfl)
            rw [← List.append_assoc]
            cases ok <;> (cases h; exact ⟨⟨_, hconnect.trans (Moves.refl fd _)⟩, by simp⟩)
          | _ => cases h
      | _ => cases h
  | _ => cases h

theorem hoare_select : Hoare record (Past (Idle lay start table g)) sysSelect
    fun _ => Past (Idle lay start table g) := by
  refine hoare_past_iff.2 fun s past hs r s' ops hr => ?_
  obtain ⟨used, hmoves⟩ := sysSelect_run 0 hr
  exact hs.still hmoves

theorem hoare_reach {rest : List ConnectionEntry} :
    Hoare record (Past (Busy lay start table rest fd V g)) sysReach fun r =>
      Past fun s past => r ≠ some .success ∧ Busy lay start table rest fd V g s past := by
  refine hoare_past_iff.2 fun s past hb r s' ops hr => ?_
  obtain ⟨⟨used, hmoves⟩, hret⟩ := sysReach_run fd hr
  exact ⟨hret, hb.moves hmoves fun v h => by rwa [move_nil]⟩

/-- Whether `socket` or `accept` gave a new descriptor. -/
def Given (lay : Layout) (start : Net) (table : List ConnectionEntry) (accepts : Bool) (g : Tagged) :
    Option Fd → Net → List FdOp → Prop
  | none => Idle lay start table g
  | some fd => Busy lay start table table fd (fun v => v = .empty ∧ start.accepts fd = accepts) g

theorem hoare_socket : Hoare record (Past (Idle lay start table g)) sysSocket fun r =>
    Past (Given lay start table false g r) := by
  refine hoare_past_iff.2 fun s past hs r s' ops hr => ?_
  rcases @sysSocket_run 0 s s' ops r hr with ⟨rfl, hmoves⟩ | ⟨new, rfl, hgives⟩
  · exact hs.still hmoves
  · exact hs.given hgives

theorem hoare_accept : Hoare record (Past (Idle lay start table g)) sysAccept fun r =>
    Past (Given lay start table true g r) := by
  refine hoare_past_iff.2 fun s past hs r s' ops hr => ?_
  rcases @sysAccept_run 0 s s' ops r hr with ⟨rfl, hmoves⟩ | ⟨new, rfl, hgives⟩
  · exact hs.still hmoves
  · exact hs.given hgives

/-- The system id and the location id do not change. -/
theorem hoare_get {α : Type} {P : Net → List FdOp → Prop} {f : Net → NetProg α}
    {Q : α → Net → Option (List FdOp) → Prop} (hP : ∀ s past, P s past → Since start s)
    (hf : ∀ s, Since start s → Hoare record (Past P) (f s) Q) :
    Hoare record (Past P) (Prog.get >>= f) Q := by
  refine Hoare.bind (R := fun s => Past fun s' past => Since start s ∧ P s' past) ?_ fun s => ?_
  · refine Hoare.past_lift fun s past hs x s' hr => ?_
    cases hr
    exact ⟨hP s past hs, hs⟩
  · exact Hoare.past_and fun h => hf s h

/-! ## Sending -/

theorem Stream.empty (hsize : 0 < lay.sizeofMsg) (fd : Fd) : Stream lay start fd .empty where
  reads := (whole_short (by simpa [View.empty] using hsize)).symm
  sources d hd := nomatch hd
  matching hlt := absurd hlt (Nat.not_lt_zero _)
  writes := List.nil_prefix
  done hne := absurd rfl hne

/-- A message that no connection was given. -/
theorem Settled.unsent {s : Net} {past : List FdOp} (hs : Settled lay start g s past) (msg : Msg)
    {ret : Ret} (hret : ret ≠ .success) : Ends lay start g ⟨[(msg, ret)], []⟩ s past := by
  have hview (fd : Fd) : view (g ++ ⟨[⟨none, msg, ret⟩], []⟩) past fd = view g past fd := by
    rw [view_append]
    exact tag_nil _
  refine ⟨⟨[⟨none, msg, ret⟩], []⟩, rfl, ⟨hs.base.since, fun fd hle => ?_, fun x hx hf => ?_⟩,
    fun fd => ?_, fun table ht => ?_⟩
  · rw [hview]
    exact hs.base.fresh fd hle
  · rcases List.mem_append.1 hx with hx | hx
    · exact hs.base.unsent x hx hf
    · rw [List.mem_singleton.1 hx]
      exact hret
  · rw [hview]
    exact hs.stream fd
  · have he := hs.entries table ht
    refine ⟨he.nodup, he.old, fun e hm => ?_⟩
    rw [hview]
    exact he.entry e hm

/-- A new connection is put in front. -/
theorem Busy.added {s : Net} {past : List FdOp} {entry : ConnectionEntry} {g' : Tagged}
    (hb : Busy lay start (entry :: table) table fd V g s past) (hfd : entry.fd = fd)
    (hg : g'.Only fd) (hstream : ∀ v, V v → Stream lay start fd (v.tag (g'.on fd)))
    (hentry : ∀ v, V v → Entry lay start entry (v.tag (g'.on fd))) :
    Settled lay start (g ++ g') s past := by
  refine hb.settle hg hstream ?_ fun e hm => ?_
  · rw [List.map_cons, List.nodup_cons]
    refine ⟨fun hm => ?_, hb.entries.nodup⟩
    obtain ⟨e, hm, he⟩ := List.mem_map.1 hm
    exact hb.apart e hm (he.trans hfd)
  · rcases List.mem_cons.1 hm with rfl | hm
    · exact Or.inr ⟨hfd, hentry⟩
    · exact Or.inl hm

/-- A connection is given up. -/
theorem Busy.left {s : Net} {past : List FdOp} {g' : Tagged}
    (hb : Busy lay start table table fd V g s past) (hg : g'.Only fd)
    (hstream : ∀ v, V v → Stream lay start fd (v.tag (g'.on fd))) :
    Settled lay start (g ++ g') s past :=
  hb.settle hg hstream hb.entries.nodup fun _ hm => Or.inl hm

/-- A connection is given up without a message. -/
theorem Busy.dropped {s : Net} {past : List FdOp} (hb : Busy lay start table table fd V g s past)
    (hstream : ∀ v, V v → Stream lay start fd v) : Settled lay start g s past := by
  have hs := @Busy.left _ _ _ _ _ _ _ _ .nil hb (only_nil fd) fun v hv => by
    rw [on_nil, tag_nil]
    exact hstream v hv
  rwa [Tagged.append_nil] at hs

theorem ends_connectTo (hsize : 0 < lay.sizeofMsg) (mem : Memory) (regMsg : Msg) :
    Hoare record (Past (Idle lay start table g)) (utilConnectTo lay mem regMsg) fun r =>
      Past (Ends lay start g ⟨[(regMsg, r.1)], []⟩) := by
  refine hoare_socket.bind fun r => ?_
  cases r with
  | none => exact Hoare.past_pure fun s past hs => hs.settled.unsent regMsg (by simp)
  | some fd =>
    let new : ConnectionEntry := { errFlag := false, fd, dst := default, refCount := 0 }
    refine hoare_reach.bind fun r => Hoare.past_and fun hret => ?_
    cases r with
    | some ret =>
      refine (hoare_shut new).bind fun _ => Hoare.past_pure fun s past hb => ?_
      have hs := hb.dropped fun v ⟨hv, _⟩ => hv ▸ Stream.empty hsize fd
      exact hs.unsent regMsg fun h => hret (congrArg some h)
    | none =>
      refine Hoare.of_past (fun _ _ hb => hb.here.2) fun hconnects => ?_
      refine hoare_get (fun _ _ hb => hb.base.since) fun s hsince => ?_
      refine hoare_write (Greeted (lay.systemId s.systemId)) (show new.fd = fd from rfl)
        (fun v got used out hv hw => ?_) fun entry₁ h₁ => ?_
      · exact @Greeted.write [] _ _ _ _ _ _ ⟨by rw [hv.1]; rfl, by rw [hv.1]; rfl,
          by rw [hv.1]; exact List.nil_prefix, fun _ => by rw [hv.1]; rfl⟩ hw
      refine hoare_write (Greeted _) h₁.fd_eq (fun v got used out hv hw => hv.write hw)
        fun entry₂ h₂ => ?_
      refine hoare_write (Greeted _) (h₂.fd_eq.trans h₁.fd_eq)
        (fun v got used out hv hw => hv.write hw) fun entry₃ h₃ => ?_
      have hopening : lay.systemId s.systemId ++ lay.locationId s.myLocationId ++ lay.msg regMsg =
          opening lay start regMsg := by
        rw [opening, hsince.systemId, hsince.myLocationId]
      rw [hopening]
      have hfd : entry₃.fd = fd := h₃.fd_eq.trans (h₂.fd_eq.trans h₁.fd_eq)
      refine hoare_read (fun r => Opened lay start fd regMsg r.2 r.1) hfd
        (fun v r used b hv hr => hv.opened hconnects hr (mem.length_bytes _)) fun r h₄ _ => ?_
      obtain ⟨entry₄, bytes⟩ := r
      have hidle : entry₄.refCount = 0 := (((h₁.trans h₂).trans h₃).trans h₄).refCount
      let named : ConnectionEntry := { entry₄ with dst := lay.toLocationId bytes }
      refine Hoare.ite (fun hflag => ?_) fun hflag => ?_
      · refine (hoare_shut named).bind fun _ => Hoare.past_pure fun s past hb => ?_
        refine ⟨⟨[⟨some fd, regMsg, .errNetworkGeneral⟩], []⟩, rfl,
          hb.left (only_sent ..) fun v hv => ?_⟩
        rw [on_sent]
        exact hv.stream hsize fun h => nomatch h
      · rw [Bool.not_eq_true] at hflag
        refine hoare_read_table ?_
        refine (hoare_write_table _).bind fun _ => Hoare.past_pure fun s past hb => ?_
        refine ⟨⟨[⟨some fd, regMsg, .success⟩], []⟩, rfl,
          hb.added (h₄.fd_eq.trans hfd) (only_sent ..) (fun v hv => ?_) fun v hv => ?_⟩
        · rw [on_sent]
          exact hv.stream hsize fun _ => hflag
        · rw [on_sent]
          exact hv.entry (h₄.fd_eq.trans hfd) hidle hflag

/-- The entry that was worked on is still in the table. -/
theorem Busy.kept {s : Net} {past : List FdOp} {conn : ConnectionEntry} {g' : Tagged}
    (hb : Busy lay start table (table.erase conn) conn.fd V g s past)
    (hnodup : (table.map ConnectionEntry.fd).Nodup) (hmem : conn ∈ table) (hg : g'.Only conn.fd)
    (hstream : ∀ v, V v → Stream lay start conn.fd (v.tag (g'.on conn.fd)))
    (hentry : ∀ v, V v → Entry lay start conn (v.tag (g'.on conn.fd))) :
    Settled lay start (g ++ g') s past := by
  refine hb.settle hg hstream hnodup fun e hm => ?_
  rcases List.mem_cons.1 ((List.perm_cons_erase hmem).mem_iff.1 hm) with rfl | hm
  · exact Or.inr ⟨rfl, hentry⟩
  · exact Or.inl hm

/-- The write of `FTBN_Send_msg` on an entry of the table. -/
def Sent (lay : Layout) (start : Net) (conn : ConnectionEntry) (msg : Msg) (got : ConnectionEntry)
    (v : View) : Prop :=
  ∃ v' used out, v = v'.move [] out ∧ Stream lay start conn.fd v' ∧ Entry lay start conn v' ∧
    Writes { conn with refCount := conn.refCount + 1 } (lay.msg msg) got used out

theorem ends_sendMsg (msg : Msg) :
    Hoare record (Past (Settled lay start g)) (sendMsg lay msg) fun ret =>
      Past (Ends lay start g ⟨[(msg, ret)], []⟩) := by
  refine hoare_table.bind fun conns => ?_
  cases hfind : findConnection msg.dst.locationId conns with
  | none => exact Hoare.past_pure fun s past hs => hs.settled.unsent msg (by simp)
  | some conn =>
    have hmem : conn ∈ conns := List.mem_of_find?_eq_some hfind
    have hpre (s : Net) (past : List FdOp) (hs : Idle lay start conns g s past) :
        (conns.map ConnectionEntry.fd).Nodup ∧ conn.refCount = 0 :=
      have he := hs.settled.entries conns hs.table
      ⟨he.nodup, (he.entry conn hmem).idle⟩
    refine Hoare.of_past hpre fun ⟨hnodup, hidle⟩ => ?_
    let used : ConnectionEntry := { conn with refCount := conn.refCount + 1 }
    refine Hoare.past_pre (fun _ _ hs => hs.busy hmem) ?_
    refine hoare_write (Sent lay start conn msg) (show used.fd = conn.fd from rfl)
      (fun v got used out hv hw => ⟨v, used, out, rfl, hv.1, hv.2, hw⟩) fun got hgot => ?_
    have hcount : got.refCount - 1 = 0 := by
      rw [hgot.refCount]
      show conn.refCount + 1 - 1 = 0
      rw [hidle]
    refine Hoare.ite (fun hflag => ?_) fun hflag => ?_
    · rw [if_pos hcount]
      refine (hoare_write_table _).bind fun _ => (hoare_shut _).bind fun _ => ?_
      refine Hoare.past_pure fun s past hb => ?_
      refine ⟨⟨[⟨some conn.fd, msg, .errNetworkGeneral⟩], []⟩, rfl,
        hb.left (only_sent ..) fun v hv => ?_⟩
      obtain ⟨v', used, out, rfl, hstream, hentry, hw⟩ := hv
      rw [on_sent]
      exact hentry.stream_send hstream hw fun h => nomatch h
    · rw [Bool.not_eq_true] at hflag
      refine Hoare.past_pure fun s past hb => ?_
      refine ⟨⟨[⟨some conn.fd, msg, .success⟩], []⟩, rfl,
        hb.kept hnodup hmem (only_sent ..) (fun v hv => ?_) fun v hv => ?_⟩
      · obtain ⟨v', used, out, rfl, hstream, hentry, hw⟩ := hv
        rw [on_sent]
        exact hentry.stream_send hstream hw fun _ => hflag
      · obtain ⟨v', used, out, rfl, hstream, hentry, hw⟩ := hv
        rw [on_sent]
        exact hentry.send hw hflag

/-! ## Receiving -/

/-- The read of a message on an entry of the table. -/
def Received (lay : Layout) (start : Net) (conn : ConnectionEntry)
    (r : ConnectionEntry × List UInt8) (v : View) : Prop :=
  ∃ (v' : View) (buf b : List UInt8) (used : List Outcome), v = v'.move b [] ∧
    Stream lay start conn.fd v' ∧ Entry lay start conn v' ∧ buf.length = lay.sizeofMsg ∧
    Reads conn buf r used b

/-- A message is read; an entry that is broken is taken out. -/
theorem hoare_message {α : Type} {conn : ConnectionEntry} {x : α} {f : List UInt8 → NetProg α}
    {Q : α → Net → List FdOp → Prop} (hsize : 0 < lay.sizeofMsg) (mem : Memory) (hmem : conn ∈ table)
    (hx : ∀ s past, Settled lay start g s past → Q x s past)
    (hf : ∀ bytes, Hoare record
      (Past (Idle lay start table (g ++ ⟨[], [⟨conn.fd, conn.dst, bytes⟩]⟩))) (f bytes)
      fun a => Past (Q a)) :
    Hoare record (Past (Idle lay start table g))
      (do
        let r ← utilRead conn (mem.bytes lay.sizeofMsg)
        if r.1.errFlag then do
          setConnections (table.erase conn)
          closeFree r.1
          pure x
        else f r.2)
      fun a => Past (Q a) := by
  refine Hoare.of_past (fun _ _ hs => (hs.settled.entries table hs.table).nodup) fun hnodup => ?_
  refine Hoare.past_pre (fun _ _ hs => hs.busy hmem) ?_
  refine hoare_read (Received lay start conn) rfl
    (fun v r used b hv hr => ⟨v, _, b, used, rfl, hv.1, hv.2, mem.length_bytes _, hr⟩) fun r _ _ => ?_
  refine Hoare.ite (fun hflag => ?_) fun hflag => ?_
  · refine (hoare_write_table _).bind fun _ => (hoare_shut _).bind fun _ => ?_
    refine Hoare.past_pure fun s past hb => hx s past (hb.dropped fun v hv => ?_)
    obtain ⟨v', buf, b, used, rfl, hstream, hentry, hbuf, hr⟩ := hv
    exact hentry.stream_lose hr hbuf hstream hsize hflag
  · rw [Bool.not_eq_true] at hflag
    refine Hoare.past_pre (fun s past hb => ⟨?_, hb.table⟩) (hf r.2)
    refine hb.kept hnodup hmem (only_received ..) (fun v hv => ?_) fun v hv => ?_
    · obtain ⟨v', buf, b, used, rfl, hstream, hentry, hbuf, hr⟩ := hv
      rw [on_received]
      exact hentry.stream_receive hr hbuf hstream hsize hflag
    · obtain ⟨v', buf, b, used, rfl, hstream, hentry, hbuf, hr⟩ := hv
      rw [on_received]
      exact hentry.receive hr hbuf hflag

/-- A message that is received first. -/
theorem Ends.after {s : Net} {past : List FdOp} {g' : Tagged} {r : Report}
    (h : Ends lay start (g ++ g') r s past) :
    Ends lay start g ⟨(g'.report lay).sent ++ r.sent, (g'.report lay).received ++ r.received⟩ s
      past := by
  obtain ⟨g'', rfl, hs⟩ := h
  refine ⟨g' ++ g'', Tagged.report_append .., ?_⟩
  rwa [← Tagged.append_assoc]

/-- `p`, behind a report. -/
theorem hoare_after {α : Type} {p : NetProg α} {r : Report} {r' : α → Report}
    (h : ∀ g, Hoare record (Past (Settled lay start g)) p fun a => Past (Ends lay start g (r' a))) :
    Hoare record (Past (Ends lay start g r)) p fun a =>
      Past (Ends lay start g ⟨r.sent ++ (r' a).sent, r.received ++ (r' a).received⟩) := by
  refine hoare_ends fun g' hg => (h (g ++ g')).conseq (fun _ _ h => h) fun a s _ hend => ?_
  obtain ⟨past, ho, hend⟩ := hend
  rw [← hg]
  exact ⟨past, ho, hend.after⟩

theorem ends_recvLoop (hsize : 0 < lay.sizeofMsg) (mem : Memory) (blocking : Bool) (n : Nat) :
    Hoare record (Past (Settled lay start g)) (recvLoop lay mem blocking n) fun r =>
      Past (Ends lay start g ⟨[], r.2.toList⟩) := by
  induction n with
  | zero => exact Hoare.undefined
  | succ n ih =>
    refine hoare_table.bind fun conns => hoare_select.bind fun r => ?_
    have hnext := Hoare.past_pre (fun s past (hs : Idle lay start conns g s past) => hs.settled) ih
    cases r with
    | again => exact hnext
    | fail => exact Hoare.past_pure fun s past hs => hs.settled.ends
    | ready fds =>
      cases hfind : conns.find? fun conn => conn.fd ∈ fds with
      | none =>
        dsimp only
        rw [hfind]
        exact Hoare.ite (fun _ => hnext) fun _ => Hoare.past_pure fun s past hs => hs.settled.ends
      | some conn =>
        dsimp only
        rw [hfind]
        refine @hoare_message _ _ _ _ _ conn (Ret.errNetworkGeneral, none)
          (fun bytes => pure (Ret.success, some (lay.toMsg bytes, conn.dst))) _ hsize mem
          (List.mem_of_find?_eq_some hfind) (fun s past hs => hs.ends) fun bytes => ?_
        exact Hoare.past_pure fun s past hs => ⟨_, rfl, hs.settled⟩

/-- The messages of `new` were received behind `msgs`. -/
def Grabs (lay : Layout) (start : Net) (g : Tagged) (msgs : List (Msg × LocationId)) (r : Grabbed)
    (s : Net) (past : List FdOp) : Prop :=
  ∃ new, r.msgs = msgs ++ new ∧ Ends lay start g ⟨[], new⟩ s past

theorem grabs_grabReady (hsize : 0 < lay.sizeofMsg) (mem : Memory) (conns : List ConnectionEntry)
    (fds : List Fd) :
    ∀ (rest : List ConnectionEntry) (msgs : List (Msg × LocationId)) (g : Tagged),
      (∀ conn ∈ rest, conn ∈ conns) →
      Hoare record (Past (Idle lay start conns g)) (grabReady lay mem conns fds rest msgs) fun r =>
        Past (Grabs lay start g msgs r) := by
  intro rest
  induction rest with
  | nil =>
    exact fun msgs g _ => Hoare.past_pure fun s past hs =>
      ⟨[], (List.append_nil msgs).symm, hs.settled.ends⟩
  | cons conn rest ih =>
    intro msgs g hrest
    rw [List.forall_mem_cons] at hrest
    refine Hoare.ite (fun _ => ?_) fun _ => ih msgs g hrest.2
    refine @hoare_message _ _ _ _ _ conn ⟨some .errNetworkGeneral, msgs, some conn.dst⟩
      (fun bytes => grabReady lay mem conns fds rest (msgs ++ [(lay.toMsg bytes, conn.dst)])) _ hsize
      mem hrest.1 (fun s past hs => ⟨[], (List.append_nil msgs).symm, hs.ends⟩) fun bytes => ?_
    refine (ih (msgs ++ [(lay.toMsg bytes, conn.dst)]) _ hrest.2).past_conseq (fun _ _ h => h) ?_
    intro r s past ⟨new, hmsgs, hend⟩
    refine ⟨(lay.toMsg bytes, conn.dst) :: new, ?_, hend.after⟩
    rw [hmsgs, List.append_assoc, List.singleton_append]

theorem grabs_grabConnections (hsize : 0 < lay.sizeofMsg) (mem : Memory) (fds : List Fd)
    (msgs : List (Msg × LocationId)) :
    Hoare record (Past (Settled lay start g)) (grabConnections lay mem fds msgs) fun r =>
      Past (Grabs lay start g msgs r) :=
  hoare_table.bind fun conns => grabs_grabReady hsize mem conns fds conns msgs g fun _ h => h

/-- The system id of a new connection. -/
theorem Arriving.first {buf b : List UInt8} {entry : ConnectionEntry} {v : View}
    {r : ConnectionEntry × List UInt8} {used : List Outcome}
    (hv : v = .empty ∧ start.accepts fd = true) (hflag : entry.errFlag = false)
    (hr : Reads entry buf r used b) (hbuf : buf.length = sizeofSystemId) :
    Arriving start fd r.2 sizeofSystemId r.2 r.1 (v.move b []) := by
  obtain ⟨rfl, hacc⟩ := hv
  have htaken : Taken 0 [] entry View.empty :=
    ⟨fun _ => ⟨rfl, rfl⟩, fun h => by rw [hflag] at h; cases h⟩
  refine ⟨hacc, rfl, rfl, ?_, Or.inl ?_⟩
  · have hread := htaken.read hr
    rwa [Nat.zero_add, List.nil_append, hbuf] at hread
  · exact hbuf ▸ hr.length_le

/-- The registration is read; the answer is written. -/
theorem Arriving.answered {sys dst bytes : List UInt8} {want : Nat}
    {entry named got : ConnectionEntry} {v : View} {used : List Outcome} {out : List UInt8}
    (h : Arriving start fd sys want (sys ++ dst ++ bytes) entry v) (hflag : entry.errFlag = false)
    (hw : Writes named (lay.locationId start.myLocationId) got used out) :
    Answered lay start fd sys dst bytes got (v.move [] out) where
  accepts := h.accepts
  tags := h.tags
  reads := by
    show v.reads ++ [] = _
    rw [List.append_nil]
    exact (h.taken.full hflag).1
  writes := by
    show v.writes ++ out <+: _
    rw [h.writes]
    exact hw.start
  full hf := by
    show v.writes ++ out = _
    rw [h.writes]
    exact hw.full hf

theorem ends_grabAccepted (hsize : 0 < lay.sizeofMsg) (mem : Memory) (fd : Fd) :
    Hoare record (Past (Given lay start table true g (some fd))) (grabAccepted lay mem fd) fun r =>
      Past (Ends lay start g ⟨[], r.getD []⟩) := by
  let new : ConnectionEntry := { errFlag := false, fd, dst := default, refCount := 0 }
  refine hoare_get (fun _ _ hb => hb.base.since) fun s hsince => ?_
  refine hoare_read (fun r => Arriving start fd r.2 sizeofSystemId r.2 r.1)
    (show new.fd = fd from rfl)
    (fun v r used b hv hr => Arriving.first hv rfl hr (mem.length_bytes _)) fun r h₁ hsys => ?_
  obtain ⟨entry₁, sys⟩ := r
  rw [mem.length_bytes] at hsys
  refine Hoare.ite (fun _ => ?_) fun hid => ?_
  · refine (hoare_shut _).bind fun _ => Hoare.past_pure fun s past hb => ?_
    refine (hb.dropped fun v hv => ?_).ends
    have hle := hv.taken.le
    exact hv.stream hsize (by omega) fun hlt => absurd hle (Nat.not_le.2 hlt)
  · rw [not_not, hsince.systemId] at hid
    refine hoare_read (fun r => Arriving start fd sys _ (sys ++ r.2) r.1) h₁.fd_eq
      (fun v r used b hv hr => hv.read hr fun hf => ?_) fun r h₂ hdst => ?_
    · exact ⟨List.take_of_length_le (Nat.le_of_eq (hsys hf)), Nat.le_of_eq (hsys hf).symm⟩
    obtain ⟨entry₂, dst⟩ := r
    rw [mem.length_bytes] at hdst
    refine hoare_read (fun r => Arriving start fd sys _ (sys ++ dst ++ r.2) r.1)
      (h₂.fd_eq.trans h₁.fd_eq) (fun v r used b hv hr => hv.read hr fun hf => ?_) fun r h₃ hmsg => ?_
    · have hlen := hsys (h₂.flag hf)
      exact ⟨List.take_left' hlen, by rw [List.length_append, hlen]; exact Nat.le_add_right _ _⟩
    obtain ⟨entry₃, bytes⟩ := r
    rw [mem.length_bytes] at hmsg
    let named : ConnectionEntry := { entry₃ with dst := lay.toLocationId dst }
    have hfd : named.fd = fd := h₃.fd_eq.trans (h₂.fd_eq.trans h₁.fd_eq)
    refine Hoare.ite (fun hflag => ?_) fun hflag => ?_
    · refine (hoare_shut named).bind fun _ => Hoare.past_pure fun s past hb => ?_
      refine (hb.dropped fun v hv => ?_).ends
      have hlt := hv.taken.cut hflag
      rw [mem.length_bytes, mem.length_bytes] at hlt
      exact hv.stream hsize hlt fun _ => hid
    · rw [Bool.not_eq_true] at hflag
      have hlen₁ := hsys (h₂.flag (h₃.flag hflag))
      have hlen₂ := hdst (h₃.flag hflag)
      have hlen₃ := hmsg hflag
      rw [hsince.myLocationId]
      refine hoare_write (Answered lay start fd sys dst bytes) hfd
        (fun v got used out hv hw => hv.answered hflag hw) fun got h₄ => ?_
      have hidle : got.refCount = 0 := by
        rw [h₄.refCount]
        exact ((h₁.trans h₂).trans h₃).refCount
      have hdst' : got.dst = lay.toLocationId dst := by rw [h₄.eq]
      refine hoare_read_table ?_
      refine (hoare_write_table _).bind fun _ => Hoare.past_pure fun s past hb => ?_
      refine ⟨⟨[], [⟨fd, lay.toLocationId dst, bytes⟩]⟩, by rw [hdst']; rfl,
        hb.added (h₄.fd_eq.trans hfd) (only_received ..) (fun v hv => ?_) fun v hv => ?_⟩
      · rw [on_received]
        exact hv.stream hsize hlen₁ hlen₂ hlen₃ hid
      · rw [on_received]
        exact hv.entry (h₄.fd_eq.trans hfd) hidle hdst' hlen₁ hlen₂ hlen₃ hid

/-- The table is freed. -/
theorem Settled.freed {s : Net} {past : List FdOp} (hs : Settled lay start g s past) :
    Settled lay start g { s with connectionTable := none } past where
  base := ⟨⟨hs.base.since.systemId, hs.base.since.myLocationId, hs.base.since.opened⟩, hs.base.fresh,
    hs.base.unsent⟩
  stream := hs.stream
  entries table ht := by cases ht

theorem ends_grabTurn (hsize : 0 < lay.sizeofMsg) (mem : Memory) {next : NetProg Grabbed}
    (hnext : ∀ g, Hoare record (Past (Settled lay start g)) next fun r =>
      Past (Ends lay start g ⟨[], r.msgs⟩)) (fds : List Fd) (listenFd : Option Fd) :
    Hoare record (Past (Idle lay start table g)) (grabTurn lay mem next fds listenFd) fun r =>
      Past (Ends lay start g ⟨[], r.msgs⟩) := by
  refine Hoare.ite (fun _ => hoare_accept.bind fun r => ?_) fun _ => ?_
  · cases r with
    | none =>
      -- the process ends
      refine Hoare.bind (R := fun _ => Past (Settled lay start g)) ?_ fun _ => ?_
      · exact Hoare.modify fun s _ ⟨past, ho, hs⟩ => ⟨past, ho, hs.settled.freed⟩
      · exact Hoare.past_pure fun s past hs => hs.ends
    | some fd =>
      refine (ends_grabAccepted hsize mem fd).bind fun r => ?_
      cases r with
      | none => exact hoare_after hnext
      | some msgs =>
        refine hoare_ends fun g' hg => ?_
        refine (grabs_grabConnections hsize mem fds msgs).past_conseq (fun _ _ h => h) ?_
        intro r s past ⟨new, hmsgs, hend⟩
        have hafter := hend.after
        rw [hg] at hafter
        rw [hmsgs]
        exact hafter
  · refine Hoare.past_pre (fun s past hs => hs.settled) ?_
    refine (grabs_grabConnections hsize mem fds []).past_conseq (fun _ _ h => h) ?_
    intro r s past ⟨new, hmsgs, hend⟩
    rw [hmsgs]
    exact hend

theorem ends_grabLoop (hsize : 0 < lay.sizeofMsg) (mem : Memory) (n : Nat) :
    ∀ g, Hoare record (Past (Settled lay start g)) (grabLoop lay mem n) fun r =>
      Past (Ends lay start g ⟨[], r.msgs⟩) := by
  induction n with
  | zero => exact fun g => Hoare.undefined
  | succ n ih =>
    intro g
    refine hoare_get (fun _ _ hs => hs.base.since) fun s _ => hoare_table.bind fun conns => ?_
    refine hoare_select.bind fun r => ?_
    cases r with
    | again => exact Hoare.past_pre (fun s past hs => hs.settled) (ih g)
    | fail => exact ends_grabTurn hsize mem ih _ _
    | ready fds => exact ends_grabTurn hsize mem ih fds _

/-! ## The other functions -/

theorem hoare_closeFree_settled (entry : ConnectionEntry) :
    Hoare record (Past (Settled lay start g)) (closeFree entry) fun _ =>
      Past (Settled lay start g) :=
  hoare_past_iff.2 fun _ _ hs _ _ _ hr => hs.still (closeFree_run 0 hr)

theorem settled_disconnectPeer (peerLocationId : LocationId) :
    Hoare record (Past (Settled lay start g)) (disconnectPeer peerLocationId) fun _ =>
      Past (Settled lay start g) := by
  refine hoare_table.bind fun conns => ?_
  cases hfind : findConnection peerLocationId conns with
  | none => exact Hoare.past_pure fun s past hs => hs.settled
  | some conn =>
    have hmem : conn ∈ conns := List.mem_of_find?_eq_some hfind
    refine Hoare.ite (fun _ => Hoare.undefined) fun _ => ?_
    refine Hoare.past_pre (fun _ _ hs => hs.busy hmem) ?_
    refine (hoare_shut _).bind fun _ => (hoare_write_table _).bind fun _ => ?_
    exact Hoare.past_pure fun s past hb => hb.dropped fun v hv => hv.1

theorem settled_closeAll (conns : List ConnectionEntry) :
    Hoare record (Past (Settled lay start g)) (closeAll conns) fun _ =>
      Past (Settled lay start g) := by
  induction conns with
  | nil => exact Hoare.past_pure fun s past hs => hs
  | cons entry conns ih => exact (hoare_closeFree_settled entry).bind fun _ => ih

theorem settled_closeListen :
    Hoare record (Past (Settled lay start g)) closeListen fun _ => Past (Settled lay start g) := by
  refine hoare_get (fun _ _ hs => hs.base.since) fun s _ => ?_
  cases s.listenFd with
  | none => exact Hoare.past_pure fun s past hs => hs
  | some fd =>
    refine hoare_past_iff.2 fun s past hs _ s' ops hr => ?_
    cases hr
    exact hs.still (Moves.still fd s (fun _ => rfl) fun _ => rfl)

theorem settled_finalize :
    Hoare record (Past (Settled lay start g)) finalize fun _ => Past (Settled lay start g) := by
  refine hoare_table.bind fun conns => ?_
  refine Hoare.past_pre (fun s past hs => hs.settled) ((settled_closeAll conns).bind fun _ => ?_)
  refine settled_closeListen.bind fun _ => ?_
  refine Hoare.bind (R := fun _ => Past (Settled lay start g)) ?_ fun _ => ?_
  · exact Hoare.modify fun s _ ⟨past, ho, hs⟩ => ⟨past, ho, hs.freed⟩
  · exact Hoare.past_pure fun s past hs => hs

/-! ## A run -/

theorem ends_call (hsize : 0 < lay.sizeofMsg) (call : Call) :
    Hoare record (Past (Idle lay start table g)) (call.report lay) fun r =>
      Past (Ends lay start g r) := by
  have hsettled (s : Net) (past : List FdOp) (hs : Idle lay start table g s past) :=
    hs.settled
  cases call with
  | connectTo mem regMsg =>
    exact (ends_connectTo hsize mem regMsg).bind fun r => Hoare.past_pure fun s past hend => hend
  | sendMsg msg =>
    refine Hoare.past_pre hsettled ?_
    exact (ends_sendMsg msg).bind fun ret => Hoare.past_pure fun s past hend => hend
  | recvMsg mem isNull blocking =>
    refine Hoare.past_pre hsettled (Hoare.bind (R := fun r =>
      Past (Ends lay start g ⟨[], r.2.toList⟩)) ?_ fun r => Hoare.past_pure fun s past hend => hend)
    refine Hoare.ite (fun _ => Hoare.past_pure fun s past hs => hs.ends) fun _ => ?_
    exact hoare_get (fun _ _ hs => hs.base.since) fun s _ => ends_recvLoop hsize mem blocking _
  | grabMessages mem =>
    refine Hoare.past_pre hsettled (Hoare.bind (R := fun r =>
      Past (Ends lay start g ⟨[], r.msgs⟩)) ?_ fun r => Hoare.past_pure fun s past hend => hend)
    exact hoare_get (fun _ _ hs => hs.base.since) fun s _ => ends_grabLoop hsize mem _ g
  | disconnectPeer peerLocationId =>
    refine Hoare.past_pre hsettled ?_
    exact (settled_disconnectPeer peerLocationId).bind fun _ =>
      Hoare.past_pure fun s past hs => hs.ends
  | finalize =>
    refine Hoare.past_pre hsettled ?_
    exact settled_finalize.bind fun _ => Hoare.past_pure fun s past hs => hs.ends

theorem ends_reportCalls (hsize : 0 < lay.sizeofMsg) (calls : List Call) :
    ∀ g, Hoare record (Past (Settled lay start g)) (reportCalls lay calls) fun r =>
      Past (Ends lay start g r) := by
  induction calls with
  | nil => exact fun g => Hoare.past_pure fun s past hs => hs.ends
  | cons call calls ih =>
    intro g
    refine hoare_table.bind fun conns => (ends_call hsize call).bind fun first => ?_
    exact (hoare_after ih).bind fun rest => Hoare.past_pure fun s past hend => hend

/-- Without connections. -/
theorem settled_start (hsize : 0 < lay.sizeofMsg) (htable : start.connectionTable = some []) :
    Settled lay start .nil start [] where
  base :=
    { since := ⟨rfl, rfl, [], rfl, rfl⟩
      fresh := fun _ _ => rfl
      unsent := fun _ hx => nomatch hx }
  stream fd := Stream.empty hsize fd
  entries table ht := by
    rw [htable] at ht
    cases ht
    exact ⟨List.nodup_nil, fun _ he => (nomatch he), fun _ he => (nomatch he)⟩

/-- **What a run sends and receives**, by the descriptors. -/
theorem reportCalls_settled (hsize : 0 < lay.sizeofMsg) {calls : List Call} {s' : Net} {r : Report}
    {ops : List FdOp} (htable : start.connectionTable = some [])
    (h : reportCalls lay calls start = some (r, s', ops)) :
    ∃ g, g.report lay = r ∧ Settled lay start g s' ops :=
  hoare_past_iff.1 (ends_reportCalls hsize calls .nil) start [] (settled_start hsize htable) r s' ops h

end FTBN.Io
