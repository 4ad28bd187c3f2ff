import Mathlib.Data.List.Infix
import Ftb.Tcp.Proof.Reports

/-!
# Message framing

One process opens a connection, another one accepts it. The network gives the second a beginning of
the bytes that the first has written, both in whatever pieces. What the second receives are then the
messages that the first was given, whole and in order (`messages_framed`).
-/

open FTB FTBU Journal Pieces

namespace FTBN.Io

/-- The objects have their sizes, and an integer is read as it was written. -/
structure Layout.Lawful (lay : Layout) : Prop where
  systemId (n : UInt32) : (lay.systemId n).length = sizeofSystemId
  locationId (id : LocationId) : (lay.locationId id).length = lay.sizeofLocationId
  msg (m : Msg) : (lay.msg m).length = lay.sizeofMsg
  size : 0 < lay.sizeofMsg
  toSystemId (n : UInt32) : lay.toSystemId (lay.systemId n) = n

/-- The messages of `g` are those of a run from `s`, each on the descriptor that its bytes went
through. -/
structure Tagged.Accounts (lay : Layout) (s : Net) (ops : List FdOp) (r : Report) (g : Tagged) :
    Prop where
  report : g.report lay = r
  received (fd : Fd) : (g.on fd).received.map Delivery.bytes =
    whole lay.sizeofMsg ((readFrom fd ops).drop (readHeader lay s fd))
  sent (fd : Fd) : writtenTo fd ops <+: greeting lay s fd ++ (g.on fd).msgs.flatMap lay.msg
  unsent : ∀ x ∈ g.sent, x.fd = none → x.ret ≠ .success

/-- What `w` writes on a connection before the messages. -/
def heading (lay : Layout) (w : Net) : List UInt8 :=
  lay.systemId w.systemId ++ lay.locationId w.myLocationId

/-- A connection from `w` to `a`: `w` was given `out`, and `a` received `inn` from the bytes. -/
structure Framed (lay : Layout) (w a : Net) (out inn : Tagged) (written read : List UInt8) :
    Prop where
  writes : written <+: heading lay w ++ out.msgs.flatMap lay.msg
  finished : out.done ≠ [] → heading lay w ++ out.done.flatMap lay.msg <+: written
  whole : inn.received.map Delivery.bytes =
    whole lay.sizeofMsg (read.drop (sizeofSystemId + lay.sizeofLocationId))
  inOrder : inn.received.map Delivery.bytes <+: out.msgs.map lay.msg
  complete : read = written → out.done.map lay.msg <+: inn.received.map Delivery.bytes
  source : ∀ d ∈ inn.received, d.src = lay.toLocationId (lay.locationId w.myLocationId)
  matching : inn.received ≠ [] → w.systemId = a.systemId

section
variable {lay : Layout} {w a : Net} {fdW fdA : Fd} {v v' : View}

theorem Layout.Lawful.length_heading (hlay : lay.Lawful) (w : Net) :
    (heading lay w).length = sizeofSystemId + lay.sizeofLocationId := by
  rw [heading, List.length_append, hlay.systemId, hlay.locationId]

/-- The images of messages are cut apart again. -/
theorem Layout.Lawful.whole_msgs (hlay : lay.Lawful) (msgs : List Msg) :
    Pieces.whole lay.sizeofMsg (msgs.flatMap lay.msg) = msgs.map lay.msg := by
  have hlen : ∀ p ∈ msgs.map lay.msg, p.length = lay.sizeofMsg := by
    intro p hp
    obtain ⟨m, -, rfl⟩ := List.mem_map.1 hp
    exact hlay.msg m
  rw [List.flatMap_def]
  exact whole_self hlay.size hlen

theorem Settled.accounts {g : Tagged} {s : Net} {ops : List FdOp} {r : Report}
    (h : Settled lay w g s ops) (hr : g.report lay = r) : g.Accounts lay w ops r where
  report := hr
  received fd := (h.stream fd).reads
  sent fd := (h.stream fd).writes
  unsent := h.base.unsent

theorem greeting_eq (hw : w.accepts fdW = false) : greeting lay w fdW = heading lay w := by
  rw [greeting, hw, if_neg Bool.false_ne_true]
  rfl

/-- Where a message was received, the heading was read. -/
theorem Stream.heading_read (hlay : lay.Lawful) (hw : w.accepts fdW = false)
    (ha : a.accepts fdA = true) (hout : Stream lay w fdW v) (hin : Stream lay a fdA v')
    (hpart : v'.reads <+: v.writes) (hne : v'.tags.received ≠ []) :
    ∃ rest, v'.reads = heading lay w ++ rest ∧ 0 < rest.length := by
  have hwrites := hout.writes
  rw [greeting_eq hw] at hwrites
  have hreads := hin.reads
  rw [readHeader_accepts ha, ← hlay.length_heading w] at hreads
  have hlen : (heading lay w).length < v'.reads.length := by
    by_contra hle
    rw [List.drop_eq_nil_of_le (Nat.le_of_not_lt hle), whole_short hlay.size, List.map_eq_nil_iff]
      at hreads
    exact hne hreads
  obtain ⟨rest, hrest⟩ := List.prefix_of_prefix_length_le (List.prefix_append _ _)
    (hpart.trans hwrites) (Nat.le_of_lt hlen)
  rw [← hrest, List.length_append] at hlen
  exact ⟨rest, hrest.symm, Nat.pos_of_lt_add_right hlen⟩

theorem Stream.framed (hlay : lay.Lawful) (hw : w.accepts fdW = false) (ha : a.accepts fdA = true)
    (hout : Stream lay w fdW v) (hin : Stream lay a fdA v') (hpart : v'.reads <+: v.writes) :
    Framed lay w a v.tags v'.tags v.writes v'.reads := by
  have hwrites := hout.writes
  have hdone := hout.done
  have hreads := hin.reads
  rw [greeting_eq hw] at hwrites hdone
  rw [readHeader_accepts ha] at hreads
  have hdrop (l : List UInt8) :
      (heading lay w ++ l).drop (sizeofSystemId + lay.sizeofLocationId) = l :=
    List.drop_left' (hlay.length_heading w)
  refine ⟨hwrites, hdone, hreads, ?_, fun hall => ?_, fun d hd => ?_, fun hne => ?_⟩
  · have hcut := (hpart.trans hwrites).drop (sizeofSystemId + lay.sizeofLocationId)
    rw [hdrop] at hcut
    rw [hreads, ← hlay.whole_msgs]
    exact whole_prefix hlay.size hcut
  · by_cases hnil : v.tags.done = []
    · rw [hnil]
      exact List.nil_prefix
    · have hcut := (hdone hnil).drop (sizeofSystemId + lay.sizeofLocationId)
      rw [hdrop, ← hall] at hcut
      rw [hreads, ← hlay.whole_msgs]
      exact whole_prefix hlay.size hcut
  · obtain ⟨rest, hrest, -⟩ := hout.heading_read hlay hw ha hin hpart (List.ne_nil_of_mem hd)
    rw [hin.sources d hd, hrest]
    exact sourceAt_accepts ha (hlay.systemId _) (hlay.locationId _)
  · obtain ⟨rest, hrest, hpos⟩ := hout.heading_read hlay hw ha hin hpart hne
    have hlong : sizeofSystemId < v'.reads.length := by
      rw [hrest, List.length_append, hlay.length_heading]
      omega
    have hmatch := hin.matching hlong ha
    rwa [hrest, heading, List.append_assoc, List.take_left' (hlay.systemId _), hlay.toSystemId]
      at hmatch

end

/-- `FTBNI_UTIL_READ` and `FTBNI_UTIL_WRITE` on an entry, for every splitting of the bytes. -/
structure Splits (conn : ConnectionEntry) : Prop where
  read (buf : List UInt8) (results : List ReadResult) (last : List UInt8) (more : List Outcome)
    (s : Net) : conn.errFlag = false → (∀ r ∈ results, r.Goes) → last ≠ [] →
      (results.flatMap ReadResult.bytes ++ last).length = buf.length →
      s.outcomes = results.map Outcome.read ++ .read (.got last) :: more →
      ∃ ops, utilRead conn buf s = some
        ((conn, results.flatMap ReadResult.bytes ++ last), { s with outcomes := more }, ops)
  cut (buf : List UInt8) (results : List ReadResult) (r : ReadResult) (more : List Outcome)
    (s : Net) : conn.errFlag = false → (∀ r ∈ results, r.Goes) → r = .eof ∨ r = .fail →
      (results.flatMap ReadResult.bytes).length < buf.length →
      s.outcomes = results.map Outcome.read ++ .read r :: more →
      ∃ out ops, utilRead conn buf s = some
        (({ conn with errFlag := true }, out), { s with outcomes := more }, ops)
  later (buf : List UInt8) (s : Net) : conn.errFlag = true →
    utilRead conn buf s = some ((conn, buf), s, [])
  write (bytes : List UInt8) (results : List WriteResult) (m : Nat) (more : List Outcome)
    (s : Net) : conn.errFlag = false → (∀ r ∈ results, r ≠ .fail) →
      (results.map WriteResult.count).sum < bytes.length →
      (results.map WriteResult.count).sum + m = bytes.length →
      s.outcomes = results.map Outcome.write ++ .write (.wrote m) :: more →
      ∃ ops, utilWrite conn bytes s = some (conn, { s with outcomes := more }, ops) ∧
        writtenTo conn.fd ops = bytes

theorem splits (conn : ConnectionEntry) : Splits conn where
  read _ _ _ _ _ := utilRead_split
  cut _ _ _ _ _ := utilRead_cut
  later buf s hflag := utilRead_flagged hflag buf s
  write _ _ _ _ _ := utilWrite_split

/-- **Message framing**: on every connection from the first process to the second one, over which the
network gives no other bytes than those that were written, the messages received are whole ones of
those written, in order, and all of them once all bytes are read. -/
theorem messages_framed {lay : Layout} (hlay : lay.Lawful) {callsW callsA : List Call}
    {w w' a a' : Net} {rW rA : Report} {opsW opsA : List FdOp} (hw : w.connectionTable = some [])
    (ha : a.connectionTable = some []) (hrunW : reportCalls lay callsW w = some (rW, w', opsW))
    (hrunA : reportCalls lay callsA a = some (rA, a', opsA)) :
    (∃ gW gA : Tagged, gW.Accounts lay w opsW rW ∧ gA.Accounts lay a opsA rA ∧
      ∀ fdW fdA, w.accepts fdW = false → a.accepts fdA = true →
        readFrom fdA opsA <+: writtenTo fdW opsW →
        Framed lay w a (gW.on fdW) (gA.on fdA) (writtenTo fdW opsW) (readFrom fdA opsA)) ∧
      ∀ conn, Splits conn := by
  obtain ⟨gW, hgW, hsW⟩ := reportCalls_settled hlay.size hw hrunW
  obtain ⟨gA, hgA, hsA⟩ := reportCalls_settled hlay.size ha hrunA
  refine ⟨⟨gW, gA, hsW.accounts hgW, hsA.accounts hgA, fun fdW fdA hW hA hpart => ?_⟩, splits⟩
  exact (hsW.stream fdW).framed hlay hW hA (hsA.stream fdA) hpart

/-! ### A connection that breaks in a message -/

private def wireLayout : Layout where
  sizeofLocationId := 1
  sizeofMsg := 2
  systemId n := [UInt8.ofNat n.toNat, UInt8.ofNat (n.toNat / 256), UInt8.ofNat (n.toNat / 65536),
    UInt8.ofNat (n.toNat / 16777216)]
  locationId id := [UInt8.ofNat id.pid.toNat]
  msg m := [m.event.seqnum.toUInt8, m.event.eventType]
  toSystemId
    | [b₀, b₁, b₂, b₃] =>
      UInt32.ofNat (b₀.toNat + 256 * b₁.toNat + 65536 * b₂.toNat + 16777216 * b₃.toNat)
    | _ => 0
  toLocationId bytes := { (default : LocationId) with pid := (bytes.headD 0).toNat }
  toMsg bytes :=
    { (default : Msg) with
      event := { (default : Event) with seqnum := (bytes.headD 0).toUInt16 } }

private theorem wireLayout_lawful : wireLayout.Lawful where
  systemId _ := rfl
  locationId _ := rfl
  msg _ := rfl
  size := by decide
  toSystemId n := by
    have hlt := n.toNat_lt
    apply UInt32.toNat_inj.1
    show (UInt32.ofNat _).toNat = n.toNat
    simp only [UInt32.toNat_ofNat', UInt8.toNat_ofNat']
    omega

private def numbered (seqnum : UInt16) : Msg :=
  { (default : Msg) with
    dst := { (default : Id) with locationId := { (default : LocationId) with pid := 7 } }
    event := { (default : Event) with seqnum } }

private def noise : Memory := ⟨fun n => List.replicate n 255, fun _ => List.length_replicate⟩

private def process (pid : Int) (listenFd : Option Fd) (outcomes : List Outcome) : Net where
  outcomes := outcomes
  nextFd := 1
  connectionTable := some []
  listenFd := listenFd
  systemId := 1
  myLocationId := { (default : LocationId) with pid }

/-- The third message is not written to its end. -/
private def dialling : Net :=
  process 5 none
    [.socket true, .gethostbyname true, .setsockopt true, .connect true, .write (.wrote 3),
      .write .again, .write (.wrote 1), .write (.wrote 1), .write (.wrote 2), .read (.got [7]),
      .write (.wrote 1), .write .again, .write (.wrote 1), .write (.wrote 1), .write .fail]

private def answering : Net :=
  process 7 (some 0)
    [.select (.ready [0]), .accept true, .read (.got [1, 0]), .read .again, .read (.got [0, 0]),
      .read (.got [5]), .read (.got [1]), .read (.got [0]), .write (.wrote 1), .select (.ready [1]),
      .read (.got [2]), .read .again, .read (.got [0]), .select (.ready [1]), .read (.got [3]),
      .read .eof]

private theorem dialling_ran :
    ((reportCalls wireLayout [.connectTo noise (numbered 1), .sendMsg (numbered 2),
      .sendMsg (numbered 3)] dialling).map fun r => (r.1.sent.length, writtenTo 1 r.2.2)) =
        some (3, [1, 0, 0, 0, 5, 1, 0, 2, 0, 3]) := by
  decide +kernel

private theorem answering_ran :
    ((reportCalls wireLayout [.grabMessages noise, .grabMessages noise, .grabMessages noise]
      answering).map fun r => (r.1.received.length, readFrom 1 r.2.2)) =
        some (2, [1, 0, 0, 0, 5, 1, 0, 2, 0, 3]) := by
  decide +kernel

/-- Of three messages two arrive, and the third is cut off. -/
theorem messages_framed_cut : ∃ rW w' opsW rA a' opsA,
    reportCalls wireLayout [.connectTo noise (numbered 1), .sendMsg (numbered 2),
      .sendMsg (numbered 3)] dialling = some (rW, w', opsW) ∧
    reportCalls wireLayout [.grabMessages noise, .grabMessages noise, .grabMessages noise]
      answering = some (rA, a', opsA) ∧
    rW.sent.length = 3 ∧ rA.received.length = 2 ∧
    ∃ gW gA : Tagged, gW.Accounts wireLayout dialling opsW rW ∧
      gA.Accounts wireLayout answering opsA rA ∧
      Framed wireLayout dialling answering (gW.on 1) (gA.on 1) (writtenTo 1 opsW)
        (readFrom 1 opsA) := by
  obtain ⟨⟨rW, w', opsW⟩, hrunW, hW⟩ := Option.map_eq_some_iff.1 dialling_ran
  obtain ⟨⟨rA, a', opsA⟩, hrunA, hA⟩ := Option.map_eq_some_iff.1 answering_ran
  rw [Prod.mk.injEq] at hW hA
  obtain ⟨⟨gW, gA, hgW, hgA, hframed⟩, -⟩ :=
    messages_framed wireLayout_lawful rfl rfl hrunW hrunA
  refine ⟨rW, w', opsW, rA, a', opsA, hrunW, hrunA, hW.1, hA.1, gW, gA, hgW, hgA, ?_⟩
  refine hframed 1 1 (by decide) (by decide) ?_
  rw [hW.2, hA.2]

end FTBN.Io
