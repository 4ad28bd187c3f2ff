import Ftb.Tcp.Proof.Settled

/-!
# Rules for the work on a descriptor

The macros and the changes of the table inside a call, as triples over the journal with `Busy`. The
values between them say how far the first message of a connection has come (`Greeted`, `Opened`,
`Arriving`, `Answered`), and what a message does to a connection of the table (`Entry`).
-/

open FTB FTBU Journal Pieces

namespace FTBN.Io

variable {lay : Layout} {start : Net} {table rest : List ConnectionEntry} {fd : Fd}
  {V : View → Prop} {g : Tagged}

/-! ## Rules -/

theorem Flagged.fd_eq {conn got : ConnectionEntry} (h : Flagged conn got) : got.fd = conn.fd := by
  rw [h.eq]

theorem Reads.length_le {conn : ConnectionEntry} {buf b : List UInt8}
    {r : ConnectionEntry × List UInt8} {used : List Outcome} (h : Reads conn buf r used b) :
    b.length ≤ buf.length := by
  cases hr : r.1.errFlag with
  | false => exact Nat.le_of_eq (h.full hr).2
  | true =>
    cases hc : conn.errFlag with
    | false => exact Nat.le_of_lt (h.cut hr hc)
    | true =>
      rw [(h.nothing hc).2.2]
      exact Nat.zero_le _

theorem hoare_read {α : Type} {conn : ConnectionEntry} {buf : List UInt8}
    {f : ConnectionEntry × List UInt8 → NetProg α} {Q : α → Net → Option (List FdOp) → Prop}
    (V' : ConnectionEntry × List UInt8 → View → Prop) (hfd : conn.fd = fd)
    (hv : ∀ v r used b, V v → Reads conn buf r used b → V' r (v.move b []))
    (hf : ∀ r : ConnectionEntry × List UInt8, Flagged conn r.1 →
      (r.1.errFlag = false → r.2.length = buf.length) →
      Hoare record (Past (Busy lay start table rest fd (V' r) g)) (f r) Q) :
    Hoare record (Past (Busy lay start table rest fd V g)) (utilRead conn buf >>= f) Q := by
  refine Hoare.bind (R := fun r => Past fun s past =>
    (Flagged conn r.1 ∧ (r.1.errFlag = false → r.2.length = buf.length)) ∧
      Busy lay start table rest fd (V' r) g s past) (hoare_past_iff.2 ?_) fun r => ?_
  · intro s past hb r s' ops hr
    obtain ⟨used, b, hmoves, hreads, -⟩ := utilRead_run hr
    rw [hfd] at hmoves
    refine ⟨⟨hreads.flagged, fun hflag => ?_⟩, hb.moves hmoves fun v h => hv v r used b h hreads⟩
    rw [← (hreads.full hflag).1, (hreads.full hflag).2]
  · exact Hoare.past_and fun h => hf r h.1 h.2

theorem hoare_write {α : Type} {conn : ConnectionEntry} {bytes : List UInt8}
    {f : ConnectionEntry → NetProg α} {Q : α → Net → Option (List FdOp) → Prop}
    (V' : ConnectionEntry → View → Prop) (hfd : conn.fd = fd)
    (hv : ∀ v got used out, V v → Writes conn bytes got used out → V' got (v.move [] out))
    (hf : ∀ got, Flagged conn got →
      Hoare record (Past (Busy lay start table rest fd (V' got) g)) (f got) Q) :
    Hoare record (Past (Busy lay start table rest fd V g)) (utilWrite conn bytes >>= f) Q := by
  refine Hoare.bind (R := fun got => Past fun s past =>
    Flagged conn got ∧ Busy lay start table rest fd (V' got) g s past) (hoare_past_iff.2 ?_)
    fun got => ?_
  · intro s past hb got s' ops hr
    obtain ⟨used, out, hmoves, hwrites, -⟩ := utilWrite_run hr
    rw [hfd] at hmoves
    exact ⟨hwrites.flagged, hb.moves hmoves fun v h => hv v got used out h hwrites⟩
  · exact Hoare.past_and fun h => hf got h

/-- `close` and `free` of an entry. -/
theorem closeFree_run {entry : ConnectionEntry} {s s' : Net} {x : PUnit} {ops : List FdOp} (fd : Fd)
    (h : closeFree entry s = some (x, s', ops)) : Moves fd s s' ops [] [] [] := by
  cases h
  exact (Moves.still fd s (fun _ => rfl) fun _ => rfl).trans
    (Moves.still fd s (fun _ => rfl) fun _ => rfl)

theorem hoare_shut (entry : ConnectionEntry) :
    Hoare record (Past (Busy lay start table rest fd V g)) (closeFree entry)
      fun _ => Past (Busy lay start table rest fd V g) :=
  hoare_past_iff.2 fun _ _ hb _ _ _ hr =>
    hb.moves (closeFree_run fd hr) fun v h => by rwa [move_nil]

/-- A table that a call writes. -/
theorem hoare_write_table (table' : List ConnectionEntry) :
    Hoare record (Past (Busy lay start table rest fd V g)) (setConnections table')
      fun _ => Past (Busy lay start table' rest fd V g) := by
  refine hoare_past_iff.2 fun s past hb _ s' ops hr => ?_
  cases hr
  rw [List.append_nil]
  exact
    { base := ⟨⟨hb.base.since.systemId, hb.base.since.myLocationId, hb.base.since.opened⟩,
        hb.base.fresh, hb.base.unsent⟩
      stream := hb.stream
      table := rfl
      entries := ⟨hb.entries.nodup, hb.entries.old, hb.entries.entry⟩
      apart := hb.apart
      old := hb.old
      here := hb.here }

theorem hoare_read_table {α : Type} {f : List ConnectionEntry → NetProg α}
    {Q : α → Net → Option (List FdOp) → Prop}
    (hf : Hoare record (Past (Busy lay start table rest fd V g)) (f table) Q) :
    Hoare record (Past (Busy lay start table rest fd V g)) (connections >>= f) Q := by
  refine Hoare.bind (R := fun conns => Past fun s past =>
    conns = table ∧ Busy lay start table rest fd V g s past) ?_ fun conns => ?_
  · refine Hoare.past_lift fun s past hb conns s' hr => ?_
    obtain ⟨t, ht, hr⟩ := Option.map_eq_some_iff.1 hr
    cases hr
    rw [hb.table] at ht
    cases ht
    exact ⟨rfl, hb⟩
  · refine Hoare.past_and fun h => ?_
    rw [h]
    exact hf

theorem hoare_table : Hoare record (Past (Settled lay start g)) connections fun conns =>
    Past (Idle lay start conns g) := by
  refine Hoare.past_lift fun s past hs conns s' hr => ?_
  obtain ⟨t, ht, hr⟩ := Option.map_eq_some_iff.1 hr
  cases hr
  exact ⟨hs, ht⟩

/-- The invariant with the messages of a report. -/
def Ends (lay : Layout) (start : Net) (g : Tagged) (r : Report) (s : Net) (past : List FdOp) : Prop :=
  ∃ g', g'.report lay = r ∧ Settled lay start (g ++ g') s past

theorem hoare_ends {α : Type} {r : Report} {p : NetProg α} {Q : α → Net → Option (List FdOp) → Prop}
    (h : ∀ g', g'.report lay = r → Hoare record (Past (Settled lay start (g ++ g'))) p Q) :
    Hoare record (Past (Ends lay start g r)) p Q := by
  rintro s o ⟨past, ho, g', hg, hs⟩
  exact h g' hg s o ⟨past, ho, hs⟩

theorem Settled.ends {s : Net} {past : List FdOp} (h : Settled lay start g s past) :
    Ends lay start g ⟨[], []⟩ s past :=
  ⟨.nil, rfl, by rwa [Tagged.append_nil]⟩

/-! ## The first message of a connection -/

theorem whole_drop (hsize : 0 < lay.sizeofMsg) {bytes : List UInt8} {n : Nat}
    (h : bytes.length < n + lay.sizeofMsg) : whole lay.sizeofMsg (bytes.drop n) = [] := by
  apply whole_short
  rw [List.length_drop]
  omega

theorem on_sent (fd : Fd) (msg : Msg) (ret : Ret) :
    (⟨[⟨some fd, msg, ret⟩], []⟩ : Tagged).on fd = ⟨[⟨some fd, msg, ret⟩], []⟩ := by
  simp [Tagged.on]

theorem on_received (fd : Fd) (src : LocationId) (bytes : List UInt8) :
    (⟨[], [⟨fd, src, bytes⟩]⟩ : Tagged).on fd = ⟨[], [⟨fd, src, bytes⟩]⟩ := by
  simp [Tagged.on]

theorem only_sent (fd : Fd) (msg : Msg) (ret : Ret) :
    (⟨[⟨some fd, msg, ret⟩], []⟩ : Tagged).Only fd :=
  ⟨by simp, by simp⟩

theorem only_received (fd : Fd) (src : LocationId) (bytes : List UInt8) :
    (⟨[], [⟨fd, src, bytes⟩]⟩ : Tagged).Only fd :=
  ⟨by simp, by simp⟩

theorem only_nil (fd : Fd) : Tagged.nil.Only fd := ⟨by simp [Tagged.nil], by simp [Tagged.nil]⟩

theorem on_nil (fd : Fd) : Tagged.nil.on fd = .nil := rfl

theorem tag_nil (v : View) : v.tag .nil = v := by
  rw [View.tag, Tagged.append_nil]

/-- The writes of `FTBNI_util_connect_to`, of which `bytes` is all that is to be written so far. -/
structure Greeted (bytes : List UInt8) (entry : ConnectionEntry) (v : View) : Prop where
  tags : v.tags = .nil
  reads : v.reads = []
  start : v.writes <+: bytes
  full : entry.errFlag = false → v.writes = bytes

theorem Greeted.write {bytes more out : List UInt8} {entry got : ConnectionEntry} {v : View}
    {used : List Outcome} (h : Greeted bytes entry v) (hw : Writes entry more got used out) :
    Greeted (bytes ++ more) got (v.move [] out) where
  tags := h.tags
  reads := by simp [h.reads]
  start := by
    rw [View.move_writes]
    cases hf : entry.errFlag with
    | true =>
      have hout := (hw.nothing hf).2.2
      rw [hout, List.append_nil]
      exact h.start.trans (List.prefix_append _ _)
    | false =>
      rw [h.full hf]
      exact (List.prefix_append_right_inj _).2 hw.start
  full hf := by
    rw [View.move_writes, h.full (hw.flagged.flag hf), hw.full hf]

/-- The reads of a connection that is being set up: `want` bytes are to be read so far, and `bytes`
is what was read of them. -/
structure Taken (want : Nat) (bytes : List UInt8) (entry : ConnectionEntry) (v : View) : Prop where
  full : entry.errFlag = false → v.reads = bytes ∧ bytes.length = want
  cut : entry.errFlag = true → v.reads.length < want

theorem Taken.le {want : Nat} {bytes : List UInt8} {entry : ConnectionEntry} {v : View}
    (h : Taken want bytes entry v) : v.reads.length ≤ want := by
  cases hf : entry.errFlag with
  | true => exact Nat.le_of_lt (h.cut hf)
  | false =>
    obtain ⟨hreads, hlen⟩ := h.full hf
    exact Nat.le_of_eq (hreads ▸ hlen)

theorem Taken.read {want : Nat} {bytes buf b : List UInt8} {entry : ConnectionEntry} {v : View}
    {r : ConnectionEntry × List UInt8} {used : List Outcome} (h : Taken want bytes entry v)
    (hr : Reads entry buf r used b) :
    Taken (want + buf.length) (bytes ++ r.2) r.1 (v.move b []) where
  full hf := by
    obtain ⟨hreads, hlen⟩ := h.full (hr.flagged.flag hf)
    obtain ⟨hb, hblen⟩ := hr.full hf
    refine ⟨?_, ?_⟩
    · rw [View.move_reads, hreads, hb]
    · rw [List.length_append, ← hb, hblen, hlen]
  cut hf := by
    rw [View.move_reads, List.length_append]
    cases he : entry.errFlag with
    | true =>
      have hcut := h.cut he
      rw [(hr.nothing he).2.2, List.length_nil]
      omega
    | false =>
      have hle := h.le
      have hcut := hr.cut hf he
      omega

section
variable (lay : Layout) (start : Net)

/-- What `FTBNI_util_connect_to` writes on a connection. -/
def opening (regMsg : Msg) : List UInt8 :=
  lay.systemId start.systemId ++ lay.locationId start.myLocationId ++ lay.msg regMsg

/-- `FTBNI_util_connect_to` has written, and has read `dst`. -/
structure Opened (fd : Fd) (regMsg : Msg) (dst : List UInt8) (entry : ConnectionEntry) (v : View) :
    Prop where
  connects : start.accepts fd = false
  tags : v.tags = .nil
  writes : v.writes <+: opening lay start regMsg
  le : v.reads.length ≤ lay.sizeofLocationId
  full : entry.errFlag = false →
    v.writes = opening lay start regMsg ∧ v.reads = dst ∧ dst.length = lay.sizeofLocationId

/-- A connection was accepted and is being read: `sys` is the system id, if all of it was read. -/
structure Arriving (fd : Fd) (sys : List UInt8) (want : Nat) (bytes : List UInt8)
    (entry : ConnectionEntry) (v : View) : Prop where
  accepts : start.accepts fd = true
  tags : v.tags = .nil
  writes : v.writes = []
  taken : Taken want bytes entry v
  head : v.reads.length ≤ sizeofSystemId ∨ v.reads.take sizeofSystemId = sys

/-- The registration was read, and `out` of the answer is written. -/
structure Answered (fd : Fd) (sys dst bytes : List UInt8) (entry : ConnectionEntry) (v : View) :
    Prop where
  accepts : start.accepts fd = true
  tags : v.tags = .nil
  reads : v.reads = sys ++ dst ++ bytes
  writes : v.writes <+: lay.locationId start.myLocationId
  full : entry.errFlag = false → v.writes = lay.locationId start.myLocationId

end

theorem Greeted.opened {fd : Fd} {regMsg : Msg} {entry : ConnectionEntry} {v : View}
    {buf b : List UInt8} {r : ConnectionEntry × List UInt8} {used : List Outcome}
    (h : Greeted (opening lay start regMsg) entry v) (hc : start.accepts fd = false)
    (hr : Reads entry buf r used b) (hbuf : buf.length = lay.sizeofLocationId) :
    Opened lay start fd regMsg r.2 r.1 (v.move b []) where
  connects := hc
  tags := h.tags
  writes := by
    simpa using h.start
  le := by
    rw [View.move_reads, h.reads, List.nil_append, ← hbuf]
    exact hr.length_le
  full hf := by
    obtain ⟨hb, hlen⟩ := hr.full hf
    refine ⟨?_, ?_, ?_⟩
    · simpa using h.full (hr.flagged.flag hf)
    · rw [View.move_reads, h.reads, hb, List.nil_append]
    · rw [← hb, hlen, hbuf]

theorem tag_of_nil {v : View} (h : v.tags = .nil) (g : Tagged) :
    v.tag g = ⟨v.reads, v.writes, g⟩ := by
  rw [View.tag, h]
  rfl

/-- The messages that are done, of one that is handed to a connection. -/
theorem done_one (fd : Option Fd) (msg : Msg) (ret : Ret) :
    (⟨[⟨fd, msg, ret⟩], []⟩ : Tagged).done = if ret = .success then [msg] else [] := by
  by_cases h : ret = .success <;> simp [Tagged.done, h]

section
variable (hc : start.accepts fd = false)
include hc

theorem readHeader_connects : readHeader lay start fd = lay.sizeofLocationId := by
  simp [readHeader, hc]

theorem sourceAt_connects {bytes : List UInt8} (h : bytes.length = lay.sizeofLocationId) :
    sourceAt lay start fd bytes = lay.toLocationId bytes := by
  rw [sourceAt, hc, if_neg Bool.false_ne_true, List.drop_zero, ← h, List.take_length]

theorem greeting_connects (regMsg : Msg) :
    greeting lay start fd ++ [regMsg].flatMap lay.msg = opening lay start regMsg := by
  rw [greeting, hc, if_neg Bool.false_ne_true, List.flatMap_singleton]
  rfl

end

theorem Opened.stream {regMsg : Msg} {dst : List UInt8} {entry : ConnectionEntry} {v : View}
    (h : Opened lay start fd regMsg dst entry v) (hsize : 0 < lay.sizeofMsg) {ret : Ret}
    (hret : ret = .success → entry.errFlag = false) :
    Stream lay start fd (v.tag ⟨[⟨some fd, regMsg, ret⟩], []⟩) := by
  have hc := h.connects
  have hle := h.le
  rw [tag_of_nil h.tags]
  refine ⟨?_, fun d hd => (nomatch hd), fun _ hacc => ?_, ?_, fun hne => ?_⟩
  · rw [readHeader_connects hc]
    exact (whole_drop hsize (Nat.lt_of_le_of_lt hle (Nat.lt_add_of_pos_right hsize))).symm
  · rw [hc] at hacc
    cases hacc
  · show v.writes <+: greeting lay start fd ++ [regMsg].flatMap lay.msg
    rw [greeting_connects hc]
    exact h.writes
  · rw [done_one] at hne ⊢
    by_cases hok : ret = .success
    · rw [if_pos hok, greeting_connects hc]
      exact (h.full (hret hok)).1 ▸ List.prefix_refl _
    · rw [if_neg hok] at hne
      exact absurd rfl hne

theorem Opened.entry {regMsg : Msg} {dst : List UInt8} {entry : ConnectionEntry} {v : View}
    (h : Opened lay start fd regMsg dst entry v) (hfd : entry.fd = fd) (hidle : entry.refCount = 0)
    (hflag : entry.errFlag = false) :
    Entry lay start { entry with dst := lay.toLocationId dst }
      (v.tag ⟨[⟨some fd, regMsg, .success⟩], []⟩) := by
  subst hfd
  have hc := h.connects
  obtain ⟨hwrites, hreads, hlen⟩ := h.full hflag
  rw [tag_of_nil h.tags, hreads, hwrites]
  refine ⟨hidle, ?_, ?_, ?_, fun hacc => ?_, fun _ => ?_, fun _ => rfl⟩
  · rw [readHeader_connects hc]
    exact Nat.le_of_eq hlen.symm
  · rw [readHeader_connects hc, ← hlen, List.drop_length]
    exact Nat.dvd_zero _
  · exact (sourceAt_connects hc hlen).symm
  · rw [hc] at hacc
    cases hacc
  · exact (greeting_connects hc regMsg).symm

section
variable (hacc : start.accepts fd = true)
include hacc

theorem readHeader_accepts : readHeader lay start fd = sizeofSystemId + lay.sizeofLocationId := by
  rw [readHeader, hacc, if_pos rfl]

theorem sourceAt_accepts {sys dst rest : List UInt8} (hs : sys.length = sizeofSystemId)
    (hd : dst.length = lay.sizeofLocationId) :
    sourceAt lay start fd (sys ++ dst ++ rest) = lay.toLocationId dst := by
  rw [sourceAt, hacc, if_pos rfl, List.append_assoc, List.drop_left' hs, List.take_left' hd]

theorem greeting_accepts : greeting lay start fd = lay.locationId start.myLocationId := by
  rw [greeting, hacc, if_pos rfl, List.nil_append]

end

theorem Arriving.read {sys bytes buf b : List UInt8} {want : Nat} {entry : ConnectionEntry} {v : View}
    {r : ConnectionEntry × List UInt8} {used : List Outcome}
    (h : Arriving start fd sys want bytes entry v) (hr : Reads entry buf r used b)
    (hsys : entry.errFlag = false → bytes.take sizeofSystemId = sys ∧ sizeofSystemId ≤ bytes.length) :
    Arriving start fd sys (want + buf.length) (bytes ++ r.2) r.1 (v.move b []) where
  accepts := h.accepts
  tags := h.tags
  writes := by simp [h.writes]
  taken := h.taken.read hr
  head := by
    rw [View.move_reads]
    cases hf : entry.errFlag with
    | true =>
      rw [(hr.nothing hf).2.2, List.append_nil]
      exact h.head
    | false =>
      obtain ⟨htake, hle⟩ := hsys hf
      rw [(h.taken.full hf).1, List.take_append_of_le_length hle]
      exact Or.inr htake

/-- Nothing is received before the first message is there. -/
theorem Arriving.stream {sys bytes : List UInt8} {want : Nat} {entry : ConnectionEntry} {v : View}
    (h : Arriving start fd sys want bytes entry v) (hsize : 0 < lay.sizeofMsg)
    (hlen : v.reads.length < sizeofSystemId + lay.sizeofLocationId + lay.sizeofMsg)
    (hsys : sizeofSystemId < v.reads.length → lay.toSystemId sys = start.systemId) :
    Stream lay start fd v := by
  have hacc := h.accepts
  obtain ⟨reads, writes, tags⟩ := v
  have htags : tags = .nil := h.tags
  have hwrites : writes = [] := h.writes
  subst htags hwrites
  refine ⟨?_, fun d hd => (nomatch hd), fun hlt _ => ?_, List.nil_prefix, fun hne => absurd rfl hne⟩
  · rw [readHeader_accepts hacc]
    exact (whole_drop hsize hlen).symm
  · have hhead := h.head.resolve_left (Nat.not_le.2 hlt)
    rw [hhead]
    exact hsys hlt

theorem Answered.stream {sys dst bytes : List UInt8} {entry : ConnectionEntry} {v : View}
    (h : Answered lay start fd sys dst bytes entry v) (hsize : 0 < lay.sizeofMsg)
    (hs : sys.length = sizeofSystemId) (hd : dst.length = lay.sizeofLocationId)
    (hb : bytes.length = lay.sizeofMsg) (hsys : lay.toSystemId sys = start.systemId) :
    Stream lay start fd (v.tag ⟨[], [⟨fd, lay.toLocationId dst, bytes⟩]⟩) := by
  have hacc := h.accepts
  have hlen : (sys ++ dst).length = sizeofSystemId + lay.sizeofLocationId := by
    rw [List.length_append, hs, hd]
  have hone := whole_one hsize hb
  rw [tag_of_nil h.tags, h.reads]
  refine ⟨?_, ?_, fun _ _ => ?_, ?_, fun hne => absurd rfl hne⟩
  · rw [readHeader_accepts hacc, List.drop_left' hlen, hone]
    rfl
  · intro d hd'
    rw [List.mem_singleton.1 hd']
    exact (sourceAt_accepts hacc hs hd).symm
  · rw [List.append_assoc, List.take_left' hs]
    exact hsys
  · rw [greeting_accepts hacc]
    exact h.writes.trans (List.prefix_append _ _)

theorem Answered.entry {sys dst bytes : List UInt8} {entry : ConnectionEntry} {v : View}
    (h : Answered lay start fd sys dst bytes entry v) (hfd : entry.fd = fd)
    (hidle : entry.refCount = 0) (hdst : entry.dst = lay.toLocationId dst)
    (hs : sys.length = sizeofSystemId) (hd : dst.length = lay.sizeofLocationId)
    (hb : bytes.length = lay.sizeofMsg) (hsys : lay.toSystemId sys = start.systemId) :
    Entry lay start entry (v.tag ⟨[], [⟨fd, lay.toLocationId dst, bytes⟩]⟩) := by
  subst hfd
  have hacc := h.accepts
  have hlen : (sys ++ dst).length = sizeofSystemId + lay.sizeofLocationId := by
    rw [List.length_append, hs, hd]
  rw [tag_of_nil h.tags, h.reads]
  refine ⟨hidle, ?_, ?_, ?_, fun _ => ?_, fun hf => ?_, fun _ => rfl⟩
  · rw [readHeader_accepts hacc, ← hlen, @List.length_append _ (sys ++ dst)]
    exact Nat.le_add_right _ _
  · rw [readHeader_accepts hacc, List.drop_left' hlen]
    exact ⟨1, hb.trans (Nat.mul_one _).symm⟩
  · rw [hdst]
    exact (sourceAt_accepts hacc hs hd).symm
  · rw [List.append_assoc, List.take_left' hs]
    exact hsys
  · rw [greeting_accepts hacc]
    exact (h.full hf).trans (List.append_nil _).symm

/-! ## A message on a connection of the table -/

theorem sourceAt_append {bytes : List UInt8} (h : readHeader lay start fd ≤ bytes.length)
    (b : List UInt8) : sourceAt lay start fd (bytes ++ b) = sourceAt lay start fd bytes := by
  unfold readHeader at h
  unfold sourceAt
  rw [List.drop_append_of_le_length (by omega),
    List.take_append_of_le_length (by rw [List.length_drop]; omega)]

theorem Matching.append {bytes : List UInt8} (hm : Matching lay start fd bytes)
    (h : readHeader lay start fd ≤ bytes.length) (b : List UInt8) :
    Matching lay start fd (bytes ++ b) := by
  intro hacc
  rw [readHeader_accepts hacc] at h
  rw [List.take_append_of_le_length (by omega)]
  exact hm hacc

section
variable {conn : ConnectionEntry} {v : View}

theorem Entry.stream_send (hentry : Entry lay start conn v) (hstream : Stream lay start conn.fd v)
    {msg : Msg} {got : ConnectionEntry} {used : List Outcome} {out : List UInt8}
    (hw : Writes { conn with refCount := conn.refCount + 1 } (lay.msg msg) got used out) {ret : Ret}
    (hret : ret = .success → got.errFlag = false) :
    Stream lay start conn.fd ((v.move [] out).tag ⟨[⟨some conn.fd, msg, ret⟩], []⟩) := by
  have hmsgs : (v.tags ++ ⟨[⟨some conn.fd, msg, ret⟩], []⟩).msgs = v.tags.msgs ++ [msg] :=
    Tagged.msgs_append ..
  have hdone : (v.tags ++ ⟨[⟨some conn.fd, msg, ret⟩], []⟩).done =
      v.tags.done ++ if ret = .success then [msg] else [] := by
    rw [Tagged.done_append, done_one]
  refine ⟨?_, ?_, ?_, ?_, ?_⟩
  · simpa using hstream.reads
  · simpa using hstream.sources
  · simpa using hstream.matching
  · rw [View.tag_writes, View.move_writes, View.tag_tags, View.move_tags, hmsgs, List.flatMap_append, List.flatMap_singleton, ← List.append_assoc]
    cases hf : conn.errFlag with
    | true =>
      rw [(hw.nothing hf).2.2, List.append_nil]
      exact hstream.writes.trans (List.prefix_append _ _)
    | false =>
      rw [hentry.full hf]
      exact (List.prefix_append_right_inj _).2 hw.start
  · rw [View.tag_writes, View.move_writes, View.tag_tags, View.move_tags, hdone]
    by_cases hok : ret = .success
    · have hf := hret hok
      rw [if_pos hok, hw.full hf, hentry.full (hw.flagged.flag hf), hentry.done (hw.flagged.flag hf),
        List.flatMap_append, List.flatMap_singleton, List.append_assoc]
      exact fun _ => List.prefix_refl _
    · rw [if_neg hok, List.append_nil]
      exact fun hne => (hstream.done hne).trans (List.prefix_append _ _)

theorem Entry.send (hentry : Entry lay start conn v) {msg : Msg} {got : ConnectionEntry}
    {used : List Outcome} {out : List UInt8}
    (hw : Writes { conn with refCount := conn.refCount + 1 } (lay.msg msg) got used out)
    (hf : got.errFlag = false) :
    Entry lay start conn ((v.move [] out).tag ⟨[⟨some conn.fd, msg, .success⟩], []⟩) := by
  have hflag : conn.errFlag = false := hw.flagged.flag hf
  refine ⟨hentry.idle, ?_, ?_, ?_, ?_, fun _ => ?_, fun _ => ?_⟩
  · simpa using hentry.header
  · simpa using hentry.boundary
  · simpa using hentry.dst
  · simpa using hentry.matching
  · show v.writes ++ out = _ ++ (v.tags ++ _).msgs.flatMap lay.msg
    rw [Tagged.msgs_append, List.flatMap_append, ← List.append_assoc, ← hentry.full hflag, hw.full hf]
    exact congrArg (v.writes ++ ·) (List.flatMap_singleton ..).symm
  · show (v.tags ++ _).msgs = (v.tags ++ _).done
    rw [Tagged.msgs_append, Tagged.done_append, hentry.done hflag]
    rfl

theorem Entry.drop (hentry : Entry lay start conn v) (b : List UInt8) :
    (v.reads ++ b).drop (readHeader lay start conn.fd) =
      v.reads.drop (readHeader lay start conn.fd) ++ b :=
  List.drop_append_of_le_length hentry.header

section
variable {buf b : List UInt8} {r : ConnectionEntry × List UInt8} {used : List Outcome}
  (hentry : Entry lay start conn v) (hr : Reads conn buf r used b)
  (hbuf : buf.length = lay.sizeofMsg)
include hentry hr hbuf

theorem Entry.stream_receive (hstream : Stream lay start conn.fd v) (hsize : 0 < lay.sizeofMsg)
    (hf : r.1.errFlag = false) :
    Stream lay start conn.fd ((v.move b []).tag ⟨[], [⟨conn.fd, conn.dst, r.2⟩]⟩) := by
  obtain ⟨hb, hlen⟩ := hr.full hf
  have hone := whole_one hsize (hlen.trans hbuf)
  refine ⟨?_, ?_, fun _ => ?_, ?_, ?_⟩
  · show (v.tags.received ++ ([⟨conn.fd, conn.dst, r.2⟩] : List Delivery)).map Delivery.bytes =
      whole _ ((v.reads ++ b).drop _)
    rw [hentry.drop b, whole_boundary hsize hentry.boundary, hone,
      List.map_append, hstream.reads, hb]
    rfl
  · intro d hd
    show d.src = sourceAt lay start conn.fd (v.reads ++ b)
    rw [sourceAt_append hentry.header]
    rcases List.mem_append.1 hd with hd | hd
    · exact hstream.sources d hd
    · rw [List.mem_singleton.1 hd]
      exact hentry.dst
  · exact hentry.matching.append hentry.header b
  · simpa using hstream.writes
  · simpa using hstream.done

theorem Entry.receive (hf : r.1.errFlag = false) :
    Entry lay start conn ((v.move b []).tag ⟨[], [⟨conn.fd, conn.dst, r.2⟩]⟩) := by
  obtain ⟨hb, hlen⟩ := hr.full hf
  refine ⟨hentry.idle, ?_, ?_, ?_, ?_, fun hflag => ?_, fun hflag => ?_⟩
  · show _ ≤ (v.reads ++ b).length
    rw [List.length_append]
    exact Nat.le_trans hentry.header (Nat.le_add_right _ _)
  · show _ ∣ ((v.reads ++ b).drop _).length
    rw [hentry.drop b, List.length_append, hlen, hbuf]
    exact Nat.dvd_add hentry.boundary (Nat.dvd_refl _)
  · exact hentry.dst.trans (sourceAt_append hentry.header b).symm
  · exact hentry.matching.append hentry.header b
  · simpa using hentry.full hflag
  · simpa using hentry.done hflag

/-- A message that is cut off is none. -/
theorem Entry.stream_lose (hstream : Stream lay start conn.fd v) (hsize : 0 < lay.sizeofMsg)
    (hf : r.1.errFlag = true) :
    Stream lay start conn.fd (v.move b []) := by
  have hb : b.length < lay.sizeofMsg := by
    cases hc : conn.errFlag with
    | true =>
      rw [(hr.nothing hc).2.2]
      exact hsize
    | false => exact hbuf ▸ hr.cut hf hc
  refine ⟨?_, ?_, fun _ => ?_, ?_, ?_⟩
  · show v.tags.received.map Delivery.bytes = whole _ ((v.reads ++ b).drop _)
    rw [hentry.drop b, whole_boundary hsize hentry.boundary, whole_short hb,
      List.append_nil]
    exact hstream.reads
  · intro d hd
    exact (hstream.sources d hd).trans (sourceAt_append hentry.header b).symm
  · exact hentry.matching.append hentry.header b
  · simpa using hstream.writes
  · simpa using hstream.done

end

end

end FTBN.Io
