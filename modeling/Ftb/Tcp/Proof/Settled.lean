import Ftb.Tcp.Streams

/-!
# The invariant of the streams

`Stream` is what holds of the bytes and the messages of a descriptor at any time, and `Entry` what
holds in addition for an entry of the table: it stands between two messages, and without `err_flag`
everything that it was given is written. Inside a call that works on one descriptor (`Busy`) the
invariant is suspended for that one.
-/

open FTB FTBU Journal Pieces

namespace FTBN.Io

variable (lay : Layout) (start : Net)

/-- The bytes read before the first message: the system id, only from an accepted connection, and the
location id. -/
def readHeader (fd : Fd) : Nat :=
  (if start.accepts fd then sizeofSystemId else 0) + lay.sizeofLocationId

/-- The source of the messages, from the bytes read. -/
def sourceAt (fd : Fd) (bytes : List UInt8) : LocationId :=
  lay.toLocationId
    ((bytes.drop (if start.accepts fd then sizeofSystemId else 0)).take lay.sizeofLocationId)

/-- The bytes written before the first message. -/
def greeting (fd : Fd) : List UInt8 :=
  (if start.accepts fd then [] else lay.systemId start.systemId) ++ lay.locationId start.myLocationId

/-- The system id that was read is the own one. -/
def Matching (fd : Fd) (bytes : List UInt8) : Prop :=
  start.accepts fd = true → lay.toSystemId (bytes.take sizeofSystemId) = start.systemId

structure Stream (fd : Fd) (v : View) : Prop where
  reads : v.tags.received.map Delivery.bytes =
    whole lay.sizeofMsg (v.reads.drop (readHeader lay start fd))
  sources : ∀ d ∈ v.tags.received, d.src = sourceAt lay start fd v.reads
  matching : sizeofSystemId < v.reads.length → Matching lay start fd v.reads
  writes : v.writes <+: greeting lay start fd ++ v.tags.msgs.flatMap lay.msg
  done : v.tags.done ≠ [] → greeting lay start fd ++ v.tags.done.flatMap lay.msg <+: v.writes

structure Entry (entry : ConnectionEntry) (v : View) : Prop where
  idle : entry.refCount = 0
  header : readHeader lay start entry.fd ≤ v.reads.length
  boundary : lay.sizeofMsg ∣ (v.reads.drop (readHeader lay start entry.fd)).length
  dst : entry.dst = sourceAt lay start entry.fd v.reads
  matching : Matching lay start entry.fd v.reads
  full : entry.errFlag = false →
    v.writes = greeting lay start entry.fd ++ v.tags.msgs.flatMap lay.msg
  done : entry.errFlag = false → v.tags.msgs = v.tags.done

/-- What a run from `start` leaves as it is, and how it numbers the descriptors. -/
structure Since (s : Net) : Prop where
  systemId : s.systemId = start.systemId
  myLocationId : s.myLocationId = start.myLocationId
  opened : ∃ given, start.opened = given ++ s.opened ∧ s.nextFd = start.nextFd + given.length

/-- What does not depend on the connections. -/
structure Base (g : Tagged) (s : Net) (past : List FdOp) : Prop where
  since : Since start s
  fresh : ∀ fd, s.nextFd ≤ fd → view g past fd = .empty
  unsent : ∀ x ∈ g.sent, x.fd = none → x.ret ≠ .success

structure Entries (table : List ConnectionEntry) (g : Tagged) (s : Net) (past : List FdOp) : Prop where
  nodup : (table.map ConnectionEntry.fd).Nodup
  old : ∀ e ∈ table, e.fd < s.nextFd
  entry : ∀ e ∈ table, Entry lay start e (view g past e.fd)

/-- Between two calls. -/
structure Settled (g : Tagged) (s : Net) (past : List FdOp) : Prop where
  base : Base start g s past
  stream : ∀ fd, Stream lay start fd (view g past fd)
  entries : ∀ table, s.connectionTable = some table → Entries lay start table g s past

/-- The table is known. -/
structure Idle (table : List ConnectionEntry) (g : Tagged) (s : Net) (past : List FdOp) : Prop where
  settled : Settled lay start g s past
  table : s.connectionTable = some table

/-- A call works on `fd`; `rest` are the entries that it does not work on. -/
structure Busy (table rest : List ConnectionEntry) (fd : Fd) (V : View → Prop) (g : Tagged) (s : Net)
    (past : List FdOp) : Prop where
  base : Base start g s past
  stream : ∀ fd', fd' ≠ fd → Stream lay start fd' (view g past fd')
  table : s.connectionTable = some table
  entries : Entries lay start rest g s past
  apart : ∀ e ∈ rest, e.fd ≠ fd
  old : fd < s.nextFd
  here : V (view g past fd)

/-! ## Steps on a descriptor -/

section
variable {lay : Layout} {start : Net} {table rest : List ConnectionEntry} {fd : Fd} {V : View → Prop}
  {g : Tagged} {s s' : Net} {past ops : List FdOp} {used : List Outcome} {r w : List UInt8}

theorem Moves.nextFd (h : Moves fd s s' ops used r w) : s'.nextFd = s.nextFd := by
  rw [h.net]

theorem Moves.connectionTable (h : Moves fd s s' ops used r w) :
    s'.connectionTable = s.connectionTable := by
  rw [h.net]

theorem Moves.view (h : Moves fd s s' ops used r w) (g : Tagged) (past : List FdOp) :
    Io.view g (past ++ ops) fd = (Io.view g past fd).move r w := by
  rw [Io.view, readFrom_append, writtenTo_append, h.reads, h.writes]
  rfl

theorem Moves.view_of_ne (h : Moves fd s s' ops used r w) {fd' : Fd} (hne : fd' ≠ fd) :
    Io.view g (past ++ ops) fd' = Io.view g past fd' := by
  obtain ⟨hr, hw⟩ := h.others fd' hne
  rw [Io.view, readFrom_append, writtenTo_append, hr, hw, List.append_nil, List.append_nil]
  rfl

theorem Since.moves (hs : Since start s) (h : Moves fd s s' ops used r w) : Since start s' where
  systemId := by rw [h.net]; exact hs.systemId
  myLocationId := by rw [h.net]; exact hs.myLocationId
  opened := by rw [h.opened, h.nextFd]; exact hs.opened

theorem Base.moves (hb : Base start g s past) (hfd : fd < s.nextFd)
    (h : Moves fd s s' ops used r w) : Base start g s' (past ++ ops) where
  since := hb.since.moves h
  fresh fd' hle := by
    rw [h.nextFd] at hle
    rw [h.view_of_ne (Nat.ne_of_gt (Nat.lt_of_lt_of_le hfd hle))]
    exact hb.fresh fd' hle
  unsent := hb.unsent

theorem Entries.moves (he : Entries lay start rest g s past) (hapart : ∀ e ∈ rest, e.fd ≠ fd)
    (h : Moves fd s s' ops used r w) : Entries lay start rest g s' (past ++ ops) where
  nodup := he.nodup
  old e hm := by rw [h.nextFd]; exact he.old e hm
  entry e hm := by
    rw [h.view_of_ne (hapart e hm)]
    exact he.entry e hm

theorem Busy.moves (hb : Busy lay start table rest fd V g s past)
    (h : Moves fd s s' ops used r w) {V' : View → Prop} (hv : ∀ v, V v → V' (v.move r w)) :
    Busy lay start table rest fd V' g s' (past ++ ops) where
  base := hb.base.moves hb.old h
  stream fd' hne := by
    rw [h.view_of_ne hne]
    exact hb.stream fd' hne
  table := by rw [h.connectionTable]; exact hb.table
  entries := hb.entries.moves hb.apart h
  apart := hb.apart
  old := by rw [h.nextFd]; exact hb.old
  here := by
    rw [h.view]
    exact hv _ hb.here

theorem move_nil (v : View) : v.move [] [] = v := by
  rw [View.move, List.append_nil, List.append_nil]

/-- Steps that transfer nothing. -/
theorem Moves.view_still (h : Moves fd s s' ops used [] []) (fd' : Fd) :
    Io.view g (past ++ ops) fd' = Io.view g past fd' := by
  by_cases he : fd' = fd
  · rw [he, h.view, move_nil]
  · exact h.view_of_ne he

theorem Settled.still (hs : Settled lay start g s past) (h : Moves fd s s' ops used [] []) :
    Settled lay start g s' (past ++ ops) where
  base :=
    { since := hs.base.since.moves h
      fresh := fun fd' hle => by
        rw [h.view_still]
        exact hs.base.fresh fd' (by rwa [h.nextFd] at hle)
      unsent := hs.base.unsent }
  stream fd' := by
    rw [h.view_still]
    exact hs.stream fd'
  entries table ht := by
    rw [h.connectionTable] at ht
    have he := hs.entries table ht
    exact
      { nodup := he.nodup
        old := fun e hm => by rw [h.nextFd]; exact he.old e hm
        entry := fun e hm => by rw [h.view_still]; exact he.entry e hm }

theorem Idle.still (hs : Idle lay start table g s past) (h : Moves fd s s' ops used [] []) :
    Idle lay start table g s' (past ++ ops) :=
  ⟨hs.settled.still h, by rw [h.connectionTable]; exact hs.table⟩

/-! ## Beginning and end of the work on a descriptor -/

theorem Entries.sublist {table' : List ConnectionEntry} (he : Entries lay start table g s past)
    (h : table'.Sublist table) : Entries lay start table' g s past where
  nodup := he.nodup.sublist (h.map _)
  old e hm := he.old e (h.subset hm)
  entry e hm := he.entry e (h.subset hm)

theorem ne_of_mem_erase {conn e : ConnectionEntry} (hn : (table.map ConnectionEntry.fd).Nodup)
    (hc : conn ∈ table) (he : e ∈ table.erase conn) : e.fd ≠ conn.fd := by
  have hp := (List.perm_cons_erase hc).map ConnectionEntry.fd
  have hn' := hp.nodup_iff.1 hn
  rw [List.map_cons, List.nodup_cons] at hn'
  exact fun heq => hn'.1 (heq ▸ List.mem_map_of_mem he)

/-- An entry of the table is used. -/
theorem Idle.busy (hs : Idle lay start table g s past) {conn : ConnectionEntry}
    (hc : conn ∈ table) :
    Busy lay start table (table.erase conn) conn.fd
      (fun v => Stream lay start conn.fd v ∧ Entry lay start conn v) g s past :=
  have he := hs.settled.entries table hs.table
  { base := hs.settled.base
    stream := fun fd' _ => hs.settled.stream fd'
    table := hs.table
    entries := he.sublist List.erase_sublist
    apart := fun _ hm => ne_of_mem_erase he.nodup hc hm
    old := he.old conn hc
    here := ⟨hs.settled.stream conn.fd, he.entry conn hc⟩ }

/-- The messages of `g'` belong to `fd`; one that was not sent may belong to none. -/
structure Tagged.Only (fd : Fd) (g' : Tagged) : Prop where
  sent : ∀ x ∈ g'.sent, x.fd = some fd ∨ (x.fd = none ∧ x.ret ≠ .success)
  received : ∀ d ∈ g'.received, d.fd = fd

theorem Tagged.Only.on_of_ne {fd' : Fd} {g' : Tagged} (h : g'.Only fd) (hne : fd' ≠ fd) :
    g'.on fd' = .nil := by
  have hsent : (g'.sent.filter fun x => x.fd = some fd') = [] := by
    refine List.filter_eq_nil_iff.2 fun x hx => ?_
    rcases h.sent x hx with hf | ⟨hf, -⟩ <;> simp [hf, Ne.symm hne]
  have hreceived : (g'.received.filter fun d => d.fd = fd') = [] := by
    refine List.filter_eq_nil_iff.2 fun d hd => ?_
    simp [h.received d hd, Ne.symm hne]
  rw [Tagged.on, hsent, hreceived]
  rfl

theorem view_append (g' : Tagged) (past : List FdOp) (fd : Fd) :
    view (g ++ g') past fd = (view g past fd).tag (g'.on fd) := by
  rw [view, Tagged.on_append]
  rfl

theorem view_append_of_ne {g' : Tagged} (h : g'.Only fd) {fd' : Fd} (hne : fd' ≠ fd) :
    view (g ++ g') past fd' = view g past fd' := by
  rw [view_append, h.on_of_ne hne, View.tag, Tagged.append_nil]

/-- The work on `fd` is over: the messages of `g'` were sent or received. -/
theorem Busy.settle {g' : Tagged} (hb : Busy lay start table rest fd V g s past) (hg : g'.Only fd)
    (hstream : ∀ v, V v → Stream lay start fd (v.tag (g'.on fd)))
    (hnodup : (table.map ConnectionEntry.fd).Nodup)
    (htable : ∀ e ∈ table, e ∈ rest ∨
      (e.fd = fd ∧ ∀ v, V v → Entry lay start e (v.tag (g'.on fd)))) :
    Settled lay start (g ++ g') s past where
  base :=
    { since := hb.base.since
      fresh := fun fd' hle => by
        rw [view_append_of_ne hg (Nat.ne_of_gt (Nat.lt_of_lt_of_le hb.old hle))]
        exact hb.base.fresh fd' hle
      unsent := fun x hx hf => by
        rcases List.mem_append.1 hx with hx | hx
        · exact hb.base.unsent x hx hf
        · rcases hg.sent x hx with hsome | ⟨-, hret⟩
          · rw [hf] at hsome
            cases hsome
          · exact hret }
  stream fd' := by
    by_cases he : fd' = fd
    · rw [he, view_append]
      exact hstream _ hb.here
    · rw [view_append_of_ne hg he]
      exact hb.stream fd' he
  entries table' ht := by
    rw [hb.table] at ht
    cases ht
    refine ⟨hnodup, fun e hm => ?_, fun e hm => ?_⟩
    · rcases htable e hm with hr | ⟨hf, -⟩
      · exact hb.entries.old e hr
      · rw [hf]
        exact hb.old
    · rcases htable e hm with hr | ⟨hf, hentry⟩
      · rw [view_append_of_ne hg (hb.apart e hr)]
        exact hb.entries.entry e hr
      · rw [hf, view_append]
        exact hentry _ hb.here

/-! ## A new descriptor -/

/-- A step that gives a new descriptor, `x` being its outcome. -/
structure Gives (x : Outcome) (fd : Fd) (s s' : Net) (ops : List FdOp) : Prop where
  net : s' = { s with outcomes := s'.outcomes, nextFd := s.nextFd + 1 }
  outcomes : s.outcomes = x :: s'.outcomes
  obtains : x.obtains = true
  fd_eq : fd = s.nextFd
  ops_eq : ops = [.obtain fd]

theorem newFd_gives {x : Outcome} {mid : Net} {r : Option Fd} {t u : List FdOp}
    (hx : nextOutcome s = some (x, mid, t)) (hobtains : x.obtains = true)
    (h : (do
      let fd ← newFd
      pure (some fd) : NetProg (Option Fd)) mid = some (r, s', u)) :
    ∃ new, r = some new ∧ Gives x new s s' (t ++ u) := by
  obtain ⟨rfl, hout, hnet⟩ := nextOutcome_run hx
  cases h
  exact ⟨_, rfl, by rw [hnet], hout, hobtains, by rw [hnet], rfl⟩

theorem sysSocket_run {x : Option Fd} (h : sysSocket s = some (x, s', ops)) :
    (x = none ∧ Moves fd s s' ops [.socket false] [] []) ∨
      ∃ new, x = some new ∧ Gives (.socket true) new s s' ops := by
  obtain ⟨y, mid, t, u, hy, h, rfl⟩ := Prog.bind_eq_some.1 h
  cases y with
  | socket ok =>
    cases ok with
    | true => exact Or.inr (newFd_gives hy rfl h)
    | false =>
      cases h
      exact Or.inl ⟨rfl, (nextOutcome_moves fd hy rfl).trans (Moves.refl fd _)⟩
  | _ => cases h

theorem sysAccept_run {x : Option Fd} (h : sysAccept s = some (x, s', ops)) :
    (x = none ∧ Moves fd s s' ops [.accept false] [] []) ∨
      ∃ new, x = some new ∧ Gives (.accept true) new s s' ops := by
  obtain ⟨y, mid, t, u, hy, h, rfl⟩ := Prog.bind_eq_some.1 h
  cases y with
  | accept ok =>
    cases ok with
    | true => exact Or.inr (newFd_gives hy rfl h)
    | false =>
      cases h
      exact Or.inl ⟨rfl, (nextOutcome_moves fd hy rfl).trans (Moves.refl fd _)⟩
  | _ => cases h

/-- Nothing was read from a new descriptor, and its outcome says where it comes from. -/
theorem Idle.given {x : Outcome} (hs : Idle lay start table g s past) (h : Gives x fd s s' ops) :
    Busy lay start table table fd
      (fun v => v = .empty ∧ start.accepts fd = decide (x = .accept true)) g s' (past ++ ops) := by
  obtain ⟨given, hgiven, hnext⟩ := hs.settled.base.since.opened
  have hview (fd' : Fd) : view g (past ++ ops) fd' = view g past fd' := by
    rw [view, h.ops_eq, readFrom_append, writtenTo_append]
    exact congrArg₂ (fun r w => View.mk r w (g.on fd')) (List.append_nil _) (List.append_nil _)
  have hopened : s.opened = x :: s'.opened := by
    rw [Net.opened, h.outcomes, List.filter_cons_of_pos h.obtains]
    rfl
  have hnet : s'.nextFd = s.nextFd + 1 := by rw [h.net]
  have he := hs.settled.entries table hs.table
  refine ⟨⟨⟨?_, ?_, given ++ [x], ?_, ?_⟩, ?_, hs.settled.base.unsent⟩, ?_, ?_, ⟨he.nodup, ?_, ?_⟩, ?_,
    ?_, ?_, ?_⟩
  · rw [h.net]
    exact hs.settled.base.since.systemId
  · rw [h.net]
    exact hs.settled.base.since.myLocationId
  · rw [hgiven, hopened, List.append_assoc, List.singleton_append]
  · rw [hnet, hnext, List.length_append, List.length_singleton, Nat.add_assoc]
  · intro fd' hle
    rw [hnet] at hle
    rw [hview]
    exact hs.settled.base.fresh fd' (Nat.le_of_succ_le hle)
  · intro fd' _
    rw [hview]
    exact hs.settled.stream fd'
  · rw [h.net]
    exact hs.table
  · exact fun e hm => hnet ▸ Nat.lt_succ_of_lt (he.old e hm)
  · intro e hm
    rw [hview]
    exact he.entry e hm
  · intro e hm
    rw [h.fd_eq]
    exact Nat.ne_of_lt (he.old e hm)
  · rw [hnet, h.fd_eq]
    exact Nat.lt_succ_self _
  · rw [hview]
    exact hs.settled.base.fresh fd (Nat.le_of_eq h.fd_eq.symm)
  · have hidx : start.opened[fd - start.nextFd]? = some x := by
      rw [h.fd_eq, hnext, Nat.add_sub_cancel_left, hgiven, hopened,
        List.getElem?_append_right (Nat.le_refl _), Nat.sub_self, List.getElem?_cons_zero]
    have hle : start.nextFd ≤ fd := by
      rw [h.fd_eq, hnext]
      exact Nat.le_add_right _ _
    rw [Net.accepts, hidx]
    simp [hle]

end

end FTBN.Io
