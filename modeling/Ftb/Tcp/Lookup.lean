import Ftb.Tcp.Config

/-!
# What the lookup finds

The file is read in chunks: up to a newline, and `FTBNI_CONFIG_FILE_VAL - 1` characters at most
(`chunks`). The lookup stops at the first chunk that has the key, and its scan for `=` starts at the
key's first character.
-/

open Buffer

namespace FTBNI

/-! ## Chunks -/

variable {n m pos : Nat} {chunk content rest : List Char} {line tail : Line} {t key : CStr} {fp : File}

theorem getChars_append (n : Nat) (rest : List Char) :
    (getChars n rest).1 ++ (getChars n rest).2.rest = rest := by
  induction n generalizing rest with
  | zero => rfl
  | succ n ih =>
    cases rest with
    | nil => rfl
    | cons c rest =>
      rw [getChars]
      split
      · rfl
      · exact congrArg (c :: ·) (ih rest)

theorem getChars_eof (n : Nat) (rest : List Char) (h : (getChars n rest).2.eof = true) :
    (getChars n rest).2.rest = [] := by
  induction n generalizing rest with
  | zero => cases h
  | succ n ih =>
    cases rest with
    | nil => rfl
    | cons c rest =>
      rw [getChars] at h ⊢
      split at h
      · cases h
      · rename_i hc
        rw [if_neg hc]
        exact ih rest h

theorem getChars_cons (n : Nat) (c : Char) (rest : List Char) :
    ∃ chars, (getChars (n + 1) (c :: rest)).1 = c :: chars := by
  rw [getChars]
  split
  · exact ⟨[], rfl⟩
  · exact ⟨_, rfl⟩

/-- The chunks of `content`, `n` at most. -/
def chunksFrom : Nat → List Char → List (List Char)
  | 0, _ => []
  | n + 1, content =>
    match getChars (configFileVal - 1) content with
    | ([], _) => []
    | (chunk, fp) => chunk :: chunksFrom n fp.rest

/-- All of `content`, chunk by chunk (`flatten_chunks`). -/
def chunks (content : List Char) : List (List Char) := chunksFrom content.length content

theorem chunksFrom_nil (n : Nat) : chunksFrom n [] = [] := by
  cases n <;> rfl

/-- A turn that reads something. -/
structure Read (content chunk : List Char) (fp : File) : Prop where
  chars : getChars (configFileVal - 1) content = (chunk, fp)
  ne_nil : chunk ≠ []

theorem exists_read (h : content ≠ []) : ∃ chunk fp, Read content chunk fp := by
  obtain ⟨c, rest, rfl⟩ := List.exists_cons_of_ne_nil h
  obtain ⟨chars, hchars⟩ := getChars_cons (configFileVal - 2) c rest
  refine ⟨_, _, rfl, fun hnil => ?_⟩
  exact List.cons_ne_nil c chars (hchars.symm.trans hnil)

namespace Read

variable (h : Read content chunk fp)
include h

theorem append : content = chunk ++ fp.rest := by
  have happ := getChars_append (configFileVal - 1) content
  rw [h.chars] at happ
  exact happ.symm

theorem shorter : fp.rest.length < content.length := by
  have hpos := List.length_pos_iff.2 h.ne_nil
  rw [h.append, List.length_append]
  omega

theorem rest_of_eof (he : fp.eof = true) : fp.rest = [] := by
  have hrest := getChars_eof (configFileVal - 1) content
  rw [h.chars] at hrest
  exact hrest he

theorem chunksFrom (n : Nat) :
    FTBNI.chunksFrom (n + 1) content = chunk :: FTBNI.chunksFrom n fp.rest := by
  obtain ⟨c, chars, rfl⟩ := List.exists_cons_of_ne_nil h.ne_nil
  rw [FTBNI.chunksFrom, h.chars]

theorem fgets (line : Line) (b : Bool) : FTBNI.fgets line configFileVal ⟨content, b⟩ =
    (chunk.map some ++ some nul :: line.drop (chunk.length + 1), fp) := by
  obtain ⟨c, chars, rfl⟩ := List.exists_cons_of_ne_nil h.ne_nil
  rw [FTBNI.fgets, h.chars]

end Read

theorem flatten_chunksFrom (h : content.length ≤ n) : (chunksFrom n content).flatten = content := by
  induction n generalizing content with
  | zero => rw [List.length_eq_zero_iff.1 (Nat.le_zero.1 h)]; rfl
  | succ n ih =>
    by_cases hnil : content = []
    · rw [hnil, chunksFrom_nil]
      rfl
    · obtain ⟨chunk, fp, hread⟩ := exists_read hnil
      have hshort := hread.shorter
      rw [hread.chunksFrom, List.flatten_cons, ih (by omega), ← hread.append]

/-- Nothing of the file is lost between the chunks. -/
theorem flatten_chunks (content : List Char) : (chunks content).flatten = content :=
  flatten_chunksFrom (Nat.le_refl _)

/-! ## The line -/

theorem text_chunk (chunk : List Char) (tail : Line) :
    text (chunk.map some ++ some nul :: tail) = some (str nul chunk) := by
  induction chunk with
  | nil => rfl
  | cons c chunk ih =>
    rw [List.map_cons, List.cons_append, text]
    by_cases hc : c = nul
    · rw [if_pos hc, str, List.takeWhile_cons_of_neg (by simp [hc])]
    · rw [if_neg hc, ih, str, str, List.takeWhile_cons_of_pos (by simp [hc])]
      rfl

/-- The scan stops behind the first `=`, and has no value before a cell that has none. -/
theorem scan_some_iff {p : Nat} (hn : line.length ≤ n + pos) :
    scan line n pos = some p ↔ ∃ (name : CStr) (tail : Line),
      line.drop pos = name.map some ++ some '=' :: tail ∧ '=' ∉ name ∧ p = pos + name.length + 1 := by
  induction n generalizing pos with
  | zero =>
    have hend : line.drop pos = [] := List.drop_eq_nil_of_le (by omega)
    constructor
    · exact fun h => nomatch h
    · rintro ⟨name, tail, hdrop, -⟩
      rw [hend] at hdrop
      cases name <;> cases hdrop
  | succ n ih =>
    have hcell : (line)[pos]? = (line.drop pos).head? := List.head?_drop.symm
    have hnext : line.drop (pos + 1) = (line.drop pos).tail := (List.tail_drop ..).symm
    rw [scan, hcell]
    cases hdrop : line.drop pos with
    | nil =>
      constructor
      · exact fun h => nomatch h
      · rintro ⟨name, tail, hline, -⟩
        cases name <;> cases hline
    | cons cell rest =>
      rw [hdrop, List.tail_cons] at hnext
      cases cell with
      | none =>
        constructor
        · exact fun h => nomatch h
        · rintro ⟨name, tail, hline, -⟩
          cases name <;> cases hline
      | some c =>
        have hstep := @ih (pos + 1) (by omega)
        rw [hnext] at hstep
        show (if c ≠ '=' then scan line n (pos + 1) else some (pos + 1)) = some p ↔ _
        by_cases hc : c = '='
        · rw [if_neg (not_not.2 hc), hc]
          constructor
          · intro h
            cases h
            exact ⟨[], rest, rfl, List.not_mem_nil, rfl⟩
          · rintro ⟨name, tail, hline, hname, rfl⟩
            cases name with
            | nil => rfl
            | cons d name =>
              rw [List.map_cons, List.cons_append, List.cons.injEq, Option.some.injEq] at hline
              exact absurd (hline.1 ▸ List.mem_cons_self) hname
        · rw [if_pos hc, hstep]
          constructor
          · rintro ⟨name, tail, rfl, hname, rfl⟩
            refine ⟨c :: name, tail, rfl, ?_, ?_⟩
            · rw [List.mem_cons, not_or]
              exact ⟨Ne.symm hc, hname⟩
            · rw [List.length_cons]
              omega
          · rintro ⟨name, tail, hline, hname, rfl⟩
            cases name with
            | nil =>
              cases hline
              exact absurd rfl hc
            | cons d name =>
              cases hline
              refine ⟨name, tail, rfl, fun hm => hname (List.mem_cons_of_mem _ hm), ?_⟩
              rw [List.length_cons]
              omega

/-! ## The loop -/

/-- The buffer after a chunk was read. -/
def filled (chunk : List Char) (tail : Line) : Line := chunk.map some ++ some nul :: tail

/-- At the end of the file, `line` is left as it is. -/
theorem searchLoop_nil (ht : text line = some t) (hno : ¬key <:+: t) :
    searchLoop key (n + 2) line ⟨[], false⟩ = some none := by
  have hgets : fgets line configFileVal ⟨[], false⟩ = (line, ⟨[], true⟩) := rfl
  rw [searchLoop, if_neg (by decide), hgets]
  simp only [ht, strstr_eq_none.2 hno, Option.bind_eq_bind, Option.bind_some]
  rfl

theorem searchLoop_found (h : Read content chunk fp) (hpos : FirstAt key (str nul chunk) pos)
    (line : Line) : ∃ tail, searchLoop key (n + 1) line ⟨content, false⟩ =
      (scan (filled chunk tail) (filled chunk tail).length pos).map fun pos =>
        some (filled chunk tail, pos) := by
  refine ⟨line.drop (chunk.length + 1), ?_⟩
  have ht := text_chunk chunk (line.drop (chunk.length + 1))
  rw [searchLoop, if_neg Bool.false_ne_true, h.fgets]
  simp only [ht, strstr_iff.2 hpos, Option.bind_eq_bind, Option.bind_some]
  rw [filled]
  cases scan (chunk.map some ++ some nul :: line.drop (chunk.length + 1))
    (chunk.map some ++ some nul :: line.drop (chunk.length + 1)).length pos <;> rfl

theorem searchLoop_next (h : Read content chunk fp) (hno : ¬key <:+: str nul chunk) (line : Line) :
    ∃ tail, searchLoop key (n + 1) line ⟨content, false⟩ =
      searchLoop key n (filled chunk tail) fp := by
  refine ⟨line.drop (chunk.length + 1), ?_⟩
  have ht := text_chunk chunk (line.drop (chunk.length + 1))
  rw [searchLoop, if_neg Bool.false_ne_true, h.fgets]
  simp only [ht, strstr_eq_none.2 hno, Option.bind_eq_bind, Option.bind_some]
  rfl

/-- What stands in `line` when there is nothing left to read. -/
def Stale (key : CStr) (content : List Char) (line : Line) : Prop :=
  content = [] → ∃ t, text line = some t ∧ ¬key <:+: t

theorem stale_filled (hno : ¬key <:+: str nul chunk) (content : List Char) (tail : Line) :
    Stale key content (filled chunk tail) :=
  fun _ => ⟨_, text_chunk chunk tail, hno⟩

/-- After a chunk without the key, the loop goes on with the rest or ends with the file. -/
theorem searchLoop_rest (key : CStr) (h : Read content chunk fp) (hn : content.length + 2 ≤ n + 1) :
    fp.rest.length + 2 ≤ n ∧ (fp.eof = true → ∀ line, searchLoop key n line fp = some none) := by
  have hshort := h.shorter
  refine ⟨by omega, fun he line => ?_⟩
  obtain ⟨n, rfl⟩ : ∃ k, n = k + 1 := ⟨n - 1, by omega⟩
  rw [searchLoop, if_pos he]

theorem searchLoop_absent (hn : content.length + 2 ≤ n) (hm : content.length ≤ m)
    (hline : Stale key content line) (hno : ∀ chunk ∈ chunksFrom m content, ¬key <:+: str nul chunk) :
    searchLoop key n line ⟨content, false⟩ = some none := by
  induction n generalizing content m line with
  | zero => omega
  | succ n ih =>
    by_cases hnil : content = []
    · subst hnil
      obtain ⟨t, ht, habs⟩ := hline rfl
      obtain ⟨n, rfl⟩ : ∃ k, n = k + 1 := ⟨n - 1, by rw [List.length_nil] at hn; omega⟩
      exact searchLoop_nil ht habs
    · obtain ⟨chunk, fp, hread⟩ := exists_read hnil
      have hshort := hread.shorter
      obtain ⟨m, rfl⟩ : ∃ k, m = k + 1 := ⟨m - 1, by omega⟩
      have hm' : fp.rest.length ≤ m := by omega
      rw [hread.chunksFrom, List.forall_mem_cons] at hno
      obtain ⟨tail, hnext⟩ := searchLoop_next (n := n) hread hno.1 line
      obtain ⟨hn', heof⟩ := searchLoop_rest key hread hn
      rw [hnext]
      obtain ⟨rest, eof⟩ := fp
      cases eof with
      | true => exact heof rfl _
      | false => exact ih hn' hm' (stale_filled hno.1 _ _) hno.2

theorem searchLoop_present {earlier later : List (List Char)} (hn : content.length + 2 ≤ n)
    (hm : content.length ≤ m) (hsplit : chunksFrom m content = earlier ++ chunk :: later)
    (hno : ∀ e ∈ earlier, ¬key <:+: str nul e) (hpos : FirstAt key (str nul chunk) pos) :
    ∃ tail, searchLoop key n line ⟨content, false⟩ =
      (scan (filled chunk tail) (filled chunk tail).length pos).map fun pos =>
        some (filled chunk tail, pos) := by
  induction n generalizing content m line earlier with
  | zero => omega
  | succ n ih =>
    by_cases hnil : content = []
    · rw [hnil, chunksFrom_nil] at hsplit
      cases earlier <;> cases hsplit
    · obtain ⟨first, fp, hread⟩ := exists_read hnil
      have hshort := hread.shorter
      obtain ⟨m, rfl⟩ : ∃ k, m = k + 1 := ⟨m - 1, by omega⟩
      have hm' : fp.rest.length ≤ m := by omega
      rw [hread.chunksFrom] at hsplit
      cases earlier with
      | nil =>
        rw [List.nil_append, List.cons.injEq] at hsplit
        rw [hsplit.1] at hread
        exact searchLoop_found hread hpos line
      | cons e earlier =>
        rw [List.cons_append, List.cons.injEq] at hsplit
        rw [hsplit.1] at hread
        rw [List.forall_mem_cons] at hno
        obtain ⟨tail, hnext⟩ := searchLoop_next (n := n) hread hno.1 line
        obtain ⟨hn', -⟩ := searchLoop_rest key hread hn
        rw [hnext]
        obtain ⟨rest, eof⟩ := fp
        cases eof with
        | true =>
          have hend := hread.rest_of_eof rfl
          rw [hend, chunksFrom_nil] at hsplit
          cases earlier <;> cases hsplit.2
        | false => exact ih hn' hm' hsplit.2 hno.2

/-! ## The answer -/

/-- The key's first occurrence in the file: at `start` of a chunk, with none in the chunks before. -/
def FirstIn (key : CStr) (content chunk : List Char) (start : Nat) : Prop :=
  ∃ earlier later, chunks content = earlier ++ chunk :: later ∧
    (∀ e ∈ earlier, ¬key <:+: str nul e) ∧ FirstAt key (str nul chunk) start

/-- `line` is the chunk with the key's first occurrence, `value` the text behind the first `=` that
follows the key there, and the scan has stopped at its beginning. -/
def Finds (key : CStr) (content : List Char) (line : Line) (pos : Nat) (value : CStr) : Prop :=
  ∃ chunk start name, FirstIn key content chunk start ∧ text line = some (str nul chunk) ∧
    str nul chunk = (str nul chunk).take start ++ key ++ name ++ '=' :: value ∧ '=' ∉ name ∧
    pos = start + key.length + name.length + 1 ∧ pos ≤ (str nul chunk).length

/-- Either the key is reported as not found, or its value is returned. -/
def Answers (key : CStr) (content : List Char) : Prop :=
  ∀ outputVal retval,
    (search key content = some none ∧
      getDataFromConfigFile key (some content) outputVal retval = some (outputVal, -1)) ∨
    ∃ line pos value, search key content = some (some (line, pos)) ∧
      Finds key content line pos value ∧
      getDataFromConfigFile key (some content) outputVal retval = some (value, retval)

/-- The file has a line, and if one has the key, then the first that has it has an `=` behind it, and
there is none in the key. -/
def Assigned (key : CStr) (content : List Char) : Prop :=
  content ≠ [] ∧ ∀ chunk start, FirstIn key content chunk start →
    '=' ∉ key ∧ '=' ∈ (str nul chunk).drop (start + key.length)

theorem search_nil (key : CStr) : search key [] = none := rfl

theorem search_present {start : Nat} (h : FirstIn key content chunk start) :
    ∃ tail, search key content =
      (scan (filled chunk tail) (filled chunk tail).length start).map fun pos =>
        some (filled chunk tail, pos) := by
  obtain ⟨earlier, later, hsplit, hno, hpos⟩ := h
  exact searchLoop_present (Nat.le_refl _) (Nat.le_refl _) hsplit hno hpos

/-- No line has the key, or there is a first that has it. -/
theorem absent_or_first (key : CStr) (content : List Char) :
    (∀ chunk ∈ chunks content, ¬key <:+: str nul chunk) ∨
      ∃ chunk start, FirstIn key content chunk start := by
  classical
  cases hfind : (chunks content).find? fun chunk => decide (key <:+: str nul chunk) with
  | none =>
    refine Or.inl fun chunk hc => ?_
    simpa using List.find?_eq_none.1 hfind chunk hc
  | some chunk =>
    obtain ⟨hocc, earlier, later, hsplit, hno⟩ := List.find?_eq_some_iff_append.1 hfind
    obtain ⟨start, hstart⟩ := exists_firstAt.2 (of_decide_eq_true hocc)
    refine Or.inr ⟨chunk, start, earlier, later, hsplit, fun e he => ?_, hstart⟩
    simpa using hno e he

theorem filled_str (chunk : List Char) (tail : Line) :
    ∃ tail', filled chunk tail = (str nul chunk).map some ++ some nul :: tail' := by
  unfold filled
  obtain ⟨r, heq | heq⟩ := @str_split Char _ nul chunk
  · exact ⟨tail, by rw [← heq]⟩
  · refine ⟨r.map some ++ some nul :: tail, ?_⟩
    conv_lhs => rw [heq]
    rw [List.map_append, List.append_assoc, List.map_cons, List.cons_append]

/-- From the key on, the line reads the key and what follows it. -/
theorem filled_drop {start : Nat} (h : FirstAt key (str nul chunk) start) (tail : Line) :
    ∃ tail', (filled chunk tail).drop start =
      (key ++ (str nul chunk).drop (start + key.length)).map some ++ some nul :: tail' := by
  obtain ⟨tail', hfilled⟩ := filled_str chunk tail
  have hle := h.le
  refine ⟨tail', ?_⟩
  rw [hfilled, List.drop_append_of_le_length (by rw [List.length_map]; omega), ← List.map_drop, h.drop]

theorem scan_filled {start p : Nat} (tail : Line) :
    scan (filled chunk tail) (filled chunk tail).length start = some p ↔
      ∃ (name : CStr) (tail' : Line), (filled chunk tail).drop start =
        name.map some ++ some '=' :: tail' ∧ '=' ∉ name ∧ p = start + name.length + 1 :=
  scan_some_iff (Nat.le_add_right _ _)

/-- The value of a key that is assigned. -/
theorem finds_of_assigned {start : Nat} (h : FirstIn key content chunk start) (hkey : '=' ∉ key)
    (heq : '=' ∈ (str nul chunk).drop (start + key.length)) (tail : Line) :
    ∃ pos value, scan (filled chunk tail) (filled chunk tail).length start = some pos ∧
      text ((filled chunk tail).drop pos) = some value ∧
      Finds key content (filled chunk tail) pos value := by
  obtain ⟨name, value, hsplit, hname⟩ := List.eq_append_cons_of_mem heq
  obtain ⟨-, -, -, -, hat⟩ := id h
  obtain ⟨tail', hdrop⟩ := filled_drop hat tail
  have hline : (filled chunk tail).drop start =
      (key ++ name).map some ++ some '=' :: filled value tail' := by
    rw [hdrop, hsplit, filled]
    simp only [List.map_append, List.map_cons, List.append_assoc, List.cons_append]
  have hbehind : (filled chunk tail).drop (start + (key ++ name).length + 1) = filled value tail' := by
    rw [Nat.add_assoc, ← List.drop_drop, hline, ← List.drop_drop,
      List.drop_left' (List.length_map ..)]
    rfl
  have hvalue : nul ∉ value := fun hm => by
    have hmem : nul ∈ (str nul chunk).drop (start + key.length) :=
      hsplit ▸ List.mem_append_right _ (List.mem_cons_of_mem _ hm)
    exact not_mem_str chunk (List.mem_of_mem_drop hmem)
  have hlen := congrArg List.length hsplit
  rw [List.length_drop, List.length_append, List.length_cons] at hlen
  have hle := hat.le
  refine ⟨start + (key ++ name).length + 1, value, ?_, ?_, chunk, start, name, h, ?_, ?_, hname, ?_, ?_⟩
  · refine (scan_filled tail).2 ⟨key ++ name, _, hline, ?_, rfl⟩
    rw [List.mem_append, not_or]
    exact ⟨hkey, hname⟩
  · rw [hbehind]
    exact (text_chunk value tail').trans (congrArg some (str_self hvalue))
  · exact text_chunk chunk tail
  · rw [List.append_assoc, ← hsplit]
    exact hat.split
  · rw [List.length_append]
    omega
  · rw [List.length_append]
    omega

/-- The scan of what is found has not stopped in the key. -/
theorem assigned_of_finds {start pos : Nat} {value : CStr} (h : FirstIn key content chunk start)
    (hscan : scan (filled chunk tail) (filled chunk tail).length start = some pos)
    (hfinds : Finds key content (filled chunk tail) pos value) :
    '=' ∉ key ∧ '=' ∈ (str nul chunk).drop (start + key.length) := by
  obtain ⟨-, -, -, -, hat⟩ := h
  obtain ⟨chunk', start', name, ⟨-, -, -, -, hat'⟩, htext, hsplit, hname, hpos, -⟩ := hfinds
  have hstr : str nul chunk' = str nul chunk :=
    Option.some.inj (htext.symm.trans (text_chunk chunk tail))
  rw [hstr] at hat' hsplit
  rw [hat'.unique hat] at hsplit hpos
  have hrest : (str nul chunk).drop (start + key.length) = name ++ '=' :: value := by
    have hboth := hat.split.symm.trans hsplit
    rw [List.append_assoc _ name] at hboth
    exact List.append_cancel_left hboth
  obtain ⟨scanned, tail₁, hscanned, hno, hend⟩ := (scan_filled tail).1 hscan
  obtain ⟨tail₂, hdrop⟩ := filled_drop hat tail
  have hlen : (scanned.map some : Line).length = ((key ++ name).map some : Line).length := by
    rw [List.length_map, List.length_map, List.length_append]
    omega
  have hsame : scanned.map some ++ some '=' :: tail₁ =
      (key ++ name).map some ++ some '=' :: (value.map some ++ some nul :: tail₂) := by
    rw [← hscanned, hdrop, hrest]
    simp only [List.map_append, List.map_cons, List.append_assoc, List.cons_append]
  have hkeyname : scanned = key ++ name :=
    List.map_injective_iff.2 (fun _ _ h => Option.some.inj h) (List.append_inj_left hsame hlen)
  refine ⟨fun hm => hno ?_, ?_⟩
  · rw [hkeyname]
    exact List.mem_append_left _ hm
  · rw [hrest]
    exact List.mem_append_right _ List.mem_cons_self

/-- **The lookup** answers as it is meant to for just the files in which the key is assigned. -/
theorem answers_iff_assigned (key : CStr) (content : List Char) :
    Answers key content ↔ Assigned key content := by
  constructor
  · intro h
    have hanswer := h [] 0
    refine ⟨fun hnil => ?_, fun chunk start hfirst => ?_⟩
    · rw [hnil, search_nil] at hanswer
      rcases hanswer with ⟨hnone, -⟩ | ⟨line, pos, value, hsome, -⟩
      · cases hnone
      · cases hsome
    · obtain ⟨tail, hsearch⟩ := search_present hfirst
      rcases hanswer with ⟨hnone, -⟩ | ⟨line, pos, value, hsome, hfinds, -⟩
      · rw [hsearch, Option.map_eq_some_iff] at hnone
        obtain ⟨p, -, hp⟩ := hnone
        cases hp
      · rw [hsearch, Option.map_eq_some_iff] at hsome
        obtain ⟨p, hscan, hp⟩ := hsome
        cases hp
        exact assigned_of_finds hfirst hscan hfinds
  · rintro ⟨hne, hassigned⟩ outputVal retval
    rcases absent_or_first key content with hno | ⟨chunk, start, hfirst⟩
    · have hsearch : search key content = some none :=
        searchLoop_absent (Nat.le_refl _) (Nat.le_refl _) (fun hnil => absurd hnil hne) hno
      refine Or.inl ⟨hsearch, ?_⟩
      rw [getDataFromConfigFile, hsearch]
      rfl
    · obtain ⟨hkey, heq⟩ := hassigned chunk start hfirst
      obtain ⟨tail, hsearch⟩ := search_present hfirst
      obtain ⟨pos, value, hscan, htext, hfinds⟩ := finds_of_assigned hfirst hkey heq tail
      rw [hscan, Option.map_some] at hsearch
      refine Or.inr ⟨_, pos, value, hsearch, hfinds, ?_⟩
      rw [getDataFromConfigFile, hsearch]
      simp only [Option.bind_eq_bind, Option.bind_some, htext]
      rfl

/-- A line that has the key without a value: the scan runs over its end into what is left of the line
before, and the text there is returned. -/
theorem mention_overruns :
    getDataFromConfigFile "FTB_AGENT_PORT".toList
        (some "#agents listen at=6000\nFTB_AGENT_PORT\n".toList) [] 0 =
      some ("6000\n".toList, 0) ∧
    ¬Answers "FTB_AGENT_PORT".toList "#agents listen at=6000\nFTB_AGENT_PORT\n".toList := by
  have hsearch : (search "FTB_AGENT_PORT".toList
      "#agents listen at=6000\nFTB_AGENT_PORT\n".toList).map (Option.map fun r => text r.1) =
      some (some (some "FTB_AGENT_PORT\n".toList)) := by decide +kernel
  refine ⟨by decide +kernel, fun h => ?_⟩
  rcases h [] 0 with ⟨hnone, -⟩ | ⟨line, pos, value, hsome, hfinds, -⟩
  · rw [hnone] at hsearch
    cases hsearch
  · obtain ⟨chunk, start, name, -, htext, hsplit, -⟩ := hfinds
    rw [hsome, Option.map_some, Option.map_some, htext, Option.some.injEq, Option.some.injEq,
      Option.some.injEq] at hsearch
    have hmem : '=' ∈ str nul chunk := by
      rw [hsplit]
      exact List.mem_append_right _ List.mem_cons_self
    rw [hsearch] at hmem
    exact absurd hmem (by decide)

end FTBNI
