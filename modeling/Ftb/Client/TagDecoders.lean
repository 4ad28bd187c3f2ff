import Ftb.Client.Tags

/-!
# The decoder of the Blue Gene wrapper (`ftb_zoid_wrapper.c`)

`FTB_Read_dynamic_tag` is a copy of `FTBC_Read_dynamic_tag` without the step over the data of a record,
so it takes each two bytes behind the count for a tag and its length. The two decoders agree where what
it finds so is as good as the record (`SameEntry`), and nowhere else: `decoders_agree`.
-/

open FTB FTBU

namespace FTB

open FTBC

/-- `FTB_Read_dynamic_tag`. -/
def readDynamicTag (dynamicData : List UInt8) (tag dataLen : UInt8) :
    Option (FTBCI.TagRet × UInt8 × Option (List UInt8)) := do
  let tagCount ← dynamicData[0]?
  -- the data of a record are not skipped
  let found ← Records.walk (fun _ => 0) tag tagCount.toNat 1 dynamicData
  copyTag dynamicData dataLen found

end FTB

namespace FTBCI

open FTBC

/-! ## The wrapper -/

/-- The two bytes at place `i` behind the count begin with the tag, and no earlier ones do. -/
def FirstPair (string : List UInt8) (tag : UInt8) (i : Nat) : Prop :=
  string[1 + 2 * i]? = some tag ∧ ∀ j < i, string[1 + 2 * j]? ≠ some tag

theorem walk_pairs_none {tag : UInt8} {string : List UInt8} : ∀ {n k : Nat},
    1 + 2 * (k + n) ≤ string.length → (∀ j < n, string[1 + 2 * (k + j)]? ≠ some tag) →
    Records.walk (fun _ => 0) tag n (1 + 2 * k) string = some none := by
  intro n
  induction n with
  | zero => exact fun {k} _ _ => rfl
  | succ n ih =>
    intro k hle hno
    have h0 : 1 + 2 * k < string.length := by omega
    have h1 : 1 + 2 * k + 1 < string.length := by omega
    have hne : ¬tag = string[1 + 2 * k] := by
      intro he
      refine hno 0 (Nat.succ_pos n) ?_
      rw [Nat.add_zero, List.getElem?_eq_getElem h0, he]
    have hrest := @ih (k + 1) (by omega) fun j hj => by
      have hj' := hno (j + 1) (by omega)
      rwa [show k + (j + 1) = k + 1 + j by omega] at hj'
    rw [Records.walk, List.getElem?_eq_getElem h0, List.getElem?_eq_getElem h1]
    show (if tag = _ then _ else _) = _
    rw [if_neg hne]
    exact hrest

theorem walk_pairs_some {tag len : UInt8} {string : List UInt8} : ∀ {i n k : Nat},
    1 + 2 * (k + n) ≤ string.length → i < n → (∀ j < i, string[1 + 2 * (k + j)]? ≠ some tag) →
    string[1 + 2 * (k + i)]? = some tag → string[2 + 2 * (k + i)]? = some len →
    Records.walk (fun _ => 0) tag n (1 + 2 * k) string = some (some (len, 3 + 2 * (k + i))) := by
  intro i
  induction i with
  | zero =>
    intro n k hle hn _ htag hlen
    obtain ⟨n, rfl⟩ := Nat.exists_eq_add_of_lt hn
    have hlen' : string[1 + 2 * k + 1]? = some len := by
      rw [show 1 + 2 * k + 1 = 2 + 2 * (k + 0) by omega]
      exact hlen
    rw [Nat.zero_add, Records.walk, show string[1 + 2 * k]? = some tag from htag, hlen']
    show (if tag = tag then _ else _) = _
    rw [if_pos rfl, show 1 + 2 * k + 2 = 3 + 2 * (k + 0) by omega]
  | succ i ih =>
    intro n k hle hn hno htag hlen
    obtain ⟨n, rfl⟩ : ∃ m, n = m + 1 := ⟨n - 1, by omega⟩
    have h0 : 1 + 2 * k < string.length := by omega
    have h1 : 1 + 2 * k + 1 < string.length := by omega
    have hne : ¬tag = string[1 + 2 * k] := by
      intro he
      refine hno 0 (Nat.succ_pos i) ?_
      rw [Nat.add_zero, List.getElem?_eq_getElem h0, he]
    have hshift : k + (i + 1) = k + 1 + i := by omega
    rw [hshift] at htag hlen
    have hrest := @ih n (k + 1) (by omega) (by omega) (fun j hj => by
      have hj' := hno (j + 1) (by omega)
      rwa [show k + (j + 1) = k + 1 + j by omega] at hj') htag hlen
    rw [Records.walk, List.getElem?_eq_getElem h0, List.getElem?_eq_getElem h1]
    show (if tag = _ then _ else _) = _
    rw [if_neg hne, hshift]
    exact hrest

/-! ## Agreement -/

/-- What a reader with room for `dataLen` bytes gets from the two is the same. -/
def SameData (string : List UInt8) (dataLen : UInt8) (entry : TagEntry) (len : UInt8)
    (offset : Nat) : Prop :=
  dataLen < entry.len ∧ dataLen < len ∨
    ¬dataLen < entry.len ∧ len = entry.len ∧
      Records.load offset len.toNat string = some entry.data

/-- Neither an entry nor one of the first pairs has the tag, or both do, and the first pair that has it
is as good as the entry. -/
def SameEntry (t : TagTable) (tag dataLen : UInt8) : Prop :=
  (t.tagMap.find? tag = none ∧ ∀ i < t.tagCount.toNat, t.tagString[1 + 2 * i]? ≠ some tag) ∨
    ∃ entry, t.tagMap.find? tag = some entry ∧ ∃ i < t.tagCount.toNat, FirstPair t.tagString tag i ∧
      ∃ len, t.tagString[2 + 2 * i]? = some len ∧
        SameData t.tagString dataLen entry len (3 + 2 * i)

namespace Tagged

variable {log : List (TagCall × TagRet)} {t : TagTable} {tag : UInt8}

/-- The pairs are in the string. -/
theorem pairs (h : Tagged log t) : 1 + 2 * t.tagCount.toNat ≤ t.tagString.length := by
  have htwo := Records.two_mul_length_le t.records
  have hfits := h.fits
  have hlen : t.records.length = t.tagMap.nodes.length := List.length_map _
  rw [h.count, h.length]
  omega

/-- What the wrapper finds. -/
theorem pair_cases (h : Tagged log t) (tag : UInt8) :
    ((∀ i < t.tagCount.toNat, t.tagString[1 + 2 * i]? ≠ some tag) ∧
        Records.walk (fun _ => 0) tag t.tagCount.toNat 1 t.tagString = some none) ∨
      ∃ i < t.tagCount.toNat, FirstPair t.tagString tag i ∧ ∃ len,
        t.tagString[2 + 2 * i]? = some len ∧
        Records.walk (fun _ => 0) tag t.tagCount.toNat 1 t.tagString =
          some (some (len, 3 + 2 * i)) := by
  have hpairs := h.pairs
  by_cases hex : ∃ i, i < t.tagCount.toNat ∧ t.tagString[1 + 2 * i]? = some tag
  · classical
    obtain ⟨hi, htag⟩ := Nat.find_spec hex
    have hbefore : ∀ j < Nat.find hex, t.tagString[1 + 2 * j]? ≠ some tag := fun j hj he =>
      Nat.find_min hex hj ⟨Nat.lt_trans hj hi, he⟩
    have hlen : 2 + 2 * Nat.find hex < t.tagString.length := by omega
    refine .inr ⟨Nat.find hex, hi, ⟨htag, hbefore⟩, _, List.getElem?_eq_getElem hlen, ?_⟩
    have hwalk := @walk_pairs_some tag t.tagString[2 + 2 * Nat.find hex] t.tagString (Nat.find hex)
      t.tagCount.toNat 0 (by omega) hi (by simpa using hbefore) (by simpa using htag)
      (by simp [List.getElem?_eq_getElem hlen])
    simpa using hwalk
  · have hno : ∀ i < t.tagCount.toNat, t.tagString[1 + 2 * i]? ≠ some tag :=
      fun i hi he => hex ⟨i, hi, he⟩
    refine .inl ⟨hno, ?_⟩
    have hwalk := @walk_pairs_none tag t.tagString t.tagCount.toNat 0 (by omega) (by simpa using hno)
    simpa using hwalk

end Tagged

theorem FirstPair.unique {string : List UInt8} {tag : UInt8} {i j : Nat} (hi : FirstPair string tag i)
    (hj : FirstPair string tag j) : i = j := by
  rcases Nat.lt_trichotomy i j with hlt | heq | hlt
  · exact absurd hi.1 (hj.2 i hlt)
  · exact heq
  · exact absurd hj.1 (hi.2 j hlt)

/-- A record that is found is not reported as missing. -/
theorem copyTag_found {string : List UInt8} {dataLen len : UInt8} {offset : Nat} :
    copyTag string dataLen (some (len, offset)) ≠ some (.errTagNotFound, dataLen, none) := by
  intro h
  simp only [copyTag] at h
  split at h
  · cases h
  · obtain ⟨data, -, hdata⟩ := Option.map_eq_some_iff.1 h
    cases hdata

theorem copyTag_eq_iff {string : List UInt8} {dataLen len : UInt8} {offset offset' : Nat}
    {entry : TagEntry} (hload : Records.load offset' entry.len.toNat string = some entry.data) :
    copyTag string dataLen (some (len, offset)) = copyTag string dataLen (some (entry.len, offset')) ↔
      SameData string dataLen entry len offset := by
  simp only [copyTag, hload, Option.map_some]
  by_cases hentry : dataLen < entry.len
  · rw [if_pos hentry]
    by_cases hlen : dataLen < len
    · rw [if_pos hlen]
      exact iff_of_true rfl (.inl ⟨hentry, hlen⟩)
    · rw [if_neg hlen]
      refine iff_of_false (fun h => ?_) fun h => h.elim (fun h => hlen h.2) fun h => h.1 hentry
      obtain ⟨data, -, hdata⟩ := Option.map_eq_some_iff.1 h
      cases hdata
  · rw [if_neg hentry]
    by_cases hlen : dataLen < len
    · rw [if_pos hlen]
      refine iff_of_false (fun h => by cases h) fun h => h.elim (fun h => hentry h.1) fun h => ?_
      exact hentry (h.2.1 ▸ hlen)
    · rw [if_neg hlen]
      constructor
      · intro h
        obtain ⟨data, hdata, heq⟩ := Option.map_eq_some_iff.1 h
        cases heq
        exact .inr ⟨hentry, rfl, hdata⟩
      · intro h
        obtain ⟨-, rfl, hdata⟩ := h.resolve_left fun h => hentry h.1
        rw [hdata]
        rfl

/-- **The two decoders.** On a string that calls of the clients made, they return the same code, and the
same data and length, if and only if the first pair with the tag is as good as its entry. -/
theorem decoders_agree {calls : List TagCall} {log : List (TagCall × TagRet)} {t : TagTable}
    (h : TagCall.runAll calls ([], .initial) = some (log, t)) (tag dataLen : UInt8) :
    FTB.readDynamicTag t.tagString tag dataLen = FTBC.readDynamicTag t.tagString tag dataLen ↔
      SameEntry t tag dataLen := by
  obtain ⟨log', t', hrun, htagged, -⟩ := Tagged.initial.calls calls
  cases h.symm.trans hrun
  simp only [FTB.readDynamicTag, FTBC.readDynamicTag, Option.bind_eq_bind, htagged.head,
    Option.bind_some]
  cases hfind : t.tagMap.find? tag with
  | none =>
    rw [htagged.walk_none hfind, Option.bind_some]
    rcases htagged.pair_cases tag with ⟨hno, hwalk⟩ | ⟨i, hi, hfirst, len, -, hwalk⟩
    · rw [hwalk, Option.bind_some]
      exact iff_of_true rfl (.inl ⟨hfind, hno⟩)
    · rw [hwalk, Option.bind_some]
      refine iff_of_false copyTag_found fun hsame => ?_
      rcases hsame with ⟨-, hno⟩ | ⟨entry, hentry, -⟩
      · exact hno i hi hfirst.1
      · cases hfind.symm.trans hentry
  | some entry =>
    obtain ⟨offset, hwalk', hload⟩ := htagged.walk_some hfind
    rw [entry.filled] at hload
    rw [hwalk', Option.bind_some]
    rcases htagged.pair_cases tag with ⟨hno, hwalk⟩ | ⟨i, hi, hfirst, len, hlen, hwalk⟩
    · rw [hwalk, Option.bind_some]
      refine iff_of_false (fun he => copyTag_found he.symm) fun hsame => ?_
      rcases hsame with ⟨hnone, -⟩ | ⟨-, -, i, hi, hfirst, -⟩
      · cases hfind.symm.trans hnone
      · exact hno i hi hfirst.1
    · rw [hwalk, Option.bind_some, copyTag_eq_iff hload]
      constructor
      · exact fun hdata => .inr ⟨entry, hfind, i, hi, hfirst, len, hlen, hdata⟩
      · intro hsame
        rcases hsame with ⟨hnone, -⟩ | ⟨entry', hentry, j, -, hfirst', len', hlen', hdata⟩
        · cases hfind.symm.trans hnone
        · cases hfind.symm.trans hentry
          obtain rfl := hfirst.unique hfirst'
          cases hlen.symm.trans hlen'
          exact hdata

section

/-- Two tags of one byte each. -/
private def twoTags : List TagCall :=
  [.add default 1 (fun _ => 7) 1, .add default 2 (fun _ => 9) 1]

/-- The second tag. -/
theorem decoders_disagree : ∃ log t, TagCall.runAll twoTags ([], .initial) = some (log, t) ∧
    FTBC.readDynamicTag t.tagString 2 8 = some (.success, 1, some [9]) ∧
    FTB.readDynamicTag t.tagString 2 8 = some (.errTagNotFound, 8, none) := by
  have hreads : (TagCall.runAll twoTags ([], .initial)).map (fun x =>
      (FTBC.readDynamicTag x.2.tagString 2 8, FTB.readDynamicTag x.2.tagString 2 8)) =
      some (some (.success, 1, some [9]), some (.errTagNotFound, 8, none)) := by
    set_option maxRecDepth 4000 in
    rfl
  obtain ⟨⟨log, t⟩, hrun, hread⟩ := Option.map_eq_some_iff.1 hreads
  obtain ⟨hclient, hwrapper⟩ := Prod.mk.inj hread
  exact ⟨log, t, hrun, hclient, hwrapper⟩

/-- The first one. -/
theorem decoders_agree_first : ∃ log t, TagCall.runAll twoTags ([], .initial) = some (log, t) ∧
    (FTB.readDynamicTag t.tagString 1 8 = FTBC.readDynamicTag t.tagString 1 8 ↔
      SameEntry t 1 8) := by
  obtain ⟨log, t, hrun, -⟩ := Tagged.initial.calls twoTags
  exact ⟨log, t, hrun, decoders_agree hrun 1 8⟩

end

end FTBCI
