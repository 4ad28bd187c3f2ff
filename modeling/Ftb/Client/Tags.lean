import Ftb.Util
import Ftb.Lib.Records
import Mathlib.Data.Set.Card

/-!
# Dynamic tags (`ftb_client_lib.c` with `FTB_TAG`)

The tags that the clients of a process attach to their events: a map with an entry for each tag, and
`tag_string`, which holds the number of tags and the entries one behind the other and goes out with
every event. The owner of an entry is compared as a client handle. A result `none` is undefined
behaviour: an access beyond the end of an array.

Whatever the clients add and remove, the string can be read back: `dynamic_tags`.
-/

open FTB FTBU

namespace FTBCI

/-- The codes of the functions for tags. -/
inductive TagRet
  | success
  | errTagNoSpace
  | errTagConflict
  | errTagNotFound
  deriving DecidableEq, Repr

/-- `FTB_EVENT_SIZE`. -/
def eventSize : Nat := 720

/-- `sizeof(FTB_event_properties_t)`: `FTB_MAX_PAYLOAD_DATA` and a byte. -/
def sizeofEventProperties : Nat := 1 + 368

/-- `FTB_MAX_DYNAMIC_DATA_SIZE`. -/
def maxDynamicDataSize : Nat :=
  eventSize - maxEventspace - maxEventName - maxSeverity - maxClientJobid - maxClientName
    - maxHostAddr - 4 - 1 - sizeofEventProperties

/-- `FTBCI_tag_entry_t`: the bytes of `data` that are in use. -/
structure TagEntry extends Records.Record UInt8.toNat where
  owner : ClientHandle

/-- `FTBCI_util_is_equal_tag`. -/
def isEqualTag (lhs rhs : UInt8) : Bool := lhs == rhs

instance : KeyEq isEqualTag := .of_canon id fun _ _ => beq_iff_eq

/-- The static variables for tags. -/
structure TagTable where
  tagMap : KeyList (fun x : TagEntry => x.tag) isEqualTag
  tagString : List UInt8
  tagSize : Int
  tagCount : UInt8

/-- After the first `FTBC_Connect`. -/
def TagTable.initial : TagTable where
  tagMap := .empty
  tagString := List.replicate maxDynamicDataSize 0
  tagSize := 1
  tagCount := 0

/-- The bytes at `tag_data` in an entry. -/
def TagEntry.fill (tagData : Nat → UInt8) (dataLen : UInt8) (entry : TagEntry) : TagEntry where
  tag := entry.tag
  len := dataLen
  data := (List.range dataLen.toNat).map tagData
  filled := by simp
  owner := entry.owner

@[simp] theorem TagEntry.tag_fill (tagData : Nat → UInt8) (dataLen : UInt8) (entry : TagEntry) :
    (entry.fill tagData dataLen).tag = entry.tag := rfl

/-- An entry as `FTBC_Add_dynamic_tag` makes it, before it is filled. -/
def newEntry (handle : ClientHandle) (tag : UInt8) : TagEntry where
  tag := tag
  len := 0
  data := []
  filled := rfl
  owner := handle

/-- `FTBCI_util_update_tag_string`. -/
def utilUpdateTagString (t : TagTable) : Option TagTable := do
  let tagString ← Records.store 0 [t.tagCount] t.tagString
  let (offset, tagString) ←
    Records.storeAll (t.tagMap.nodes.map TagEntry.toRecord) 1 tagString
  pure { t with tagString, tagSize := offset }

end FTBCI

namespace FTBC

open FTBCI

/-- `FTBC_Add_dynamic_tag`. The space test is one of `size_t`. -/
def addDynamicTag (handle : ClientHandle) (tag : UInt8) (tagData : Nat → UInt8) (dataLen : UInt8)
    (t : TagTable) : Option (TagRet × TagTable) :=
  if ((maxDynamicDataSize : Int) - t.tagSize) % 2 ^ 64 < dataLen.toNat + 1 + 1 then
    some (.errTagNoSpace, t)
  else match t.tagMap.find? tag with
    | none =>
      if maxDynamicDataSize < dataLen.toNat then none
      else do
        let t ← utilUpdateTagString
          { t with
            tagMap := t.tagMap.insert ((newEntry handle tag).fill tagData dataLen)
            tagCount := t.tagCount + 1 }
        pure (.success, t)
    | some entry =>
      if isEqualClienthandle entry.owner handle then
        if maxDynamicDataSize < dataLen.toNat then none
        else do
          let t ← utilUpdateTagString
            { t with
              tagMap := t.tagMap.adjust tag (TagEntry.fill tagData dataLen)
                (TagEntry.tag_fill tagData dataLen) }
          pure (.success, t)
      else some (.errTagConflict, t)

/-- `FTBC_Remove_dynamic_tag`. -/
def removeDynamicTag (handle : ClientHandle) (tag : UInt8) (t : TagTable) :
    Option (TagRet × TagTable) :=
  match t.tagMap.find? tag with
  | none => some (.errTagNotFound, t)
  | some entry =>
    if !isEqualClienthandle entry.owner handle then some (.errTagConflict, t)
    else do
      let t ← utilUpdateTagString
        { t with tagMap := t.tagMap.erase tag, tagCount := t.tagCount - 1 }
      pure (.success, t)

/-- What a decoder does with the record that `Records.walk` found: its code, `*data_len`, and what it
writes to `tag_data`. -/
def copyTag (dynamicData : List UInt8) (dataLen : UInt8) (found : Option (UInt8 × Nat)) :
    Option (TagRet × UInt8 × Option (List UInt8)) :=
  match found with
  | none => some (.errTagNotFound, dataLen, none)
  | some (tempLen, offset) =>
    if dataLen < tempLen then some (.errTagNoSpace, dataLen, none)
    else (Records.load offset tempLen.toNat dynamicData).map fun data => (.success, tempLen, some data)

/-- `FTBC_Read_dynamic_tag`. -/
def readDynamicTag (dynamicData : List UInt8) (tag dataLen : UInt8) :
    Option (TagRet × UInt8 × Option (List UInt8)) := do
  let tagCount ← dynamicData[0]?
  let found ← Records.walk UInt8.toNat tag tagCount.toNat 1 dynamicData
  copyTag dynamicData dataLen found

end FTBC

namespace FTBCI

open FTBC

/-! ## Runs -/

/-- A call with its arguments. -/
inductive TagCall
  | add (handle : ClientHandle) (tag : UInt8) (tagData : Nat → UInt8) (dataLen : UInt8)
  | remove (handle : ClientHandle) (tag : UInt8)

namespace TagCall

def run : TagCall → TagTable → Option (TagRet × TagTable)
  | .add handle tag tagData dataLen, t => addDynamicTag handle tag tagData dataLen t
  | .remove handle tag, t => removeDynamicTag handle tag t

/-- The calls with their results, and the table after them. -/
def runAll : List TagCall → List (TagCall × TagRet) × TagTable →
    Option (List (TagCall × TagRet) × TagTable) :=
  fun calls x => calls.foldlM (fun x call =>
    (call.run x.2).map fun r => (x.1 ++ [(call, r.1)], r.2)) x

end TagCall

/-- The data of a tag after a call that succeeded. -/
def heldAfter (held : UInt8 → Option (List UInt8)) : TagCall → UInt8 → Option (List UInt8)
  | .add _ tag tagData dataLen =>
    Function.update held tag (some ((List.range dataLen.toNat).map tagData))
  | .remove _ tag => Function.update held tag none

/-- The data of the last addition of a tag that succeeded and was not removed since. -/
def held (log : List (TagCall × TagRet)) : UInt8 → Option (List UInt8) :=
  log.foldl (fun held x => if x.2 = .success then heldAfter held x.1 else held) fun _ => none

/-- What a reader with room for `dataLen` bytes is to get. -/
def readBack (dataLen : UInt8) : Option (List UInt8) → TagRet × UInt8 × Option (List UInt8)
  | none => (.errTagNotFound, dataLen, none)
  | some data =>
    if dataLen.toNat < data.length then (.errTagNoSpace, dataLen, none)
    else (.success, data.length.toUInt8, some data)

/-! ## The invariant -/

def TagTable.records (t : TagTable) : List (Records.Record UInt8.toNat) :=
  t.tagMap.nodes.map TagEntry.toRecord

/-- The string is what `FTBCI_util_update_tag_string` makes of the map. -/
structure Tagged (log : List (TagCall × TagRet)) (t : TagTable) : Prop where
  string : ∃ rest, t.tagString = t.tagCount :: (Records.encodeAll t.records ++ rest)
  length : t.tagString.length = maxDynamicDataSize
  size : t.tagSize = 1 + (Records.encodeAll t.records).length
  count : t.tagCount.toNat = t.tagMap.nodes.length
  held : ∀ tag, (t.tagMap.find? tag).map (fun entry => entry.data) = held log tag

theorem held_append_singleton (log : List (TagCall × TagRet)) (call : TagCall) (ret : TagRet) :
    held (log ++ [(call, ret)]) = if ret = .success then heldAfter (held log) call else held log := by
  rw [held, List.foldl_concat]
  rfl

theorem maxDynamicDataSize_eq : maxDynamicDataSize = 138 := rfl

/-- A map whose entries fit is written to the string. -/
theorem updateTagString_spec {t : TagTable} (hlen : t.tagString.length = maxDynamicDataSize)
    (hfit : 1 + (Records.encodeAll t.records).length ≤ maxDynamicDataSize) :
    ∃ tagString, utilUpdateTagString t =
        some { t with tagString, tagSize := 1 + (Records.encodeAll t.records).length } ∧
      (∃ rest, tagString = t.tagCount :: (Records.encodeAll t.records ++ rest)) ∧
      tagString.length = maxDynamicDataSize := by
  obtain ⟨b, old, hstring⟩ := List.exists_cons_of_length_pos (l := t.tagString)
    (by rw [hlen]; decide)
  have hold : 1 + old.length = maxDynamicDataSize := by
    rw [← hlen, hstring, List.length_cons, Nat.add_comm]
  have hcount : Records.store 0 [t.tagCount] t.tagString = some ([t.tagCount] ++ old) := by
    rw [hstring]
    exact @Records.store_append _ 0 [] [t.tagCount] (b :: old) rfl (by simp)
  have hall := @Records.storeAll_append _ _ t.records 1 [t.tagCount] old rfl (by omega)
  refine ⟨[t.tagCount] ++ Records.encodeAll t.records ++
    old.drop (Records.encodeAll t.records).length, ?_, ⟨_, List.append_assoc _ _ _⟩, ?_⟩
  · have hall' : Records.storeAll (t.tagMap.nodes.map TagEntry.toRecord) 1 ([t.tagCount] ++ old) = _ :=
      hall
    simp only [utilUpdateTagString, Option.bind_eq_bind, hcount, Option.bind_some, hall']
    rfl
  · simp only [List.length_append, List.length_singleton, List.length_drop]
    omega

namespace Tagged

variable {log : List (TagCall × TagRet)} {t : TagTable} {tag : UInt8}

theorem initial : Tagged [] .initial where
  string := ⟨List.replicate 137 0, List.replicate_succ⟩
  length := List.length_replicate
  size := rfl
  count := rfl
  held _ := rfl

theorem fits (h : Tagged log t) : 1 + (Records.encodeAll t.records).length ≤ maxDynamicDataSize := by
  obtain ⟨rest, hstring⟩ := h.string
  have hlen := h.length
  rw [hstring, List.length_cons, List.length_append] at hlen
  omega

/-- A map that changed is written out. -/
theorem update (h : Tagged log t) (map : KeyList (fun x : TagEntry => x.tag) isEqualTag)
    (count : UInt8) {log' : List (TagCall × TagRet)}
    (hfit : 1 + (Records.encodeAll (map.nodes.map TagEntry.toRecord)).length ≤ maxDynamicDataSize)
    (hcount : count.toNat = map.nodes.length)
    (hheld : ∀ tag, (map.find? tag).map (fun entry => entry.data) = FTBCI.held log' tag) :
    ∃ t', utilUpdateTagString { t with tagMap := map, tagCount := count } = some t' ∧
      Tagged log' t' := by
  obtain ⟨tagString, hrun, hwritten, hlen⟩ :=
    @updateTagString_spec { t with tagMap := map, tagCount := count } h.length hfit
  exact ⟨_, hrun, hwritten, hlen, rfl, hcount, hheld⟩

/-- A call that fails. -/
theorem failed (h : Tagged log t) (call : TagCall) {ret : TagRet} (hret : ret ≠ .success) :
    Tagged (log ++ [(call, ret)]) t :=
  ⟨h.string, h.length, h.size, h.count, fun tag => by
    rw [held_append_singleton, if_neg hret]
    exact h.held tag⟩

/-- The room that the space test finds. -/
theorem room (h : Tagged log t) {dataLen : UInt8}
    (hroom : ¬((maxDynamicDataSize : Int) - t.tagSize) % 2 ^ 64 < dataLen.toNat + 1 + 1) :
    1 + (Records.encodeAll t.records).length + (dataLen.toNat + 2) ≤ maxDynamicDataSize := by
  have hfits := h.fits
  have hsize := h.size
  rw [maxDynamicDataSize_eq] at hroom hfits ⊢
  omega

/-- The one byte of the count is enough. -/
theorem length_lt (h : Tagged log t) : t.tagMap.nodes.length < 255 := by
  have htwo := Records.two_mul_length_le t.records
  have hfits := h.fits
  have hlen : t.records.length = t.tagMap.nodes.length := List.length_map _
  rw [maxDynamicDataSize_eq] at hfits
  omega

/-- A new entry. -/
theorem insert (h : Tagged log t) {handle : ClientHandle} {tagData : Nat → UInt8} {dataLen : UInt8}
    (hfind : t.tagMap.find? tag = none)
    (hfits : 1 + (Records.encodeAll t.records).length + (dataLen.toNat + 2) ≤ maxDynamicDataSize) :
    ∃ t', utilUpdateTagString
        { t with
          tagMap := t.tagMap.insert ((newEntry handle tag).fill tagData dataLen)
          tagCount := t.tagCount + 1 } = some t' ∧
      Tagged (log ++ [(.add handle tag tagData dataLen, .success)]) t' := by
  have hnew : t.tagMap.contains tag = false := KeyList.contains_eq_false hfind
  have hnodes := KeyList.nodes_insert (v := (newEntry handle tag).fill tagData dataLen) hnew
  refine h.update _ _ ?_ ?_ fun tag' => ?_
  · have hlen : (Records.encodeAll ((t.tagMap.insert
        ((newEntry handle tag).fill tagData dataLen)).nodes.map TagEntry.toRecord)).length =
        (Records.encodeAll t.records).length + (dataLen.toNat + 2) := by
      rw [hnodes, List.map_append, Records.encodeAll_append, List.length_append]
      simp [TagTable.records, Records.encode, TagEntry.fill]
    omega
  · have hlt := h.length_lt
    have hcount := h.count
    rw [hnodes, List.length_append, UInt8.toNat_add, hcount]
    show (_ + 1) % 256 = _ + 1
    omega
  · rw [KeyList.find?_insert hnew, held_append_singleton, if_pos rfl]
    rcases eq_or_ne tag' tag with rfl | hne
    · have hkey : isEqualTag ((newEntry handle tag').fill tagData dataLen).tag tag' = true :=
        KeyEq.refl tag'
      rw [hfind, Option.none_or, if_pos hkey, heldAfter, Function.update_self]
      rfl
    · have hkey : ¬isEqualTag ((newEntry handle tag).fill tagData dataLen).tag tag' = true :=
        fun he => hne (beq_iff_eq.1 he).symm
      rw [heldAfter, Function.update_of_ne hne, ← h.held tag', if_neg hkey, Option.or_none]

/-- An entry that is filled again is the only one of its tag. -/
theorem length_fill (tagData : Nat → UInt8) (dataLen : UInt8) : ∀ {nodes : List TagEntry},
    nodes.Pairwise (fun a b => isEqualTag a.tag b.tag = false) →
    (Records.encodeAll ((nodes.map fun entry =>
      if isEqualTag entry.tag tag then entry.fill tagData dataLen else entry).map
        TagEntry.toRecord)).length ≤
      (Records.encodeAll (nodes.map TagEntry.toRecord)).length + dataLen.toNat := by
  intro nodes
  induction nodes with
  | nil => exact fun _ => Nat.zero_le _
  | cons entry nodes ih =>
    intro hp
    obtain ⟨hentry, hnodes⟩ := List.pairwise_cons.1 hp
    simp only [List.map_cons, Records.encodeAll_cons, List.length_append, Records.length_encode]
    by_cases hk : isEqualTag entry.tag tag = true
    · have hsame : (nodes.map fun e => if isEqualTag e.tag tag then e.fill tagData dataLen else e) =
          nodes := by
        refine (List.map_congr_left fun e he => if_neg ?_).trans (List.map_id nodes)
        rw [← KeyEq.congr_right hk, KeyEq.comm isEqualTag, hentry e he]
        exact Bool.false_ne_true
      rw [if_pos hk, hsame]
      simp [TagEntry.fill]
      omega
    · have hih := ih hnodes
      rw [if_neg hk]
      omega

/-- The data of an entry are replaced. -/
theorem replace (h : Tagged log t) {handle : ClientHandle} {tagData : Nat → UInt8} {dataLen : UInt8}
    {entry : TagEntry} (hfind : t.tagMap.find? tag = some entry)
    (hfits : 1 + (Records.encodeAll t.records).length + (dataLen.toNat + 2) ≤ maxDynamicDataSize) :
    ∃ t', utilUpdateTagString
        { t with
          tagMap := t.tagMap.adjust tag (TagEntry.fill tagData dataLen)
            (TagEntry.tag_fill tagData dataLen) } = some t' ∧
      Tagged (log ++ [(.add handle tag tagData dataLen, .success)]) t' := by
  refine h.update _ t.tagCount ?_ ?_ fun tag' => ?_
  · have hle := @length_fill tag tagData dataLen _ t.tagMap.distinct
    show 1 + (Records.encodeAll ((t.tagMap.nodes.map _).map _)).length ≤ _
    refine Nat.le_trans (Nat.add_le_add_left hle 1) ?_
    rw [TagTable.records] at hfits
    omega
  · rw [h.count]
    exact (List.length_map _).symm
  · rw [KeyList.find?_adjust, held_append_singleton, if_pos rfl]
    rcases eq_or_ne tag' tag with rfl | hne
    · have hkey : isEqualTag entry.tag tag' = true := (KeyList.mem_of_find? hfind).2
      rw [hfind, heldAfter, Function.update_self, Option.map_some, if_pos hkey]
      rfl
    · rw [heldAfter, Function.update_of_ne hne, ← h.held tag']
      cases hfind' : t.tagMap.find? tag' with
      | none => rfl
      | some other =>
        have hother : other.tag = tag' := beq_iff_eq.1 (KeyList.mem_of_find? hfind').2
        have hkey : ¬isEqualTag other.tag tag = true := fun he =>
          hne (hother.symm.trans (beq_iff_eq.1 he))
        rw [Option.map_some, if_neg hkey]

/-- An entry is removed. -/
theorem erase (h : Tagged log t) {handle : ClientHandle} {entry : TagEntry}
    (hfind : t.tagMap.find? tag = some entry) :
    ∃ t', utilUpdateTagString
        { t with tagMap := t.tagMap.erase tag, tagCount := t.tagCount - 1 } = some t' ∧
      Tagged (log ++ [(.remove handle tag, .success)]) t' := by
  have hmem : t.tagMap.contains tag = true := by
    rw [KeyList.contains_eq_isSome, hfind]
    rfl
  refine h.update _ _ ?_ ?_ fun tag' => ?_
  · have hsub : (t.tagMap.erase tag).nodes.Sublist t.tagMap.nodes := List.eraseP_sublist
    have hle := ((hsub.map TagEntry.toRecord).flatMap Records.encode).length_le
    have hfits := h.fits
    exact Nat.le_trans (Nat.add_le_add_left hle 1) hfits
  · have hpos : 0 < t.tagMap.nodes.length :=
      List.length_pos_of_mem (KeyList.mem_of_find? hfind).1
    have hcount := h.count
    rw [KeyList.length_erase hmem, UInt8.toNat_sub_of_le, hcount]
    · rfl
    · show (1 : UInt8).toNat ≤ t.tagCount.toNat
      rw [hcount]
      exact hpos
  · rw [KeyList.find?_erase, held_append_singleton, if_pos rfl]
    rcases eq_or_ne tag' tag with rfl | hne
    · rw [if_pos (KeyEq.refl _), heldAfter, Function.update_self]
      rfl
    · have hkey : ¬isEqualTag tag tag' = true := fun he => hne (beq_iff_eq.1 he).symm
      rw [if_neg hkey, heldAfter, Function.update_of_ne hne, ← h.held tag']

/-- One call. -/
theorem call (h : Tagged log t) (c : TagCall) : ∃ ret t', c.run t = some (ret, t') ∧
    Tagged (log ++ [(c, ret)]) t' ∧ (ret ≠ .success → t' = t) := by
  cases c with
  | add handle tag tagData dataLen =>
    simp only [TagCall.run, addDynamicTag]
    by_cases hroom : ((maxDynamicDataSize : Int) - t.tagSize) % 2 ^ 64 < dataLen.toNat + 1 + 1
    · rw [if_pos hroom]
      exact ⟨_, _, rfl, h.failed _ (by decide), fun _ => rfl⟩
    · rw [if_neg hroom]
      have hfits := h.room hroom
      have harray : ¬maxDynamicDataSize < dataLen.toNat := by omega
      cases hfind : t.tagMap.find? tag with
      | none =>
        obtain ⟨t', hrun, htagged⟩ := h.insert hfind hfits
        dsimp only
        rw [if_neg harray, hrun]
        exact ⟨.success, t', rfl, htagged, fun hno => absurd rfl hno⟩
      | some entry =>
        dsimp only
        by_cases howner : isEqualClienthandle entry.owner handle = true
        · obtain ⟨t', hrun, htagged⟩ := h.replace hfind hfits
          rw [if_pos howner, if_neg harray, hrun]
          exact ⟨.success, t', rfl, htagged, fun hno => absurd rfl hno⟩
        · rw [if_neg howner]
          exact ⟨_, _, rfl, h.failed _ (by decide), fun _ => rfl⟩
  | remove handle tag =>
    simp only [TagCall.run, removeDynamicTag]
    cases hfind : t.tagMap.find? tag with
    | none => exact ⟨_, _, rfl, h.failed _ (by decide), fun _ => rfl⟩
    | some entry =>
      dsimp only
      by_cases howner : (!isEqualClienthandle entry.owner handle) = true
      · rw [if_pos howner]
        exact ⟨_, _, rfl, h.failed _ (by decide), fun _ => rfl⟩
      · obtain ⟨t', hrun, htagged⟩ := h.erase hfind
        rw [if_neg howner, hrun]
        exact ⟨.success, t', rfl, htagged, fun hno => absurd rfl hno⟩

/-- A run of calls. -/
theorem calls (cs : List TagCall) : ∀ {log : List (TagCall × TagRet)} {t : TagTable}, Tagged log t →
    ∃ log' t', TagCall.runAll cs (log, t) = some (log', t') ∧ Tagged log' t' ∧
      log'.map Prod.fst = log.map Prod.fst ++ cs := by
  induction cs with
  | nil => exact fun {log t} h => ⟨log, t, rfl, h, (List.append_nil _).symm⟩
  | cons c cs ih =>
    intro log t h
    obtain ⟨ret, t₁, hrun, h₁, -⟩ := h.call c
    obtain ⟨log', t', hrest, h', hlog⟩ := ih h₁
    refine ⟨log', t', ?_, h', ?_⟩
    · rw [TagCall.runAll, List.foldlM_cons, hrun]
      exact hrest
    · rw [hlog, List.map_append, List.append_assoc]
      rfl

/-- What the decoder finds for the tag of an entry. -/
theorem walk_some (h : Tagged log t) {entry : TagEntry} (hfind : t.tagMap.find? tag = some entry) :
    ∃ offset, Records.walk UInt8.toNat tag t.tagCount.toNat 1 t.tagString =
        some (some (entry.len, offset)) ∧
      Records.load offset entry.data.length t.tagString = some entry.data := by
  obtain ⟨rest, hstring⟩ := h.string
  obtain ⟨hown, l₁, l₂, hsplit, hbefore⟩ := List.find?_eq_some_iff_append.1 hfind
  have hrecords : t.records = l₁.map TagEntry.toRecord ++ entry.toRecord ::
      l₂.map TagEntry.toRecord := by
    rw [TagTable.records, hsplit, List.map_append, List.map_cons]
  have hno : ∀ r ∈ l₁.map TagEntry.toRecord, r.tag ≠ tag := by
    intro r hr he
    obtain ⟨e, hmem, rfl⟩ := List.mem_map.1 hr
    have hneg := hbefore e hmem
    rw [show isEqualTag e.tag tag = true from beq_iff_eq.2 he] at hneg
    cases hneg
  have hcount : t.tagCount.toNat = t.records.length := h.count.trans (List.length_map _).symm
  rw [hcount, hstring, ← List.singleton_append, hrecords]
  exact Records.walk_encodeAll_some (r := entry.toRecord) (beq_iff_eq.1 hown) rfl hno

theorem walk_none (h : Tagged log t) (hfind : t.tagMap.find? tag = none) :
    Records.walk UInt8.toNat tag t.tagCount.toNat 1 t.tagString = some none := by
  obtain ⟨rest, hstring⟩ := h.string
  have hno : ∀ r ∈ t.records, r.tag ≠ tag := by
    intro r hr he
    obtain ⟨e, hmem, rfl⟩ := List.mem_map.1 hr
    exact absurd (beq_iff_eq.2 he) (Bool.eq_false_iff.1 (KeyList.find?_eq_none.1 hfind e hmem))
  have hcount : t.tagCount.toNat = t.records.length := h.count.trans (List.length_map _).symm
  rw [hcount, hstring, ← List.singleton_append]
  exact Records.walk_encodeAll_none rfl hno

theorem head (h : Tagged log t) : t.tagString[0]? = some t.tagCount := by
  obtain ⟨rest, hstring⟩ := h.string
  rw [hstring]
  rfl

/-- The decoder reads back what is held. -/
theorem read (h : Tagged log t) (tag dataLen : UInt8) :
    readDynamicTag t.tagString tag dataLen = some (readBack dataLen (FTBCI.held log tag)) := by
  rw [← h.held tag]
  cases hfind : t.tagMap.find? tag with
  | none =>
    simp only [readDynamicTag, Option.bind_eq_bind, h.head, Option.bind_some, h.walk_none hfind]
    rfl
  | some entry =>
    obtain ⟨offset, hwalk, hload⟩ := h.walk_some hfind
    simp only [readDynamicTag, Option.bind_eq_bind, h.head, Option.bind_some, hwalk]
    simp only [copyTag, Option.map_some, readBack, ← entry.filled, hload]
    by_cases hlen : dataLen < entry.len
    · have hlen' : dataLen.toNat < entry.data.length := entry.filled ▸ UInt8.lt_iff_toNat_lt.1 hlen
      rw [if_pos hlen, if_pos hlen']
    · have hlen' : ¬dataLen.toNat < entry.data.length := fun hlt =>
        hlen (UInt8.lt_iff_toNat_lt.2 (entry.filled ▸ hlt))
      have hback : entry.data.length.toUInt8 = entry.len := by
        rw [entry.filled]
        exact UInt8.ofNat_toNat
      rw [if_neg hlen, if_neg hlen', hback]

/-- The tags that are there. -/
theorem ncard (h : Tagged log t) :
    {tag | (FTBCI.held log tag).isSome = true}.ncard = t.tagCount.toNat := by
  have hset : {tag | (FTBCI.held log tag).isSome = true} =
      ((t.tagMap.nodes.map fun entry => entry.tag).toFinset : Set UInt8) := by
    ext tag
    have hiff : (FTBCI.held log tag).isSome = true ↔ ∃ e ∈ t.tagMap.nodes, e.tag = tag := by
      rw [← h.held tag, Option.isSome_map, KeyList.find?_isSome]
      simp only [isEqualTag, beq_iff_eq]
    simpa using hiff
  have hnd : (t.tagMap.nodes.map fun entry => entry.tag).Nodup := by
    rw [List.Nodup, List.pairwise_map]
    exact t.tagMap.distinct.imp fun hab he => absurd (beq_iff_eq.2 he) (Bool.eq_false_iff.1 hab)
  rw [hset, Set.ncard_coe_finset, List.toFinset_card_of_nodup hnd, List.length_map, h.count]

end Tagged

/-- **Dynamic tags.** After any calls of any clients, the string is not too long, the count is the number
of tags that are there, the data of each tag can be read back, and a call that fails changes nothing. -/
theorem dynamic_tags (calls : List TagCall) : ∃ log t,
    TagCall.runAll calls ([], .initial) = some (log, t) ∧ log.map Prod.fst = calls ∧
      t.tagSize ≤ maxDynamicDataSize ∧
      t.tagCount.toNat = {tag | (held log tag).isSome = true}.ncard ∧
      (∀ tag dataLen, readDynamicTag t.tagString tag dataLen =
        some (readBack dataLen (held log tag))) ∧
      ∀ call, ∃ ret t', TagCall.run call t = some (ret, t') ∧
        (ret ≠ .success → t'.tagString = t.tagString) := by
  obtain ⟨log, t, hrun, h, hlog⟩ := Tagged.initial.calls calls
  refine ⟨log, t, hrun, hlog, ?_, h.ncard.symm, h.read, fun call => ?_⟩
  · have hsize := h.size
    have hfits := h.fits
    omega
  · obtain ⟨ret, t', hcall, -, hsame⟩ := h.call call
    exact ⟨ret, t', hcall, fun hret => by rw [hsame hret]⟩

end FTBCI
