import Ftb.Client.Bookkeeping
import Ftb.Client.Declare
import Ftb.Client.Identity
import Mathlib.Tactic.MkIffOfInductiveProp

/-!
# The grammar of schema files

`Layout` reads the words of a file into blocks, `start <event space> (<name> <severity>)* end`, one
word after the other; the loop of `FTBCI_check_schema_file` is in the state that fits the layout of
the words it has read (`scanWords_layout`). What it does for a text differs from what the grammar
says in four ways: a word that is too long for its array, or an event space without dots, is not
refused but leads out of memory, the last word is not read if nothing is behind it, a block may end
before its event space or behind a name, and an event of the client is refused when it has 100
(`readsSchema_iff`).
-/

open FTB FTBU FTBN FTBMI CStr

namespace FTBCI

variable {N : Type} {handle : ClientHandle} {s s' : Lib N} {c : ClientInfo}

/-! ## Words and blocks -/

/-- The words of a block: its event space, the names with their severities, and the name whose
severity is still missing. -/
structure Block where
  eventSpace : Option CStr
  events : List EventInfo
  eventName : Option CStr
  deriving DecidableEq, Repr

def Block.empty : Block := ⟨none, [], none⟩

def Block.next (b : Block) (word : CStr) : Block :=
  match b.eventSpace, b.eventName with
  | none, _ => { b with eventSpace := some word }
  | some _, none => { b with eventName := some word }
  | some _, some name => { b with events := b.events ++ [⟨name, word⟩], eventName := none }

/-- The blocks that have ended, and the block that is open. A file that is written block by block has
the layout of its blocks (`layout_written`). -/
structure Layout where
  blocks : List Block
  block : Option Block
  deriving DecidableEq, Repr

def Layout.next (l : Layout) (word : CStr) : Layout :=
  match l.block with
  | none => if word == "start".toList then { l with block := some .empty } else l
  | some b =>
    if word == "end".toList then ⟨l.blocks ++ [b], none⟩ else { l with block := some (b.next word) }

def layout (words : List CStr) : Layout := words.foldl Layout.next ⟨[], none⟩

/-- The blocks that have started. -/
def Layout.started (l : Layout) : List Block := l.blocks ++ l.block.toList

/-- The names with their severities, in order. -/
def Layout.events (l : Layout) : List EventInfo := l.started.flatMap Block.events

/-! ## What the grammar says -/

/-- An event is declared unless it is already. -/
def ClientInfo.declare (c : ClientInfo) (e : EventInfo) : ClientInfo :=
  if c.declaredEventsMap.contains e.eventName then c else c.insertEvent e

def ClientInfo.declareAll (c : ClientInfo) (events : List EventInfo) : ClientInfo :=
  events.foldl ClientInfo.declare c

/-- The event space of the client. -/
def Own (clientId : ClientId) (eventSpace : CStr) : Prop :=
  ∃ parts, splitNamespace eventSpace = some (.ok parts) ∧ ownEventSpace clientId parts = true

def EventInfo.Valid (e : EventInfo) : Prop :=
  isEventName e.eventName = true ∧ checkSeverityValues e.severity = true

/-- There is room for every new name. -/
def FitsLimit (c : ClientInfo) (events : List EventInfo) : Prop :=
  ∀ pre e post, events = pre ++ e :: post →
    (c.declareAll pre).declaredEventsMap.contains e.eventName = false →
      (c.declareAll pre).totalPublishEvents < maxEventsPerClient

/-- The block has an event space, and a severity for each name. -/
def Block.Complete (b : Block) : Prop := b.eventSpace.isSome = true ∧ b.eventName = none

/-- The words are one or more blocks of the client, and stray words outside of them. -/
structure Grammar (clientId : ClientId) (c : ClientInfo) (words : List CStr) : Prop where
  blocks : (layout words).blocks ≠ []
  closed : (layout words).block = none
  complete : ∀ b ∈ (layout words).blocks, b.Complete
  own : ∀ b ∈ (layout words).blocks, ∀ eventSpace ∈ b.eventSpace, Own clientId eventSpace
  valid : ∀ e ∈ (layout words).events, e.Valid
  fits : FitsLimit c (layout words).events

/-- `FTBCI_check_schema_file` returns for the text, and does what the grammar says. -/
structure ReadsSchema (handle : ClientHandle) (c : ClientInfo) (text : CStr) (s : Lib N) : Prop where
  total : checkSchemaFile handle text s ≠ none
  words : (checkSchemaFile handle text s).map Prod.fst =
    (checkSchemaFile handle (Words.spaced ' ' (Words.words isSpace text)) s).map Prod.fst
  success : (∃ s', checkSchemaFile handle text s = some (.success, s')) ↔
    Grammar handle.clientId c (Words.words isSpace text)
  events : ∀ s', checkSchemaFile handle text s = some (.success, s') →
    lookupClientInfo handle s' =
      some (.ok (c.declareAll (layout (Words.words isSpace text)).events))

/-! ## Blocks as they are written -/

/-- A block with the stray words before it. -/
structure WrittenBlock where
  strays : List CStr
  eventSpace : CStr
  events : List EventInfo

def WrittenBlock.words (x : WrittenBlock) : List CStr :=
  x.strays ++ "start".toList :: x.eventSpace ::
    (x.events.flatMap fun e => [e.eventName, e.severity]) ++ ["end".toList]

def WrittenBlock.block (x : WrittenBlock) : Block := ⟨some x.eventSpace, x.events, none⟩

/-- No stray word starts a block, and no word of the block ends it. -/
structure WrittenBlock.Delimited (x : WrittenBlock) : Prop where
  strays : "start".toList ∉ x.strays
  eventSpace : x.eventSpace ≠ "end".toList
  events : ∀ e ∈ x.events, e.eventName ≠ "end".toList ∧ e.severity ≠ "end".toList

theorem foldl_strays {strays : List CStr} (h : "start".toList ∉ strays) (blocks : List Block) :
    strays.foldl Layout.next ⟨blocks, none⟩ = ⟨blocks, none⟩ := by
  induction strays with
  | nil => rfl
  | cons word strays ih =>
    rw [List.mem_cons, not_or] at h
    rw [List.foldl_cons, Layout.next]
    dsimp only
    rw [if_neg (by simpa using Ne.symm h.1)]
    exact ih h.2

theorem foldl_events {events : List EventInfo}
    (h : ∀ e ∈ events, e.eventName ≠ "end".toList ∧ e.severity ≠ "end".toList)
    (blocks : List Block) (eventSpace : CStr) (before : List EventInfo) :
    (events.flatMap fun e => [e.eventName, e.severity]).foldl Layout.next
        ⟨blocks, some ⟨some eventSpace, before, none⟩⟩ =
      ⟨blocks, some ⟨some eventSpace, before ++ events, none⟩⟩ := by
  induction events generalizing before with
  | nil => simp
  | cons e events ih =>
    obtain ⟨hname, hseverity⟩ := h e List.mem_cons_self
    have hnext : [e.eventName, e.severity].foldl Layout.next
        ⟨blocks, some ⟨some eventSpace, before, none⟩⟩ =
          ⟨blocks, some ⟨some eventSpace, before ++ [e], none⟩⟩ := by
      simp only [List.foldl_cons, List.foldl_nil, Layout.next, Block.next, beq_iff_eq, hname,
        hseverity, if_false]
    rw [List.flatMap_cons, List.foldl_append, hnext,
      ih (fun x hx => h x (List.mem_cons_of_mem e hx)), List.append_assoc]
    rfl

/-- Blocks that are written among stray words are read back. -/
theorem layout_written {file : List WrittenBlock} (h : ∀ x ∈ file, x.Delimited) {strays : List CStr}
    (hstrays : "start".toList ∉ strays) :
    layout (file.flatMap WrittenBlock.words ++ strays) = ⟨file.map WrittenBlock.block, none⟩ := by
  have hblocks : ∀ blocks : List Block, (file.flatMap WrittenBlock.words).foldl Layout.next ⟨blocks, none⟩ =
      ⟨blocks ++ file.map WrittenBlock.block, none⟩ := by
    induction file with
    | nil => simp
    | cons x file ih =>
      intro blocks
      obtain ⟨hx, hspace, hevents⟩ := h x List.mem_cons_self
      have hwords : x.words.foldl Layout.next ⟨blocks, none⟩ = ⟨blocks ++ [x.block], none⟩ := by
        rw [WrittenBlock.words, List.foldl_append, List.foldl_append, foldl_strays hx]
        simp only [List.foldl_cons, List.foldl_nil, Layout.next, Block.next, Block.empty, beq_iff_eq,
          hspace, if_true, if_false]
        rw [foldl_events hevents]
        simp [WrittenBlock.block]
      rw [List.flatMap_cons, List.foldl_append, hwords,
        ih (fun y hy => h y (List.mem_cons_of_mem x hy)), List.append_assoc]
      rfl
  rw [layout, List.foldl_append, hblocks, foldl_strays hstrays]
  rfl

/-! ## What the loop does with words -/

/-- The loop of `FTBCI_check_schema_file` over words that it reads. -/
def scanWords (handle : ClientHandle) : List CStr → Scanner → Lib N →
    Option (Except Ret Scanner × Lib N)
  | [], sc, s => some (.ok sc, s)
  | str :: words, sc, s =>
    if str.length ≥ sizeofStr then none
    else match scanStr handle str sc s with
      | none => none
      | some (.error ret, s) => some (.error ret, s)
      | some (.ok sc, s) => scanWords handle words sc s

/-- How the loop ends behind words that it reads. -/
def scanned : Option (Except Ret Scanner × Lib N) → Option (Ret × Lib N)
  | none => none
  | some (.error ret, s) => some (ret, s)
  | some (.ok sc, s) => some (scanEnd sc.state, s)

/-- What the loop makes of the last word if nothing is behind it. -/
def dropLast (word : CStr) : Option (Except Ret Scanner × Lib N) → Option (Ret × Lib N)
  | some (.ok sc, s) => if word.length ≥ sizeofStr then none else some (scanEnd sc.state, s)
  | r => scanned r

/-- The loop reads the words of the text, the last one only if a space is behind it. -/
theorem scanLoop_eq {n : Nat} {text : CStr} (hn : text.length < n) (sc : Scanner) (s : Lib N) :
    (Words.Whole isSpace text →
      scanLoop handle n text sc s = scanned (scanWords handle (Words.words isSpace text) sc s)) ∧
    (¬Words.Whole isSpace text → ∀ words word, Words.words isSpace text = words ++ [word] →
      scanLoop handle n text sc s = dropLast word (scanWords handle words sc s)) := by
  induction n generalizing text sc s with
  | zero => omega
  | succ n ih =>
    rw [scanLoop]
    rcases Words.words_next isSpace text with ⟨hw, hrest, hwords, hwhole⟩ |
      ⟨hw, hrest, hwords, hwhole⟩ | ⟨hw, hrest, hwords, hwhole⟩
    · refine ⟨fun _ => ?_, fun hno => absurd hwhole hno⟩
      simp [hw, hrest, hwords, scanWords, scanned, sizeofStr]
    · refine ⟨fun h => absurd h hwhole, fun _ words word heq => ?_⟩
      rw [hwords] at heq
      obtain ⟨rfl, rfl⟩ : words = [] ∧ word = (Words.next isSpace text).1 := by
        cases words with
        | nil => exact ⟨rfl, by simpa using heq.symm⟩
        | cons _ words => simp at heq
      simp [hrest, scanWords, dropLast]
    · have hlt := Words.next_shorter hrest
      have hne : ((Words.next isSpace text).2 == []) = false := by simpa using hrest
      have hshort : (Words.next isSpace text).2.length < n := by omega
      have ih := ih hshort
      rw [hwords, ← hwhole]
      dsimp only
      rw [hne]
      refine ⟨fun h => ?_, fun h words word heq => ?_⟩
      · rw [scanWords]
        split
        · rfl
        · cases scanStr handle (Words.next isSpace text).1 sc s with
          | none => rfl
          | some r =>
            obtain ⟨ret | sc, s⟩ := r
            · rfl
            · exact (ih sc s).1 h
      · obtain ⟨words, rfl⟩ : ∃ rest, words = (Words.next isSpace text).1 :: rest := by
          cases words with
          | nil => exact absurd (List.cons.inj heq).2 (Words.words_ne_nil h)
          | cons w words => exact ⟨words, by rw [(List.cons.inj heq).1]⟩
        rw [scanWords]
        split
        · rfl
        · cases scanStr handle (Words.next isSpace text).1 sc s with
          | none => rfl
          | some r =>
            obtain ⟨ret | sc, s⟩ := r
            · rfl
            · exact (ih sc s).2 h words word (List.cons.inj heq).2

/-! ## The state that fits a layout -/

def Layout.state (l : Layout) : ScanState :=
  match l.block with
  | none => if l.blocks.isEmpty then .empty else .init
  | some b =>
    match b.eventSpace, b.eventName with
    | none, _ => .inStruct
    | some _, none => .foundEventspace
    | some _, some _ => .foundEventname

/-- The loop has read words of that layout. -/
structure At (l : Layout) (sc : Scanner) : Prop where
  state : sc.state = l.state
  eventName : ∀ b ∈ l.block, ∀ name ∈ b.eventName, sc.eventName = name
  eventSpace : ∀ b ∈ l.block, b.eventSpace = none → b.eventName = none

/-- The event that the word ends. -/
def Block.added (b : Block) (word : CStr) : List EventInfo :=
  match b.eventSpace, b.eventName with
  | some _, some name => [⟨name, word⟩]
  | _, _ => []

/-- The block goes on with the word. -/
@[mk_iff]
structure Block.Takes (clientId : ClientId) (b : Block) (word : CStr) : Prop where
  own : b.eventSpace = none → Own clientId word
  eventName : b.eventSpace.isSome = true → b.eventName = none → word.length < maxEventName
  valid : ∀ e ∈ b.added word, e.Valid

/-- The loop goes on behind the word. -/
def Takes (clientId : ClientId) (c : ClientInfo) (l : Layout) (word : CStr) : Prop :=
  ∀ b ∈ l.block, word ≠ "end".toList →
    b.Takes clientId word ∧ (b.added word ≠ [] → c.totalPublishEvents < maxEventsPerClient)

/-- The words of the block can be read. -/
@[mk_iff]
structure Block.Legible (clientId : ClientId) (b : Block) : Prop where
  own : ∀ eventSpace ∈ b.eventSpace, Own clientId eventSpace
  valid : ∀ e ∈ b.events, e.Valid
  eventName : ∀ name ∈ b.eventName, name.length < maxEventName

/-- There is room before every event, also if it is declared already. -/
def Room (c : ClientInfo) (events : List EventInfo) : Prop :=
  ∀ pre e post, events = pre ++ e :: post →
    (c.declareAll pre).totalPublishEvents < maxEventsPerClient

/-- The loop comes to the end of words of that layout. -/
@[mk_iff]
structure Legible (clientId : ClientId) (c : ClientInfo) (l : Layout) : Prop where
  blocks : ∀ b ∈ l.started, b.Legible clientId
  room : Room c l.events

section
variable {l : Layout} {b : Block} {word : CStr} {clientId : ClientId} {events : List EventInfo}
  {e : EventInfo}

theorem declareAll_concat : c.declareAll (events ++ [e]) = (c.declareAll events).declare e := by
  rw [ClientInfo.declareAll, List.foldl_concat]
  rfl

theorem room_concat : Room c (events ++ [e]) ↔
    Room c events ∧ (c.declareAll events).totalPublishEvents < maxEventsPerClient := by
  constructor
  · intro h
    exact ⟨fun pre x post heq => h pre x (post ++ [e]) (by simp [heq]), h events e [] rfl⟩
  · rintro ⟨h, hlast⟩ pre x post heq
    rcases Trace.split_concat heq with ⟨rfl, rfl, rfl⟩ | ⟨post, rfl, rfl⟩
    · exact hlast
    · exact h pre x post rfl

theorem layout_concat (words : List CStr) (word : CStr) :
    layout (words ++ [word]) = (layout words).next word := by
  rw [layout, List.foldl_concat]
  rfl

/-! ### One word -/

theorem next_start (h : l.block = none) :
    l.next "start".toList = { l with block := some .empty } := by
  simp [Layout.next, h]

theorem next_stray (h : l.block = none) (hw : word ≠ "start".toList) : l.next word = l := by
  rw [Layout.next, h]
  exact if_neg (by simpa using hw)

theorem next_end (h : l.block = some b) : l.next "end".toList = ⟨l.blocks ++ [b], none⟩ := by
  simp [Layout.next, h]

theorem next_word (h : l.block = some b) (hw : word ≠ "end".toList) :
    l.next word = { l with block := some (b.next word) } := by
  rw [Layout.next, h]
  exact if_neg (by simpa using hw)

theorem started_of_some (h : l.block = some b) : l.started = l.blocks ++ [b] := by
  rw [Layout.started, h]
  rfl

theorem events_of_some (h : l.block = some b) :
    l.events = l.blocks.flatMap Block.events ++ b.events := by
  rw [Layout.events, started_of_some h, List.flatMap_append, List.flatMap_singleton]

theorem events_next_of_none (h : l.block = none) : (l.next word).events = l.events := by
  by_cases hw : word = "start".toList
  · rw [hw, next_start h, events_of_some rfl, Layout.events, Layout.started, h]
    simp [Block.empty]
  · rw [next_stray h hw]

theorem Block.events_next : (b.next word).events = b.events ++ b.added word := by
  obtain ⟨_ | eventSpace, events, _ | name⟩ := b <;> simp [Block.next, Block.added]

theorem EventInfo.Valid.length_lt (h : e.Valid) : e.eventName.length < maxEventName := by
  have hname := h.1
  simp only [isEventName, Bool.and_eq_true, decide_eq_true_eq] at hname
  exact hname.1

theorem Block.legible_next :
    (b.next word).Legible clientId ↔ b.Legible clientId ∧ b.Takes clientId word := by
  obtain ⟨_ | eventSpace, events, eventName⟩ := b
  · simp only [Block.legible_iff, Block.takes_iff, Block.next, Block.added]
    simp
    tauto
  cases eventName with
  | none =>
    simp only [Block.legible_iff, Block.takes_iff, Block.next, Block.added]
    simp
    tauto
  | some name =>
    have hname : (EventInfo.mk name word).Valid → name.length < maxEventName := fun h => h.length_lt
    simp only [Block.legible_iff, Block.takes_iff, Block.next, Block.added, List.forall_mem_append]
    simp
    tauto

theorem legible_of_none (h : l.block = none) : Legible clientId c l ↔
    (∀ b ∈ l.blocks, b.Legible clientId) ∧ Room c (l.blocks.flatMap Block.events) := by
  rw [legible_iff, Layout.events, Layout.started, h, Option.toList_none, List.append_nil]

theorem legible_of_some (h : l.block = some b) : Legible clientId c l ↔
    (∀ b ∈ l.blocks, b.Legible clientId) ∧ b.Legible clientId ∧
      Room c (l.blocks.flatMap Block.events ++ b.events) := by
  rw [legible_iff, events_of_some h, started_of_some h, List.forall_mem_append,
    List.forall_mem_singleton, and_assoc]

theorem room_added : Room c (events ++ b.added word) ↔
    Room c events ∧
      (b.added word ≠ [] → (c.declareAll events).totalPublishEvents < maxEventsPerClient) := by
  have hadded : b.added word = [] ∨ ∃ e, b.added word = [e] := by
    unfold Block.added
    split
    · exact .inr ⟨_, rfl⟩
    · exact .inl rfl
  rcases hadded with h | ⟨e, h⟩
  · simp [h]
  · simp [h, room_concat]

/-- The loop comes to the end of one more word. -/
theorem legible_next : Legible clientId c (l.next word) ↔
    Legible clientId c l ∧ Takes clientId (c.declareAll l.events) l word := by
  cases hb : l.block with
  | none =>
    have htakes : Takes clientId (c.declareAll l.events) l word := fun b h => by simp [hb] at h
    rw [and_iff_left htakes]
    by_cases hw : word = "start".toList
    · have hempty : Block.empty.Legible clientId := by simp [Block.legible_iff, Block.empty]
      rw [hw, next_start hb, legible_of_some rfl, legible_of_none hb, and_iff_right hempty]
      simp [Block.empty]
    · rw [next_stray hb hw]
  | some b =>
    by_cases hw : word = "end".toList
    · have htakes : Takes clientId (c.declareAll l.events) l word := fun b _ h => absurd hw h
      rw [and_iff_left htakes, hw, next_end hb, legible_of_some hb, legible_of_none rfl,
        List.forall_mem_append, List.forall_mem_singleton, List.flatMap_append,
        List.flatMap_singleton, and_assoc]
    · have htakes : Takes clientId (c.declareAll l.events) l word ↔ b.Takes clientId word ∧
          (b.added word ≠ [] → (c.declareAll l.events).totalPublishEvents < maxEventsPerClient) := by
        refine ⟨fun h => h b hb hw, fun h x hx _ => ?_⟩
        cases hb.symm.trans hx
        exact h
      rw [htakes, next_word hb hw, legible_of_some hb, legible_of_some rfl, Block.legible_next,
        Block.events_next, ← List.append_assoc, room_added, events_of_some hb]
      tauto

end

/-! ### One turn of the loop -/

section
variable {l : Layout} {b : Block} {word : CStr} {sc : Scanner} {e : EventInfo}

/-- The client that a call was written for is found with what was written. -/
theorem lookup_update_own {c' : ClientInfo} (hl : lookupClientInfo handle s = some (.ok c))
    (hhandle : c'.clientHandle = c.clientHandle) (hfreed : c'.freed = false) :
    lookupClientInfo handle (s.update handle fun _ => c') = some (.ok c') := by
  obtain ⟨map, hm, hf⟩ := lookup_iff.1 hl
  obtain ⟨hfind, -, hown⟩ := find_of_findClient hf
  let g : ClientInfo → ClientInfo := fun x =>
    if isEqualClienthandle x.clientHandle handle = true then
      { c' with clientHandle := x.clientHandle } else x
  have hp : ((fun x : ClientInfo => x.freed || isEqualClienthandle x.clientHandle handle) ∘ g) =
      fun x => x.freed || isEqualClienthandle x.clientHandle handle := by
    funext x
    by_cases hx : isEqualClienthandle x.clientHandle handle = true <;> simp [g, hx]
  have hc' : g c = c' := by
    have hg : g c = { c' with clientHandle := c.clientHandle } := if_pos hown
    rw [hg, ← hhandle]
  refine lookup_iff.2 ⟨_, by rw [Lib.update, hm]; rfl, ?_⟩
  have hfind' : ((map.nodes.map g).find? fun x =>
      x.freed || isEqualClienthandle x.clientHandle handle) = some c' := by
    rw [List.find?_map, hp, hfind, Option.map_some, hc']
  simp only [findClient, KeyList.adjust]
  rw [hfind']
  simp [hfreed]

theorem freed_of_lookup (hl : lookupClientInfo handle s = some (.ok c)) : c.freed = false := by
  obtain ⟨map, -, hf⟩ := lookup_iff.1 hl
  exact (find_of_findClient hf).2.1

theorem storeDeclaredEvents_one (hv : e.Valid) (hroom : c.totalPublishEvents < maxEventsPerClient) :
    storeDeclaredEvents [e] c = (.success, c.declare e) := by
  rw [storeDeclaredEvents, if_neg (by omega), hv.1, hv.2]
  by_cases hd : c.declaredEventsMap.contains e.eventName = true <;>
    simp [storeDeclaredEvents, ClientInfo.declare, hd]

theorem storeDeclaredEvents_one_ne (h : ¬(e.Valid ∧ c.totalPublishEvents < maxEventsPerClient)) :
    ∃ ret, storeDeclaredEvents [e] c = (ret, c) ∧ (ret = .errGeneral ∨ ret = .errInvalidField) := by
  rw [storeDeclaredEvents]
  split
  · exact ⟨_, rfl, .inl rfl⟩
  split
  · exact ⟨_, rfl, .inr rfl⟩
  split
  · exact ⟨_, rfl, .inr rfl⟩
  · rename_i hroom hname hseverity
    simp only [Bool.not_eq_true', Bool.not_eq_false] at hname hseverity
    exact absurd ⟨⟨hname, hseverity⟩, by omega⟩ h

theorem declare_own (c : ClientInfo) (e : EventInfo) :
    (c.declare e).clientHandle = c.clientHandle ∧ (c.declare e).freed = c.freed := by
  rw [ClientInfo.declare]
  split <;> exact ⟨rfl, rfl⟩

theorem state_of_none (h : l.block = none) : l.state = .empty ∨ l.state = .init := by
  rw [Layout.state, h]
  dsimp only
  split
  · exact .inl rfl
  · exact .inr rfl

/-- A word that the loop takes. -/
theorem scanStr_takes (hat : At l sc)
    (hl : lookupClientInfo handle s = some (.ok (c.declareAll l.events)))
    (ht : Takes handle.clientId (c.declareAll l.events) l word) :
    ∃ sc' s', scanStr handle word sc s = some (.ok sc', s') ∧ At (l.next word) sc' ∧
      lookupClientInfo handle s' = some (.ok (c.declareAll (l.next word).events)) := by
  obtain ⟨hstate, hname, hspace⟩ := hat
  cases hb : l.block with
  | none =>
    have houtside : sc.state = .init ∨ sc.state = .empty := hstate ▸ (state_of_none hb).symm
    by_cases hw : word = "start".toList
    · subst hw
      refine ⟨{ sc with state := .inStruct }, s, ?_, ?_, ?_⟩
      · rw [scanStr, if_pos houtside]
        rfl
      · rw [next_start hb]
        exact ⟨rfl, by simp [Block.empty], by simp [Block.empty]⟩
      · rwa [events_next_of_none hb]
    · refine ⟨sc, s, ?_, ?_, ?_⟩
      · rw [scanStr, if_pos houtside, if_neg (by simpa using hw)]
      · rw [next_stray hb hw]
        exact ⟨hstate, hname, hspace⟩
      · rwa [next_stray hb hw]
  | some b =>
    have hstate' := hstate
    rw [Layout.state, hb] at hstate'
    have hinside : ¬(sc.state = .init ∨ sc.state = .empty) := by
      rw [hstate']
      dsimp only
      split <;> simp
    rw [scanStr, if_neg hinside]
    by_cases hw : word = "end".toList
    · subst hw
      refine ⟨{ sc with state := .init }, s, rfl, ?_, ?_⟩
      · rw [next_end hb]
        exact ⟨by simp [Layout.state], by simp, by simp⟩
      · rw [next_end hb]
        simpa [Layout.events, Layout.started, hb] using hl
    rw [if_neg (by simpa using hw), next_word hb hw, events_of_some rfl, Block.events_next,
      ← List.append_assoc, ← events_of_some hb]
    obtain ⟨⟨hown, hlength, hvalid⟩, hroom⟩ := ht b hb hw
    obtain ⟨_ | eventSpace, events, eventName⟩ := b
    · obtain ⟨parts, hsplit, hparts⟩ := hown rfl
      have hlt := (splitNamespace_ok_iff.1 hsplit).short
      rw [hstate']
      dsimp only
      rw [if_neg (by omega), hsplit]
      dsimp only
      rw [hparts]
      obtain rfl : eventName = none := hspace _ hb rfl
      refine ⟨_, s, rfl, ⟨rfl, ?_, ?_⟩, by simpa [Block.added] using hl⟩
      · simp [Block.next]
      · simp [Block.next]
    cases eventName with
    | none =>
      have hlt := hlength rfl rfl
      rw [hstate']
      dsimp only
      rw [if_neg (by omega)]
      refine ⟨_, s, rfl, ⟨rfl, ?_, ?_⟩, by simpa [Block.added] using hl⟩
      · simp [Block.next]
      · simp [Block.next]
    | some name =>
      have hv : (EventInfo.mk name word).Valid := hvalid _ (by simp [Block.added])
      have hstored := storeDeclaredEvents_one hv (hroom (by simp [Block.added]))
      have hscname : sc.eventName = name := hname _ hb _ rfl
      have hown' := declare_own (c.declareAll l.events) ⟨name, word⟩
      rw [hstate']
      dsimp only
      rw [if_neg (by simp [hv.2]), hl]
      dsimp only
      rw [hscname, hstored]
      refine ⟨_, _, rfl, ⟨rfl, by simp [Block.next], by simp [Block.next]⟩, ?_⟩
      rw [Block.added, declareAll_concat]
      exact lookup_update_own hl hown'.1 (hown'.2.trans (freed_of_lookup hl))

/-- A word that the loop does not take ends it: with `FTB_ERR_INVALID_SCHEMA_FILE` if it is no event
space of the client. -/
theorem scanStr_refuses (hat : At l sc)
    (hl : lookupClientInfo handle s = some (.ok (c.declareAll l.events)))
    (ht : ¬Takes handle.clientId (c.declareAll l.events) l word) :
    (scanStr handle word sc s = none ∨ ∃ ret s', scanStr handle word sc s = some (.error ret, s') ∧
      ret ≠ .success) ∧
    ((∃ s', scanStr handle word sc s = some (.error .errInvalidSchemaFile, s')) ↔
      ∃ b ∈ l.block, b.eventSpace = none ∧ splitNamespace word ≠ none) := by
  obtain ⟨hstate, hname, hspace⟩ := hat
  cases hb : l.block with
  | none => exact absurd (fun b h => by simp [hb] at h) ht
  | some b =>
    have hword : ¬(word ≠ "end".toList → b.Takes handle.clientId word ∧ (b.added word ≠ [] →
        (c.declareAll l.events).totalPublishEvents < maxEventsPerClient)) := by
      refine fun h => ht fun x hx => ?_
      cases hb.symm.trans hx
      exact h
    obtain ⟨hw, hno⟩ := Classical.not_imp.1 hword
    rw [Layout.state, hb] at hstate
    have hinside : ¬(sc.state = .init ∨ sc.state = .empty) := by
      rw [hstate]
      dsimp only
      split <;> simp
    rw [scanStr, if_neg hinside, if_neg (by simpa using hw)]
    simp only [Option.mem_def, Option.some.injEq, exists_eq_left']
    obtain ⟨_ | eventSpace, events, eventName⟩ := b
    · have hown : ¬Own handle.clientId word := fun h =>
        hno ⟨⟨fun _ => h, by simp, by simp [Block.added]⟩, by simp [Block.added]⟩
      rw [hstate]
      dsimp only
      split
      · rename_i hlength
        have hsplit : splitNamespace word ≠ none := by simp [splitNamespace, hlength]
        exact ⟨.inr ⟨_, s, rfl, by simp⟩, by simp [hsplit]⟩
      · cases hsplit : splitNamespace word with
        | none => simp
        | some parts =>
          cases parts with
          | error ret => exact ⟨.inr ⟨_, s, rfl, by simp⟩, by simp⟩
          | ok parts =>
            have hparts : ownEventSpace handle.clientId parts = false := by
              by_contra h
              exact hown ⟨parts, hsplit, by simpa using h⟩
            dsimp only
            rw [hparts]
            exact ⟨.inr ⟨_, s, rfl, by simp⟩, by simp⟩
    cases eventName with
    | none =>
      have hlength : word.length ≥ maxEventName := by
        by_contra h
        exact hno ⟨⟨by simp, fun _ _ => by omega, by simp [Block.added]⟩, by simp [Block.added]⟩
      rw [hstate]
      dsimp only
      rw [if_pos hlength]
      simp
    | some name =>
      have hstore : ¬((EventInfo.mk name word).Valid ∧
          (c.declareAll l.events).totalPublishEvents < maxEventsPerClient) := by
        rintro ⟨hv, hroom⟩
        exact hno ⟨⟨by simp, by simp, by simpa [Block.added] using hv⟩, fun _ => hroom⟩
      obtain ⟨ret, hstored, hret⟩ := storeDeclaredEvents_one_ne hstore
      have hscname : sc.eventName = name := hname _ hb _ rfl
      rw [hstate]
      dsimp only
      split
      · exact ⟨.inr ⟨_, s, rfl, by simp⟩, by simp⟩
      · rw [hl]
        dsimp only
        rw [hscname, hstored]
        rcases hret with rfl | rfl
        · exact ⟨.inr ⟨_, _, rfl, by simp⟩, by simp⟩
        · exact ⟨.inr ⟨_, _, rfl, by simp⟩, by simp⟩

end

/-! ### All words -/

/-- The loop can look at the word: `FTBCI_split_namespace` returns for it where an event space stands, and
it fits `einfo.event_name` where a name does. -/
def Harmless (l : Layout) (word : CStr) : Prop :=
  ∀ b ∈ l.block, word ≠ "end".toList →
    (b.eventSpace = none → splitNamespace word ≠ none) ∧
    (b.eventSpace.isSome = true → b.eventName = none → word.length < maxEventName)

/-- The loop comes to the end of the words. -/
structure Readable (clientId : ClientId) (c : ClientInfo) (words : List CStr) : Prop where
  short : ∀ word ∈ words, word.length < sizeofStr
  legible : Legible clientId c (layout words)

section
variable {words : List CStr} {word : CStr} {sc sc' : Scanner}

theorem scanWords_append_ok (h : scanWords handle words sc s = some (.ok sc', s')) :
    scanWords handle (words ++ [word]) sc s = scanWords handle [word] sc' s' := by
  induction words generalizing sc s with
  | nil =>
    cases h
    rfl
  | cons str words ih =>
    simp only [List.cons_append, scanWords] at h ⊢
    split at h
    · cases h
    · rename_i hlt
      rw [if_neg hlt]
      cases hstr : scanStr handle str sc s with
      | none => simp [hstr] at h
      | some r =>
        obtain ⟨ret | sc₁, s₁⟩ := r
        · simp [hstr] at h
        · rw [hstr] at h
          exact ih h

theorem scanWords_append_stop (h : ∀ sc' s', scanWords handle words sc s ≠ some (.ok sc', s')) :
    scanWords handle (words ++ [word]) sc s = scanWords handle words sc s := by
  induction words generalizing sc s with
  | nil => exact absurd rfl (h sc s)
  | cons str words ih =>
    simp only [List.cons_append, scanWords] at h ⊢
    split
    · rfl
    · rename_i hlt
      rw [if_neg hlt] at h
      cases hstr : scanStr handle str sc s with
      | none => rfl
      | some r =>
        obtain ⟨ret | sc₁, s₁⟩ := r
        · rfl
        · rw [hstr] at h
          exact ih h

/-- The word inside a block that does not end it. -/
theorem scanStr_inside {l : Layout} {b : Block} (hat : At l sc)
    (hl : lookupClientInfo handle s = some (.ok (c.declareAll l.events))) (hb : l.block = some b)
    (hw : word ≠ "end".toList) : scanStr handle word sc s ≠ none ↔
      (b.eventSpace = none → splitNamespace word ≠ none) ∧
        (b.eventSpace.isSome = true → b.eventName = none → word.length < maxEventName) := by
  obtain ⟨hstate, -, -⟩ := hat
  rw [Layout.state, hb] at hstate
  have hinside : ¬(sc.state = .init ∨ sc.state = .empty) := by
    rw [hstate]
    dsimp only
    split <;> simp
  rw [scanStr, if_neg hinside, if_neg (by simpa using hw)]
  obtain ⟨_ | eventSpace, events, eventName⟩ := b
  · rw [hstate]
    dsimp only
    split
    · rename_i hlength
      simp [splitNamespace, hlength]
    · cases hsplit : splitNamespace word with
      | none => simp
      | some parts =>
        cases parts with
        | error ret => simp
        | ok parts =>
          dsimp only
          split <;> simp
  cases eventName with
  | none =>
    rw [hstate]
    dsimp only
    split
    · rename_i hlong
      simpa using hlong
    · rename_i hshort
      simpa using hshort
  | some name =>
    rw [hstate]
    dsimp only
    split
    · simp
    · rw [hl]
      dsimp only
      split <;> simp

/-- The loop can look at a word exactly when it is harmless. -/
theorem scanStr_ne_none {l : Layout} (hat : At l sc)
    (hl : lookupClientInfo handle s = some (.ok (c.declareAll l.events))) :
    scanStr handle word sc s ≠ none ↔ Harmless l word := by
  by_cases ht : Takes handle.clientId (c.declareAll l.events) l word
  · obtain ⟨sc', s', hstr, -⟩ := scanStr_takes hat hl ht
    rw [hstr]
    refine iff_of_true (by simp) fun b hb hw => ⟨fun hspace => ?_, (ht b hb hw).1.eventName⟩
    obtain ⟨parts, hsplit, -⟩ := (ht b hb hw).1.own hspace
    simp [hsplit]
  · -- every word is taken outside of a block, and so is the end of one
    obtain ⟨b, hb⟩ : ∃ b, l.block = some b := by
      by_contra hno
      exact ht fun b hb => absurd ⟨b, hb⟩ hno
    have hw : word ≠ "end".toList := fun hw => ht fun _ _ h => absurd hw h
    rw [scanStr_inside hat hl hb hw]
    simp only [Harmless, hb, Option.mem_def, Option.some.injEq, forall_eq', ne_eq, hw,
      not_false_eq_true, true_imp_iff]

theorem readable_concat {clientId : ClientId} : Readable clientId c (words ++ [word]) ↔
    Readable clientId c words ∧ word.length < sizeofStr ∧
      Takes clientId (c.declareAll (layout words).events) (layout words) word := by
  constructor
  · rintro ⟨hshort, hleg⟩
    rw [layout_concat, legible_next] at hleg
    exact ⟨⟨fun w hw => hshort w (by simp [hw]), hleg.1⟩, hshort word (by simp), hleg.2⟩
  · rintro ⟨⟨hshort, hleg⟩, hlt, ht⟩
    refine ⟨fun w hw => ?_, by rw [layout_concat, legible_next]; exact ⟨hleg, ht⟩⟩
    rcases List.mem_append.1 hw with hw | hw
    · exact hshort w hw
    · rwa [List.mem_singleton.1 hw]

/-- Behind words that it can read the loop is in the state of their layout; other words end it. -/
theorem scanWords_layout (hl : lookupClientInfo handle s = some (.ok c)) (words : List CStr) :
    (Readable handle.clientId c words → ∃ sc s',
      scanWords handle words ⟨.empty, []⟩ s = some (.ok sc, s') ∧ At (layout words) sc ∧
        lookupClientInfo handle s' = some (.ok (c.declareAll (layout words).events))) ∧
    (¬Readable handle.clientId c words → scanWords handle words ⟨.empty, []⟩ s = none ∨
      ∃ ret s', scanWords handle words ⟨.empty, []⟩ s = some (.error ret, s') ∧ ret ≠ .success) := by
  induction words using List.reverseRecOn with
  | nil =>
    have hempty : Readable handle.clientId c [] :=
      ⟨by simp, (legible_of_none rfl).2 ⟨by simp [layout], by simp [layout, Room]⟩⟩
    exact ⟨fun _ => ⟨_, s, rfl, ⟨rfl, by simp [layout], by simp [layout]⟩, hl⟩,
      fun h => absurd hempty h⟩
  | append_singleton words word ih =>
    rw [readable_concat, layout_concat]
    by_cases hr : Readable handle.clientId c words
    · obtain ⟨sc, s₁, hscan, hat, hl₁⟩ := ih.1 hr
      rw [scanWords_append_ok hscan, scanWords]
      by_cases hlt : word.length < sizeofStr
      · rw [if_neg (by omega)]
        by_cases ht : Takes handle.clientId (c.declareAll (layout words).events) (layout words) word
        · obtain ⟨sc', s', hstr, hat', hl'⟩ := scanStr_takes hat hl₁ ht
          rw [hstr]
          exact ⟨fun _ => ⟨sc', s', rfl, hat', hl'⟩, fun h => absurd ⟨hr, hlt, ht⟩ h⟩
        · refine ⟨fun h => absurd h.2.2 ht, fun _ => ?_⟩
          rcases (scanStr_refuses hat hl₁ ht).1 with hstr | ⟨ret, s', hstr, hret⟩
          · rw [hstr]
            exact .inl rfl
          · rw [hstr]
            exact .inr ⟨ret, s', rfl, hret⟩
      · rw [if_pos (by omega)]
        exact ⟨fun h => absurd h.2.1 hlt, fun _ => .inl rfl⟩
    · have hstop := ih.2 hr
      rw [scanWords_append_stop]
      · exact ⟨fun h => absurd h.1 hr, fun _ => hstop⟩
      · intro sc' s' h
        rcases hstop with hno | ⟨ret, s₁, hno, -⟩ <;> rw [hno] at h <;> cases h

/-- The loop returns for words that it reads exactly when it can look at every word that it comes to. -/
theorem scanWords_ne_none (hl : lookupClientInfo handle s = some (.ok c)) (words : List CStr) :
    scanWords handle words ⟨.empty, []⟩ s ≠ none ↔ ∀ pre word post, words = pre ++ word :: post →
      Readable handle.clientId c pre → word.length < sizeofStr ∧ Harmless (layout pre) word := by
  induction words using List.reverseRecOn with
  | nil => simp [scanWords]
  | append_singleton words word ih =>
    have hconcat : ∀ {P : List CStr → CStr → Prop},
        (∀ pre x post, words ++ [word] = pre ++ x :: post → P pre x) ↔
          (∀ pre x post, words = pre ++ x :: post → P pre x) ∧ P words word := by
      refine fun {P} => ⟨fun h => ⟨fun pre x post heq => h pre x (post ++ [word]) (by simp [heq]),
        h words word [] rfl⟩, fun h pre x post heq => ?_⟩
      rcases Trace.split_concat heq with ⟨rfl, rfl, rfl⟩ | ⟨post, rfl, rfl⟩
      · exact h.2
      · exact h.1 pre x post rfl
    rw [hconcat, ← ih]
    by_cases hr : Readable handle.clientId c words
    · obtain ⟨sc, s₁, hscan, hat, hl₁⟩ := (scanWords_layout hl words).1 hr
      rw [scanWords_append_ok hscan, hscan, and_iff_right (by simp), imp_iff_right hr, scanWords,
        ← scanStr_ne_none hat hl₁]
      split
      · rename_i hlong
        exact iff_of_false (by simp) fun h => absurd h.1 (by omega)
      · rename_i hlt
        rw [and_iff_right (by omega)]
        rcases scanStr handle word sc s₁ with _ | ⟨ret | sc, s'⟩ <;> simp [scanWords]
    · rw [and_iff_left fun h => absurd h hr, scanWords_append_stop]
      intro sc' s' h
      rcases (scanWords_layout hl words).2 hr with hno | ⟨ret, s₁, hno, -⟩ <;> rw [hno] at h <;>
        cases h

/-! ### The whole text -/

/-- The code that the loop ends with behind words of that layout. -/
def Layout.ret (l : Layout) : Ret :=
  if l.blocks ≠ [] ∧ l.block = none then .success else .errInvalidSchemaFile

theorem scanEnd_state (l : Layout) : scanEnd l.state = l.ret := by
  obtain ⟨_ | ⟨b, blocks⟩, _ | ⟨_ | eventSpace, events, _ | eventName⟩⟩ := l <;> rfl

/-- The last word changes nothing if it is read or not. -/
def Idle (clientId : ClientId) (c : ClientInfo) (l : Layout) (word : CStr) : Prop :=
  (l.block = none → l.blocks = [] ∨ word ≠ "start".toList) ∧
  ∀ b ∈ l.block, word ≠ "end".toList ∧
    (Takes clientId c l word ∨ b.eventSpace = none ∧ splitNamespace word ≠ none)

/-- Every word that the loop comes to fits `str`, and the loop can look at it unless it is a last word
without a space behind it. -/
def Defined (clientId : ClientId) (c : ClientInfo) (text : CStr) : Prop :=
  ∀ pre word post, Words.words isSpace text = pre ++ word :: post → Readable clientId c pre →
    word.length < sizeofStr ∧ (Words.Whole isSpace text ∨ post ≠ [] → Harmless (layout pre) word)

/-- Where `FTBCI_check_schema_file` returns and does what the grammar says. -/
structure Plain (clientId : ClientId) (c : ClientInfo) (text : CStr) : Prop where
  defined : Defined clientId c text
  lastWord : ¬Words.Whole isSpace text → ∀ words word, Words.words isSpace text = words ++ [word] →
    Readable clientId c words → word.length < sizeofStr →
      Idle clientId (c.declareAll (layout words).events) (layout words) word
  complete : Readable clientId c (Words.words isSpace text) →
    (layout (Words.words isSpace text)).ret = .success →
      ∀ b ∈ (layout (Words.words isSpace text)).blocks, b.Complete
  room : Grammar clientId c (Words.words isSpace text) →
    (∀ word ∈ Words.words isSpace text, word.length < sizeofStr) ∧
      Room c (layout (Words.words isSpace text)).events

theorem ret_next (l : Layout) (word : CStr) : (l.next word).ret = l.ret ↔
    (l.block = none → l.blocks = [] ∨ word ≠ "start".toList) ∧
      ∀ b ∈ l.block, word ≠ "end".toList := by
  cases hb : l.block with
  | none =>
    by_cases hw : word = "start".toList
    · rw [hw, next_start hb]
      simp [Layout.ret, hb]
    · rw [next_stray hb hw]
      exact ⟨fun _ => ⟨fun _ => .inr hw, by simp⟩, fun _ => rfl⟩
  | some b =>
    by_cases hw : word = "end".toList
    · rw [hw, next_end hb]
      simp [Layout.ret, hb]
    · rw [next_word hb hw, Layout.ret, if_neg (by simp), Layout.ret, if_neg (by simp [hb])]
      exact ⟨fun _ => ⟨by simp, fun _ _ => hw⟩, fun _ => rfl⟩

theorem ret_of_some {l : Layout} {b : Block} (h : l.block = some b) :
    l.ret = .errInvalidSchemaFile := by
  simp [Layout.ret, h]

/-- Whether it makes a difference if the last word is read. -/
theorem idle_iff {l : Layout} (hat : At l sc)
    (hl : lookupClientInfo handle s = some (.ok (c.declareAll l.events)))
    (hlt : word.length < sizeofStr) :
    (dropLast word (some (.ok sc, s))).map Prod.fst =
        (scanned (scanWords handle [word] sc s)).map Prod.fst ↔
      Idle handle.clientId (c.declareAll l.events) l word := by
  have hleft : dropLast word (some (.ok sc, s)) = some (l.ret, s) := by
    rw [dropLast, if_neg (by omega), hat.state, scanEnd_state]
  rw [hleft, scanWords, if_neg (by omega), Option.map_some]
  by_cases ht : Takes handle.clientId (c.declareAll l.events) l word
  · obtain ⟨sc', s', hstr, hat', -⟩ := scanStr_takes hat hl ht
    have hright : scanned (some (.ok sc', s')) = some ((l.next word).ret, s') := by
      rw [scanned, hat'.state, scanEnd_state]
    rw [hstr]
    simp only [scanWords]
    rw [hright, Option.map_some, Option.some.injEq, eq_comm, ret_next, Idle]
    simp [ht]
  · obtain ⟨hstop, hinvalid⟩ := scanStr_refuses hat hl ht
    obtain ⟨b, hb⟩ : ∃ b, l.block = some b := by
      by_contra hno
      exact ht fun b hb => absurd ⟨b, hb⟩ hno
    have hw : word ≠ "end".toList := fun hw => ht fun _ _ h => absurd hw h
    have hidle : Idle handle.clientId (c.declareAll l.events) l word ↔
        ∃ b ∈ l.block, b.eventSpace = none ∧ splitNamespace word ≠ none := by
      rw [Idle, hb, and_iff_right (by simp)]
      simp only [Option.mem_def, Option.some.injEq, forall_eq', exists_eq_left', ht, false_or]
      exact and_iff_right hw
    rw [hidle, ← hinvalid, ret_of_some hb]
    rcases hstop with hstr | ⟨ret, s', hstr, -⟩
    · rw [hstr]
      simp [scanned]
    · rw [hstr]
      simp [scanned, eq_comm]

/-! ### Acceptance -/

theorem ret_eq_success {l : Layout} : l.ret = .success ↔ l.blocks ≠ [] ∧ l.block = none := by
  simp [Layout.ret]

theorem grammar_of_readable {clientId : ClientId} (hr : Readable clientId c words)
    (hret : (layout words).ret = .success) (hcomplete : ∀ b ∈ (layout words).blocks, b.Complete) :
    Grammar clientId c words := by
  obtain ⟨hblocks, hclosed⟩ := ret_eq_success.1 hret
  have hstarted : (layout words).started = (layout words).blocks := by
    rw [Layout.started, hclosed, Option.toList_none, List.append_nil]
  have hleg := hr.legible.blocks
  rw [hstarted] at hleg
  refine ⟨hblocks, hclosed, hcomplete, fun b hb => (hleg b hb).own, fun e he => ?_,
    fun pre e post heq _ => hr.legible.room pre e post heq⟩
  rw [Layout.events, hstarted, List.mem_flatMap] at he
  obtain ⟨b, hb, he⟩ := he
  exact (hleg b hb).valid e he

theorem Grammar.readable_iff {clientId : ClientId} (h : Grammar clientId c words) :
    Readable clientId c words ↔
      (∀ word ∈ words, word.length < sizeofStr) ∧ Room c (layout words).events := by
  refine ⟨fun hr => ⟨hr.short, hr.legible.room⟩, fun ⟨hshort, hroom⟩ => ⟨hshort, ⟨?_, hroom⟩⟩⟩
  intro b hb
  have hvalid : ∀ e ∈ b.events, e.Valid := fun e he => h.valid e (List.mem_flatMap.2 ⟨b, hb, he⟩)
  rw [Layout.started, h.closed, Option.toList_none, List.append_nil] at hb
  refine ⟨h.own b hb, hvalid, fun name hname => ?_⟩
  rw [(h.complete b hb).2] at hname
  cases hname

/-- The loop accepts what the grammar does, unless a block is not complete, or there is no room. -/
theorem accepts_iff {clientId : ClientId} :
    (Readable clientId c words ∧ (layout words).ret = .success ↔ Grammar clientId c words) ↔
      (Readable clientId c words → (layout words).ret = .success →
        ∀ b ∈ (layout words).blocks, b.Complete) ∧
      (Grammar clientId c words →
        (∀ word ∈ words, word.length < sizeofStr) ∧ Room c (layout words).events) := by
  constructor
  · intro h
    refine ⟨fun hr hret => (h.1 ⟨hr, hret⟩).complete, fun hg => ?_⟩
    exact hg.readable_iff.1 (h.2 hg).1
  · rintro ⟨hcomplete, hroom⟩
    refine ⟨fun ⟨hr, hret⟩ => grammar_of_readable hr hret (hcomplete hr hret), fun hg => ?_⟩
    exact ⟨hg.readable_iff.2 (hroom hg), ret_eq_success.2 ⟨hg.blocks, hg.closed⟩⟩

/-- The words are read, and the loop ends behind the last block. -/
theorem scanned_success (hl : lookupClientInfo handle s = some (.ok c)) :
    (∃ s', scanned (scanWords handle words ⟨.empty, []⟩ s) = some (.success, s')) ↔
      Readable handle.clientId c words ∧ (layout words).ret = .success := by
  by_cases hr : Readable handle.clientId c words
  · obtain ⟨sc, s', hscan, hat, -⟩ := (scanWords_layout hl words).1 hr
    rw [hscan]
    simp [scanned, hat.state, scanEnd_state, hr]
  · refine iff_of_false ?_ fun h => hr h.1
    rintro ⟨s', h⟩
    rcases (scanWords_layout hl words).2 hr with hscan | ⟨ret, s₁, hscan, hret⟩
    · rw [hscan] at h
      cases h
    · rw [hscan] at h
      cases h
      exact hret rfl

end

/-! ## The result -/

section
variable {text : CStr}

theorem checkSchemaFile_whole (h : Words.Whole isSpace text) : checkSchemaFile handle text s =
    scanned (scanWords handle (Words.words isSpace text) ⟨.empty, []⟩ s) :=
  (scanLoop_eq (Nat.lt_succ_self _) _ s).1 h

theorem checkSchemaFile_cut (h : ¬Words.Whole isSpace text) {words : List CStr} {word : CStr}
    (heq : Words.words isSpace text = words ++ [word]) :
    checkSchemaFile handle text s = dropLast word (scanWords handle words ⟨.empty, []⟩ s) :=
  (scanLoop_eq (Nat.lt_succ_self _) _ s).2 h words word heq

theorem checkSchemaFile_spaced :
    checkSchemaFile handle (Words.spaced ' ' (Words.words isSpace text)) s =
      scanned (scanWords handle (Words.words isSpace text) ⟨.empty, []⟩ s) := by
  have hspace : isSpace ' ' = true := by decide
  rw [checkSchemaFile_whole (Words.whole_spaced hspace _),
    Words.words_spaced hspace fun w hw => Words.blank_of_mem_words hw]

theorem exists_last (h : ¬Words.Whole isSpace text) :
    ∃ words word, Words.words isSpace text = words ++ [word] := by
  rcases List.eq_nil_or_concat (Words.words isSpace text) with hnil | ⟨words, word, heq⟩
  · exact absurd hnil (Words.words_ne_nil h)
  · exact ⟨words, word, by rw [heq, List.concat_eq_append]⟩

theorem scanned_ne_none {r : Option (Except Ret Scanner × Lib N)} : scanned r ≠ none ↔ r ≠ none := by
  rcases r with _ | ⟨ret | sc, s⟩ <;> simp [scanned]

/-- The function returns. -/
theorem checkSchemaFile_ne_none (hl : lookupClientInfo handle s = some (.ok c)) :
    checkSchemaFile handle text s ≠ none ↔ Defined handle.clientId c text := by
  by_cases hwhole : Words.Whole isSpace text
  · rw [checkSchemaFile_whole hwhole, scanned_ne_none, scanWords_ne_none hl]
    simp only [Defined, hwhole, true_or, true_imp_iff]
  · obtain ⟨words, word, heq⟩ := exists_last hwhole
    have hdefined : Defined handle.clientId c text ↔
        (∀ pre x post, words = pre ++ x :: post → Readable handle.clientId c pre →
          x.length < sizeofStr ∧ Harmless (layout pre) x) ∧
        (Readable handle.clientId c words → word.length < sizeofStr) := by
      simp only [Defined, heq, hwhole, false_or]
      constructor
      · refine fun h => ⟨fun pre x post hpre hr => ?_, fun hr => (h words word [] rfl hr).1⟩
        obtain ⟨hlt, hharmless⟩ := h pre x (post ++ [word]) (by simp [hpre]) hr
        exact ⟨hlt, hharmless (by simp)⟩
      · rintro ⟨h, hlast⟩ pre x post hpre hr
        rcases Trace.split_concat hpre with ⟨rfl, rfl, rfl⟩ | ⟨post, rfl, rfl⟩
        · exact ⟨hlast hr, fun hne => absurd rfl hne⟩
        · obtain ⟨hlt, hharmless⟩ := h pre x post rfl hr
          exact ⟨hlt, fun _ => hharmless⟩
    rw [checkSchemaFile_cut hwhole heq, hdefined, ← scanWords_ne_none hl]
    by_cases hr : Readable handle.clientId c words
    · obtain ⟨sc, s', hscan, -⟩ := (scanWords_layout hl words).1 hr
      rw [hscan, dropLast, imp_iff_right hr, and_iff_right (by simp)]
      split
      · rename_i hlong
        exact iff_of_false (by simp) (by omega)
      · rename_i hlt
        exact iff_of_true (by simp) (by omega)
    · rw [and_iff_left fun h => absurd h hr]
      rcases (scanWords_layout hl words).2 hr with hscan | ⟨ret, s₁, hscan, -⟩ <;> rw [hscan] <;>
        simp [dropLast, scanned]

theorem dropLast_success {word : CStr} {r : Option (Except Ret Scanner × Lib N)}
    (h : dropLast word r = some (.success, s')) : scanned r = some (.success, s') := by
  rcases r with _ | ⟨ret | sc, s⟩
  · exact h
  · exact h
  · rw [dropLast] at h
    split at h
    · cases h
    · exact h

/-- The result is that for the words alone unless the last word is lost. -/
theorem words_iff (hl : lookupClientInfo handle s = some (.ok c)) :
    ((checkSchemaFile handle text s).map Prod.fst =
      (checkSchemaFile handle (Words.spaced ' ' (Words.words isSpace text)) s).map Prod.fst) ↔
    (¬Words.Whole isSpace text → ∀ words word, Words.words isSpace text = words ++ [word] →
      Readable handle.clientId c words → word.length < sizeofStr →
        Idle handle.clientId (c.declareAll (layout words).events) (layout words) word) := by
  rw [checkSchemaFile_spaced]
  by_cases hwhole : Words.Whole isSpace text
  · rw [checkSchemaFile_whole hwhole]
    exact ⟨fun _ h => absurd hwhole h, fun _ => rfl⟩
  rw [imp_iff_right hwhole]
  obtain ⟨words, word, heq⟩ := exists_last hwhole
  rw [checkSchemaFile_cut hwhole heq, heq]
  have honly : ∀ {P : List CStr → CStr → Prop},
      (∀ words' word', words ++ [word] = words' ++ [word'] → P words' word') ↔ P words word := by
    refine fun {P} => ⟨fun h => h _ _ rfl, fun h words' word' heq' => ?_⟩
    obtain ⟨rfl, hword⟩ := List.append_inj' heq' rfl
    cases hword
    exact h
  rw [honly]
  by_cases hr : Readable handle.clientId c words
  · rw [imp_iff_right hr]
    obtain ⟨sc, s', hscan, hat, hl'⟩ := (scanWords_layout hl words).1 hr
    rw [scanWords_append_ok hscan, hscan]
    by_cases hlt : word.length < sizeofStr
    · rw [imp_iff_right hlt]
      exact idle_iff hat hl' hlt
    · refine iff_of_true ?_ fun h => absurd h hlt
      rw [dropLast, scanWords, if_pos (by omega), if_pos (by omega)]
      rfl
  · refine iff_of_true ?_ fun h => absurd h hr
    rcases (scanWords_layout hl words).2 hr with hscan | ⟨ret, s₁, hscan, -⟩
    · rw [scanWords_append_stop (by simp [hscan]), hscan]
      rfl
    · rw [scanWords_append_stop (by simp [hscan]), hscan]
      rfl

theorem success_map {o : Option (Ret × Lib N)} :
    (∃ s', o = some (.success, s')) ↔ o.map Prod.fst = some .success := by
  constructor
  · rintro ⟨s', rfl⟩
    rfl
  · intro h
    obtain ⟨⟨ret, s'⟩, rfl, rfl⟩ := Option.map_eq_some_iff.1 h
    exact ⟨s', rfl⟩

/-- Behind a success the client has the events of the file. -/
theorem checkSchemaFile_success (hl : lookupClientInfo handle s = some (.ok c))
    (h : checkSchemaFile handle text s = some (.success, s')) :
    lookupClientInfo handle s' =
      some (.ok (c.declareAll (layout (Words.words isSpace text)).events)) := by
  have hscanned : ∀ {words : List CStr},
      scanned (scanWords handle words ⟨.empty, []⟩ s) = some (.success, s') →
      (layout words).ret = .success ∧
        lookupClientInfo handle s' = some (.ok (c.declareAll (layout words).events)) := by
    intro words hs
    obtain ⟨hr, hret⟩ := (scanned_success hl).1 ⟨s', hs⟩
    obtain ⟨sc, s₁, hscan, hat, hl₁⟩ := (scanWords_layout hl words).1 hr
    rw [hscan, scanned, hat.state, scanEnd_state, Option.some.injEq, Prod.mk.injEq] at hs
    exact ⟨hret, hs.2 ▸ hl₁⟩
  by_cases hwhole : Words.Whole isSpace text
  · rw [checkSchemaFile_whole hwhole] at h
    exact (hscanned h).2
  obtain ⟨words, word, heq⟩ := exists_last hwhole
  rw [checkSchemaFile_cut hwhole heq] at h
  obtain ⟨hret, hl'⟩ := hscanned (dropLast_success h)
  -- no block is open before the last word
  obtain ⟨-, hclosed⟩ := ret_eq_success.1 hret
  rw [heq, layout_concat, events_next_of_none hclosed, hl']

/-- **`FTBCI_check_schema_file` returns for a text and does what the grammar says exactly if it can look
at the words that it comes to, the last word makes no difference, every block of a file that it accepts
is complete, and there is room for the words and events of a file that the grammar accepts.** -/
theorem readsSchema_iff (hl : lookupClientInfo handle s = some (.ok c)) :
    ReadsSchema handle c text s ↔ Plain handle.clientId c text := by
  have hspaced : _ ↔ Readable handle.clientId c (Words.words isSpace text) ∧ _ :=
    scanned_success hl
  rw [← checkSchemaFile_spaced, success_map] at hspaced
  constructor
  · rintro ⟨htotal, hwords, hsuccess, -⟩
    have haccepts := hsuccess
    rw [success_map, hwords, hspaced] at haccepts
    obtain ⟨hcomplete, hroom⟩ := accepts_iff.1 haccepts
    exact ⟨(checkSchemaFile_ne_none hl).1 htotal, (words_iff hl).1 hwords, hcomplete, hroom⟩
  · rintro ⟨hdefined, hlast, hcomplete, hroom⟩
    have hwords := (words_iff (s := s) hl).2 hlast
    refine ⟨(checkSchemaFile_ne_none hl).2 hdefined, hwords, ?_,
      fun s' h => checkSchemaFile_success hl h⟩
    rw [success_map, hwords, hspaced]
    exact accepts_iff.2 ⟨hcomplete, hroom⟩

end

/-! ### Files of a client -/

def simpleSchema : CStr :=
  "start\nFTB.FTB_EXAMPLES.SIMPLE\nSIMPLE_EVENT info\nend\n".toList

/-- The code that the client gets for a text. -/
def schemaRet (text : CStr) (r : ClientHandle × Lib (List Msg)) : Option Ret :=
  (checkSchemaFile r.1 text r.2).map Prod.fst

def hasClient (r : ClientHandle × Lib (List Msg)) : Bool :=
  match lookupClientInfo r.1 r.2 with
  | some (.ok _) => true
  | _ => false

theorem hasClient_iff {s : Lib (List Msg)} :
    hasClient (handle, s) = true ↔ ∃ c, lookupClientInfo handle s = some (.ok c) := by
  simp only [hasClient]
  split
  · rename_i c hl
    simp [hl]
  · rename_i hno
    simp only [Bool.false_eq_true, false_iff, not_exists]
    exact hno

/-- The block of the file. -/
def simpleBlock : Block :=
  ⟨some "FTB.FTB_EXAMPLES.SIMPLE".toList, [⟨"SIMPLE_EVENT".toList, "info".toList⟩], none⟩

/-- The file declares the event of the client, and is read as the grammar says. -/
theorem readsSchema_iff_simple : ∃ handle s c s', FTBC.simpleRun = some (handle, s) ∧
    lookupClientInfo handle s = some (.ok c) ∧
    checkSchemaFile handle simpleSchema s = some (.success, s') ∧
    lookupClientInfo handle s' = some (.ok (c.declareAll simpleBlock.events)) ∧
    ReadsSchema handle c simpleSchema s := by
  have hany : (FTBC.simpleRun.any fun r =>
      hasClient r && schemaRet simpleSchema r = some .success) = true := by decide +kernel
  obtain ⟨⟨handle, s⟩, hrun, hr⟩ := (Option.any_eq_true _ _).1 hany
  rw [Bool.and_eq_true, decide_eq_true_eq] at hr
  obtain ⟨c, hl⟩ := hasClient_iff.1 hr.1
  obtain ⟨s', hs'⟩ := success_map.2 hr.2
  have hwhole : Words.Whole isSpace simpleSchema := fun a ha => by
    have hlast : simpleSchema.getLast? = some '\n' := by decide +kernel
    cases hlast.symm.trans ha
    decide
  have hlayout : layout (Words.words isSpace simpleSchema) = ⟨[simpleBlock], none⟩ := by
    decide +kernel
  have hscanned := hs'
  rw [checkSchemaFile_whole hwhole] at hscanned
  obtain ⟨hread, -⟩ := (scanned_success hl).1 ⟨s', hscanned⟩
  have hreads : ReadsSchema handle c simpleSchema s := (readsSchema_iff hl).2
    { defined := (checkSchemaFile_ne_none hl).1 (by simp [hs'])
      lastWord := fun h => absurd hwhole h
      complete := fun _ _ => by simp [hlayout, Block.Complete, simpleBlock]
      room := fun hg => hg.readable_iff.1 hread }
  refine ⟨handle, s, c, s', hrun, hl, hs', ?_, hreads⟩
  rw [hreads.events s' hs', hlayout]
  rfl

/-- Without its last newline the file is refused, an empty block is accepted, and behind an event space
without dots the function has no result. -/
theorem lastWord_lost : ∃ handle s c, FTBC.simpleRun = some (handle, s) ∧
    lookupClientInfo handle s = some (.ok c) ∧ ¬ReadsSchema handle c simpleSchema.dropLast s ∧
      ¬ReadsSchema handle c "start end\n".toList s ∧
      ¬ReadsSchema handle c "start abc end\n".toList s := by
  have hany : (FTBC.simpleRun.any fun r => hasClient r &&
      schemaRet simpleSchema.dropLast r = some .errInvalidSchemaFile &&
      schemaRet (Words.spaced ' ' (Words.words isSpace simpleSchema.dropLast)) r = some .success &&
      schemaRet "start end\n".toList r = some .success &&
      (checkSchemaFile r.1 "start abc end\n".toList r.2).isNone) = true := by
    decide +kernel
  obtain ⟨⟨handle, s⟩, hrun, hr⟩ := (Option.any_eq_true _ _).1 hany
  simp only [Bool.and_eq_true, decide_eq_true_eq] at hr
  obtain ⟨⟨⟨⟨hclient, hcut⟩, hspaced⟩, hempty⟩, hnone⟩ := hr
  obtain ⟨c, hl⟩ := hasClient_iff.1 hclient
  refine ⟨handle, s, c, hrun, hl, fun h => ?_, fun h => ?_,
    fun h => h.total (Option.isNone_iff_eq_none.1 hnone)⟩
  · have hwords := h.words
    rw [schemaRet] at hcut hspaced
    rw [hcut, hspaced] at hwords
    cases hwords
  · have hgrammar := h.success.1 (success_map.2 hempty)
    have hblock : Block.empty ∈
        (layout (Words.words isSpace "start end\n".toList)).blocks := by decide +kernel
    cases (hgrammar.complete _ hblock).1

end FTBCI
