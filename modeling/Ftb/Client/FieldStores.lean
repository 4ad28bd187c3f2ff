import Ftb.Client.Tokens

/-!
# The fields of a subscription string (`pair` in `FTBCI_parse_subscription_string`)

The first loop of the parser stores the text before each comma, and the text behind the last one, in
the next slot of `pair`. The number of fields is compared with the length of `pair` behind the loop,
so the slots are those of the array for the strings of at most nine commas (`stores_bounded_iff`).
-/

open FTB CStr

namespace FTBCI

theorem length_strsep_snd {s rest : CStr} {delim : Char} (h : (strsep delim s).2 = some rest) :
    rest.length < s.length := by
  by_cases hs : delim ∈ s
  · obtain ⟨a, b, rfl, ha⟩ := List.eq_append_cons_of_mem hs
    rw [strsep_append ha] at h
    cases h
    rw [List.length_append, List.length_cons]
    omega
  · rw [strsep_of_not_mem hs] at h
    cases h

/-- The assignments `pair[i++] = strsep(&tempstr, ",")`: the slot, and the text. -/
def storeFields (i : Nat) (tempstr : CStr) : List (Nat × CStr) :=
  (i, (strsep ',' tempstr).1) ::
    match h : (strsep ',' tempstr).2 with
    | none => []
    | some rest => storeFields (i + 1) rest
termination_by tempstr.length
decreasing_by exact length_strsep_snd h

/-- The assignments of a call. An empty string is returned on before the loop; one behind the array
leaves no result (`parse_none_of_store`). -/
def fieldStores (subscriptionStr : CStr) : List (Nat × CStr) :=
  if subscriptionStr == [] then [] else storeFields 0 subscriptionStr

theorem storeFields_of_not_mem {s : CStr} (h : ',' ∉ s) (i : Nat) : storeFields i s = [(i, s)] := by
  rw [storeFields]
  split
  · rw [strsep_of_not_mem h]
  · rename_i rest hr
    rw [strsep_of_not_mem h] at hr
    cases hr

theorem storeFields_append {a : CStr} (h : ',' ∉ a) (b : CStr) (i : Nat) :
    storeFields i (a ++ ',' :: b) = (i, a) :: storeFields (i + 1) b := by
  rw [storeFields]
  split
  · rename_i hr
    rw [strsep_append h] at hr
    cases hr
  · rename_i rest hr
    rw [strsep_append h] at hr ⊢
    cases hr
    rfl

/-- **The loop stores the tokens**, in the slots from `i` on. -/
theorem storeFields_eq (s : CStr) (i : Nat) :
    (storeFields i s).map Prod.snd = tokens ',' s ∧
      (storeFields i s).map Prod.fst = List.range' i (s.count ',' + 1) := by
  induction s using cut_induction ',' generalizing i with
  | whole s h =>
    rw [storeFields_of_not_mem h, tokens_of_not_mem h, List.count_eq_zero.2 h]
    exact ⟨rfl, rfl⟩
  | cut a b ha ih =>
    obtain ⟨htext, hslot⟩ := ih (i + 1)
    have hcount : (a ++ ',' :: b).count ',' = b.count ',' + 1 := by
      rw [List.count_append, List.count_eq_zero.2 ha, List.count_cons_self]
      omega
    rw [storeFields_append ha, tokens_append ha, hcount, List.range'_succ, List.map_cons,
      List.map_cons, htext, hslot]
    exact ⟨rfl, rfl⟩

theorem fieldStores_lt_iff (s : CStr) :
    (∀ x ∈ fieldStores s, x.1 < maxSubscriptionFields) ↔ s.count ',' < maxSubscriptionFields := by
  unfold fieldStores
  by_cases hs : s = []
  · simp [hs, maxSubscriptionFields]
  · rw [if_neg (by simpa using hs)]
    have hslot := (storeFields_eq s 0).2
    have hall : (∀ x ∈ storeFields 0 s, x.1 < maxSubscriptionFields) ↔
        ∀ i ∈ (storeFields 0 s).map Prod.fst, i < maxSubscriptionFields := by
      rw [List.forall_mem_map]
    rw [hall, hslot]
    simp only [List.mem_range'_1]
    constructor
    · intro h
      exact h (s.count ',') (by omega)
    · intro h i hi
      omega

/-- Behind the array there is no result: the stack is overwritten. -/
theorem parse_none_of_store {s : CStr} {x : Nat × CStr} (hx : x ∈ fieldStores s)
    (hi : maxSubscriptionFields ≤ x.1) (track : UInt8) (ev : Event) :
    parseSubscriptionString (some s) track ev = none := by
  have hcount : maxSubscriptionFields ≤ s.count ',' := by
    by_contra hlt
    have h := (fieldStores_lt_iff s).2 (by omega) x hx
    omega
  have hs : s ≠ [] := by
    intro hs
    rw [hs] at hx
    cases hx
  have hlen := length_tokens ',' s
  have hreset : ∃ ev', checkSubscriptionValuePair [] [] track ev = some (.success, 1, ev') :=
    ⟨_, rfl⟩
  obtain ⟨ev', hr⟩ := hreset
  simp only [parseSubscriptionString, hr]
  rw [if_neg (by simpa using hs), if_pos (by omega)]

/-- What is asked of the splitting: only slots of `pair` are stored to, and a string of too many
fields is an error. -/
structure SplitsInBounds (s : CStr) (track : UInt8) (ev : Event) : Prop where
  slots : ∀ x ∈ fieldStores s, x.1 < maxSubscriptionFields
  rejects : maxSubscriptionFields < (tokens ',' s).length →
    ∃ track' m, parseSubscriptionString (some s) track ev = some (.errSubscriptionStr, track', m)

/-- **The splitting stays in bounds exactly on the strings of at most nine commas.** -/
theorem stores_bounded_iff (s : CStr) (track : UInt8) (ev : Event) :
    SplitsInBounds s track ev ↔ s.count ',' < maxSubscriptionFields := by
  constructor
  · intro h
    exact (fieldStores_lt_iff s).1 h.slots
  · intro h
    refine ⟨(fieldStores_lt_iff s).2 h, fun hmany => ?_⟩
    rw [length_tokens] at hmany
    omega

/-- Ten commas. -/
theorem slot_ten_stored : ¬∀ s track ev, SplitsInBounds s track ev := by
  intro h
  have hb := (fieldStores_lt_iff _).1 (h ",,,,,,,,,,".toList 0 default).slots
  exact absurd hb (by decide)

end FTBCI
