import Ftb.Manager.Ops

/-!
# What the functions of the manager library do to its tables

For every function the change it makes to `FTBMI_info`, as a function of `FTBMI_info` alone
(`registerInfo`, `subscribeInfo`, `cancelInfo`, `dropInfo`, `attachInfo`): the network decides only
which parent `utilReconnect` attaches. Everything the later proofs need of the tables is
`lists` after one removal (`lists_catchRemove`), after one insertion (`lists_catchAdd`) and
after the removals of a whole component (`lists_catchDrop`).
-/

open FTB FTBU FTBN

namespace FTBMI

/-! ## One mask of `catch_event_map` -/

/-- `utilRemoveComFromCatchMap` on `catch_event_map`. -/
def catchRemove (map : CatchEventMap) (id : Id) (mask : Event) : CatchEventMap :=
  match map.find? mask with
  | none => map
  | some ent =>
    if !ent.comps.contains id then map
    else
      let comps := ent.comps.erase id
      if comps.isEmpty then map.erase ent.mask
      else map.adjust mask (fun x => { x with comps }) fun _ => rfl

/-- The insertion of `FTBM_Register_subscription` into `catch_event_map`. -/
def catchAdd (map : CatchEventMap) (ref : CompRef) (mask : Event) : CatchEventMap :=
  match map.find? mask with
  | none => map.insert ⟨mask, KeyList.empty.insert ref⟩
  | some ent =>
    if ent.comps.contains ref.id then map
    else map.adjust mask (fun x => { x with comps := ent.comps.insert ref }) fun _ => rfl

theorem lists_eq_false_of_find?_none {map : CatchEventMap} {mask : Event}
    (h : map.find? mask = none) (i : Id) : lists map i mask = false := by
  simp [lists, h]

theorem lists_eq_contains {map : CatchEventMap} {mask : Event} {ent : CatchEntry}
    (h : map.find? mask = some ent) (i : Id) : lists map i mask = ent.comps.contains i := by
  simp [lists, h]

theorem mem_insert_entry {map : CatchEventMap} {mask : Event} (h : map.find? mask = none)
    (comps : CompMap) (e : CatchEntry) :
    e ∈ (map.insert ⟨mask, comps⟩).nodes ↔ e ∈ map.nodes ∨ e = ⟨mask, comps⟩ := by
  have hc : map.contains (CatchEntry.mask ⟨mask, comps⟩) = false := KeyList.contains_eq_false h
  exact KeyList.mem_insert hc

theorem contains_erase (m : CompMap) (i j : Id) :
    (m.erase i).contains j = (m.contains j && !isEqualFtbId i j) := by
  rw [Bool.eq_iff_iff, KeyList.contains_eq_isSome, KeyList.find?_erase_isSome, Bool.and_eq_true,
    KeyList.contains_eq_isSome, Bool.not_eq_true']

/-- The lookup of a mask in a map whose entries under `mask` were replaced. -/
theorem lists_adjust {map : CatchEventMap} {mask : Event} {ent : CatchEntry}
    (h : map.find? mask = some ent) (comps : CompMap) (i : Id) (m : Event) :
    lists (map.adjust mask (fun x => { x with comps }) fun _ => rfl) i m =
      if isEqualEventMask mask m then comps.contains i else lists map i m := by
  unfold lists
  rw [KeyList.find?_adjust]
  by_cases hm : isEqualEventMask mask m = true
  · rw [← KeyList.find?_congr hm, h, if_pos hm]
    simp [(KeyList.mem_of_find? h).2]
  · rw [if_neg hm]
    cases hf : map.find? m with
    | none => rfl
    | some x =>
      have hx : isEqualEventMask x.mask mask = false := by
        rw [KeyEq.congr_left (KeyList.mem_of_find? hf).2, KeyEq.comm isEqualEventMask]
        exact Bool.eq_false_iff.2 hm
      simp [hx]

/-- **A removal takes away the component under the mask, and nothing else.** -/
theorem lists_catchRemove (map : CatchEventMap) (id : Id) (mask : Event) (i : Id) (m : Event) :
    lists (catchRemove map id mask) i m =
      (lists map i m && !(isEqualFtbId id i && isEqualEventMask mask m)) := by
  by_cases hk : isEqualEventMask mask m = true
  · rw [hk, Bool.and_true]
    unfold catchRemove
    cases hf : map.find? mask with
    | none =>
      have hm : lists map i m = false := by
        rw [← lists_congr (KeyEq.refl i) hk]
        exact lists_eq_false_of_find?_none hf i
      simp [hm]
    | some ent =>
      have hm : ∀ j, lists map j m = ent.comps.contains j := fun j => by
        rw [← lists_congr (KeyEq.refl j) hk]
        exact lists_eq_contains hf j
      rw [hm]
      simp only
      split
      · rename_i hc
        rw [hm]
        by_cases hi : isEqualFtbId id i = true
        · have hci : ent.comps.contains i = false := by
            rw [KeyList.contains_eq_isSome, ← KeyList.find?_congr hi, ← KeyList.contains_eq_isSome]
            simpa using hc
          simp [hci]
        · simp [hi]
      · rename_i hc
        rw [← contains_erase]
        split
        · rename_i he
          have hn : (map.erase ent.mask).find? m = none := by
            rw [← Option.not_isSome_iff_eq_none, KeyList.find?_erase_isSome,
              KeyEq.trans (KeyList.mem_of_find? hf).2 hk]
            simp
          rw [lists_eq_false_of_find?_none hn]
          simp [KeyList.contains, KeyList.isEmpty_iff.1 he]
        · rw [lists_adjust hf, if_pos hk]
  · have hk' : isEqualEventMask mask m = false := Bool.eq_false_iff.2 hk
    rw [hk', Bool.and_false, Bool.not_false, Bool.and_true]
    unfold catchRemove
    cases hf : map.find? mask with
    | none => rfl
    | some ent =>
      simp only
      split
      · rfl
      · split
        · have hne : isEqualEventMask ent.mask m = false := by
            rw [KeyEq.congr_left (KeyList.mem_of_find? hf).2]
            exact hk'
          rw [Bool.eq_iff_iff, lists_iff, lists_iff]
          simp only [KeyList.mem_erase]
          refine ⟨fun ⟨e, he, hr⟩ => ⟨e, he.1, hr⟩, fun ⟨e, he, hm, hr⟩ => ⟨e, ⟨he, ?_⟩, hm, hr⟩⟩
          rw [KeyEq.congr_left hm, KeyEq.comm isEqualEventMask, hne]
        · rw [lists_adjust hf, if_neg hk]

/-- **An insertion adds the component under the mask, and nothing else.** -/
theorem lists_catchAdd (map : CatchEventMap) (ref : CompRef) (mask : Event) (i : Id) (m : Event) :
    lists (catchAdd map ref mask) i m =
      (lists map i m || (isEqualFtbId ref.id i && isEqualEventMask mask m)) := by
  unfold catchAdd
  cases hf : map.find? mask with
  | none =>
    rw [Bool.eq_iff_iff, Bool.or_eq_true, Bool.and_eq_true, lists_iff, lists_iff]
    refine ⟨?_, ?_⟩
    · intro ⟨e, he, hm, r, hr, hi⟩
      rcases (mem_insert_entry hf _ e).1 he with he | rfl
      · exact .inl ⟨e, he, hm, r, hr, hi⟩
      · have : r = ref := by rwa [KeyList.nodes_insert_empty, List.mem_singleton] at hr
        subst this
        exact .inr ⟨hi, hm⟩
    · intro h
      rcases h with ⟨e, he, hr⟩ | ⟨hi, hm⟩
      · exact ⟨e, (mem_insert_entry hf _ e).2 (.inl he), hr⟩
      · refine ⟨_, (mem_insert_entry hf _ _).2 (.inr rfl), hm, ref, ?_, hi⟩
        rw [KeyList.nodes_insert_empty, List.mem_singleton]
  | some ent =>
    by_cases hk : isEqualEventMask mask m = true
    · have hm : lists map i m = ent.comps.contains i := by
        rw [← lists_congr (KeyEq.refl i) hk]
        exact lists_eq_contains hf i
      have hins : (ent.comps.insert ref).contains i =
          (ent.comps.contains i || isEqualFtbId ref.id i) := by
        rw [Bool.eq_iff_iff, KeyList.contains_eq_isSome, KeyList.find?_insert_isSome',
          Bool.or_eq_true, KeyList.contains_eq_isSome]
      rw [hk, Bool.and_true, hm, ← hins]
      simp only
      split
      · rename_i hc
        rw [hm, KeyList.insert_of_contains hc]
      · rw [lists_adjust hf, if_pos hk]
    · have hk' : isEqualEventMask mask m = false := Bool.eq_false_iff.2 hk
      rw [hk', Bool.and_false, Bool.or_false]
      simp only
      split
      · rfl
      · rw [lists_adjust hf, if_neg hk]

/-! ## All masks of a component -/

/-- `utilCleanComponent` on `catch_event_map`. -/
def catchDrop (map : CatchEventMap) (comp : CompInfo) : CatchEventMap :=
  comp.catchEventSet.nodes.foldl (fun map mask => catchRemove map comp.id mask) map

theorem lists_foldl_catchRemove (id : Id) (i : Id) (m : Event) :
    ∀ (masks : List Event) (map : CatchEventMap),
      lists (masks.foldl (fun map mask => catchRemove map id mask) map) i m =
        (lists map i m && !(isEqualFtbId id i && masks.any fun mask => isEqualEventMask mask m))
  | [], map => by simp
  | mask :: masks, map => by
    rw [List.foldl_cons, lists_foldl_catchRemove id i m masks, lists_catchRemove, List.any_cons]
    cases lists map i m <;> cases isEqualFtbId id i <;> cases isEqualEventMask mask m <;> rfl

/-- Dropping a component takes it away under the masks of its set. -/
theorem lists_catchDrop (map : CatchEventMap) (comp : CompInfo) (i : Id) (m : Event) :
    lists (catchDrop map comp) i m =
      (lists map i m && !(isEqualFtbId comp.id i && comp.catchEventSet.contains m)) :=
  lists_foldl_catchRemove comp.id i m comp.catchEventSet.nodes map

/-! ## No entry without a component, and no component that was not there -/

/-- No mask has an empty component map. -/
def NoEmpty (map : CatchEventMap) : Prop := ∀ ent ∈ map.nodes, ent.comps.nodes ≠ []

/-- Every component of `map` satisfies `P`. -/
def AllRefs (P : CompRef → Prop) (map : CatchEventMap) : Prop :=
  ∀ ent ∈ map.nodes, ∀ r ∈ ent.comps.nodes, P r

theorem noEmpty_adjust {map : CatchEventMap} (h : NoEmpty map) (mask : Event) {comps : CompMap}
    (hc : comps.nodes ≠ []) :
    NoEmpty (map.adjust mask (fun x => { x with comps }) fun _ => rfl) := by
  intro e he
  obtain ⟨x, hx, rfl⟩ := KeyList.mem_adjust.1 he
  split
  · exact hc
  · exact h x hx

theorem allRefs_adjust {P : CompRef → Prop} {map : CatchEventMap} (h : AllRefs P map)
    (mask : Event) {comps : CompMap} (hc : ∀ r ∈ comps.nodes, P r) :
    AllRefs P (map.adjust mask (fun x => { x with comps }) fun _ => rfl) := by
  intro e he r hr
  obtain ⟨x, hx, rfl⟩ := KeyList.mem_adjust.1 he
  split at hr
  · exact hc r hr
  · exact h x hx r hr

theorem noEmpty_catchRemove {map : CatchEventMap} (h : NoEmpty map) (id : Id) (mask : Event) :
    NoEmpty (catchRemove map id mask) := by
  unfold catchRemove
  split
  · exact h
  · simp only
    split
    · exact h
    · split
      · exact fun e he => h e (KeyList.mem_of_mem_erase he)
      · rename_i he
        exact noEmpty_adjust h mask fun hn => he (KeyList.isEmpty_iff.2 hn)

theorem allRefs_catchRemove {P : CompRef → Prop} {map : CatchEventMap} (h : AllRefs P map)
    (id : Id) (mask : Event) : AllRefs P (catchRemove map id mask) := by
  unfold catchRemove
  split
  · exact h
  · rename_i ent hf
    simp only
    split
    · exact h
    · split
      · exact fun e he => h e (KeyList.mem_of_mem_erase he)
      · exact allRefs_adjust h mask fun r hr =>
          h ent (KeyList.mem_of_find? hf).1 r (KeyList.mem_of_mem_erase hr)

theorem noEmpty_catchAdd {map : CatchEventMap} (h : NoEmpty map) (ref : CompRef) (mask : Event) :
    NoEmpty (catchAdd map ref mask) := by
  unfold catchAdd
  split
  · rename_i hf
    intro e he
    rcases (mem_insert_entry hf _ e).1 he with he | rfl
    · exact h e he
    · exact KeyList.insert_nodes_ne_nil _ _
  · split
    · exact h
    · exact noEmpty_adjust h mask (KeyList.insert_nodes_ne_nil _ _)

theorem allRefs_catchAdd {P : CompRef → Prop} {map : CatchEventMap} (h : AllRefs P map)
    {ref : CompRef} (hr : P ref) (mask : Event) : AllRefs P (catchAdd map ref mask) := by
  unfold catchAdd
  split
  · rename_i hf
    intro e he r hm
    rcases (mem_insert_entry hf _ e).1 he with he | rfl
    · exact h e he r hm
    · rw [KeyList.nodes_insert_empty, List.mem_singleton] at hm
      exact hm ▸ hr
  · rename_i ent hf
    split
    · exact h
    · rename_i hc
      refine allRefs_adjust h mask fun r hm => ?_
      rcases (KeyList.mem_insert (Bool.eq_false_iff.2 hc)).1 hm with hm | rfl
      · exact h ent (KeyList.mem_of_find? hf).1 r hm
      · exact hr

theorem noEmpty_catchDrop {map : CatchEventMap} (h : NoEmpty map) (comp : CompInfo) :
    NoEmpty (catchDrop map comp) := by
  unfold catchDrop
  generalize comp.catchEventSet.nodes = masks
  induction masks generalizing map with
  | nil => exact h
  | cons mask masks ih => exact ih (noEmpty_catchRemove h _ mask)

theorem allRefs_catchDrop {P : CompRef → Prop} {map : CatchEventMap} (h : AllRefs P map)
    (comp : CompInfo) : AllRefs P (catchDrop map comp) := by
  unfold catchDrop
  generalize comp.catchEventSet.nodes = masks
  induction masks generalizing map with
  | nil => exact h
  | cons mask masks ih => exact ih (allRefs_catchRemove h _ mask)

/-- What a component map lists, `catch_event_map` lists. -/
theorem lists_of_mem {map : CatchEventMap} {ent : CatchEntry} (he : ent ∈ map.nodes) {r : CompRef}
    (hr : r ∈ ent.comps.nodes) : lists map r.id ent.mask = true :=
  lists_iff.2 ⟨ent, he, KeyEq.refl _, r, hr, KeyEq.refl _⟩

end FTBMI
