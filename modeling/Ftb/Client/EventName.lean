import Ftb.Client.Declare
import Ftb.Client.Rendering

/-!
# The event name of a filter

A declared event has a short name of letters, digits and underscores (`isEventName`). The parser of
subscription strings checks the length of an `event_name`, but the format of the attribute instead of
the value. So a declared name is accepted as a filter, and an accepted filter is a name that can be
declared if its value has the format (`eventName_declarable_iff`).
-/

open FTB FTBU CStr

namespace FTBCI

/-- The mask's event name is short. -/
def ShortName (ev : Event) : Prop := ev.eventName.length < maxEventName

theorem shortName_parseField {pair : CStr} {track track' : UInt8} {ev ev' : Event}
    (h : parseField pair track ev = some (.success, track', ev')) (hs : ShortName ev) :
    ShortName ev' := by
  obtain ⟨A, lhs, rhs, -, hstore, hA⟩ := parseField_success h
  by_cases he : A = .eventName
  · subst he
    unfold Attr.store at hstore
    dsimp only at hstore
    split at hstore <;> cases hstore
    rename_i hshort
    exact Nat.not_le.1 hshort
  · have hkept : ev'.eventName = ev.eventName :=
      List.singleton_inj.1 (hA.kept .eventName (Ne.symm he))
    rwa [ShortName, hkept]

theorem shortName_parseFields {pairs : List CStr} {track track' : UInt8} {ev m : Event}
    (h : parseFields pairs track ev = some (.success, track', m)) (hs : ShortName ev) :
    ShortName m := by
  induction pairs generalizing track ev with
  | nil =>
    cases h
    exact hs
  | cons pair pairs ih =>
    rw [parseFields] at h
    split at h
    · rename_i track₁ ev₁ hf
      exact ih h (shortName_parseField hf hs)
    · rename_i hne
      exact absurd h (hne _ _)

theorem shortName_of_parse {s : CStr} {track track' : UInt8} {ev m : Event}
    (h : parseSubscriptionString (some s) track ev = some (.success, track', m)) : ShortName m := by
  obtain ⟨ev', hc, hstored⟩ := stored_reset ev
  have hwild : ev'.eventName = all := by
    apply List.singleton_inj.1
    apply hstored.unset .eventName
    rintro ⟨v, hw⟩
    exact not_written_nil hw
  have hs : ShortName ev' := by
    rw [ShortName, hwild]
    decide
  simp only [parseSubscriptionString, hc] at h
  split at h
  · cases h
    exact hs
  · split at h
    · cases h
    · exact shortName_parseFields h hs

/-- The string `event_name=name`. -/
def nameFilter (name : CStr) : CStr := "event_name=".toList ++ name

/-- **Every name that can be declared is accepted as a filter**, and the mask asks for it. -/
theorem parse_nameFilter {name : CStr} (hne : name ≠ []) (hd : isEventName name = true)
    (track : UInt8) (ev : Event) : ∃ track' m,
      parseSubscriptionString (some (nameFilter name)) track ev = some (.success, track', m) ∧
        m.eventName = name := by
  rw [isEventName, Bool.and_eq_true, decide_eq_true_eq] at hd
  let f : FilterField :=
    ⟨.eventName, name, Attr.eventName.name, [], [], [], [], ⟨⟨hne, hd.2⟩, hd.1⟩, by decide,
      by decide⟩
  let sub : Subscription := ⟨[f], List.cons_ne_nil _ _, List.pairwise_singleton _ _⟩
  have hrender : sub.render = nameFilter name := by
    show List.intercalate [','] [f.text] = _
    rw [List.intercalate_singleton]
    show ([] ++ Attr.eventName.name ++ []) ++ '=' :: ([] ++ name ++ []) = _
    rw [List.append_nil, List.append_nil]
    rfl
  obtain ⟨track', m, hp, hm⟩ := parse_render sub track ev
  rw [hrender] at hp
  exact ⟨track', m, hp, List.singleton_inj.1 (hm.value (.eventName, name) List.mem_cons_self)⟩

/-- What is asked of an accepted mask: it asks for a name that can be declared, and every such name
can be asked for. -/
structure NamesAgree (m : Event) : Prop where
  declarable : isEventName m.eventName = true
  accepted : ∀ name, name ≠ [] → isEventName name = true → ∀ track ev, ∃ track' m,
    parseSubscriptionString (some (nameFilter name)) track ev = some (.success, track', m) ∧
      m.eventName = name

/-- **The two checks agree on an accepted string exactly if its event name has the format.** -/
theorem eventName_declarable_iff {s : CStr} {track track' : UInt8} {ev m : Event}
    (h : parseSubscriptionString (some s) track ev = some (.success, track', m)) :
    NamesAgree m ↔
      ∀ v, Written (written s) .eventName v → checkAlphanumericUnderscoreFormat v = true := by
  have hs := stored_of_parse h
  have hshort : m.eventName.length < maxEventName := shortName_of_parse h
  obtain ⟨hv, hu⟩ := hs.single (A := .eventName) (f := m.eventName) (fun _ => rfl) rfl rfl
  constructor
  · intro hagree v hw
    have hd := hagree.declarable
    rw [isEventName, Bool.and_eq_true, hv v hw] at hd
    exact hd.2
  · intro hw
    refine ⟨?_, fun name hne hd => parse_nameFilter hne hd⟩
    rw [isEventName, decide_eq_true hshort, Bool.true_and]
    by_cases hn : ∃ v, Written (written s) .eventName v
    · obtain ⟨v, hn⟩ := hn
      rw [hv v hn]
      exact hw v hn
    · rw [hu hn]
      decide

/-- The mask of one event name. -/
def nameMask (name : CStr) : Event :=
  { (default : Event) with
    severity := all, eventName := name, region := all, compCat := all, comp := all,
    clientJobid := all, clientName := all, hostname := all }

theorem eventName_declarable_iff_foo : NamesAgree (nameMask "foo".toList) ↔
    ∀ v, Written (written "event_name=foo".toList) .eventName v →
      checkAlphanumericUnderscoreFormat v = true := by
  have hparse : parseSubscriptionString (some "event_name=foo".toList) 0 default =
      some (.success, 33, nameMask "foo".toList) := by decide
  exact eventName_declarable_iff hparse

/-- A filter that no event can satisfy. -/
theorem dash_not_declarable : ¬∀ s track ev track' m,
    parseSubscriptionString (some s) track ev = some (.success, track', m) → NamesAgree m := by
  intro h
  have hd := (h "event_name=foo-bar".toList 0 default 33 (nameMask "foo-bar".toList)
    (by decide)).declarable
  exact absurd hd (by decide)

end FTBCI
