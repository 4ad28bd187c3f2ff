import Mathlib.Data.List.Basic
import Mathlib.Data.Finset.Lattice.Fold
import Mathlib.Logic.Function.Iterate

/-!
# Runs and histories

`Reachable init step`: the states that a step relation reaches. An invariant of its states is
proved once by `Reachable.invariant`; for a run of a partial function over a list of inputs the
same rule is `foldlM_invariant`.

`EveryState P run acts s`, `EveryStep Q run acts s`: all states, or all steps, of a run over the actions
`acts`. Where every good step keeps an invariant and every other step leaves the property, the
property holds along exactly the runs of good steps (`everyState_iff_everyStep`).

`runChoices step cs n s`: `n` steps from `s`, each with the next choice of the sequence `cs`;
`Follows`: every choice is allowed in the state it is made in. A set of states in which some allowed
choice always stays has an endless run (`exists_run_of_closed`); a set in which every run either
ends or gets smaller has none (`ends_of_decreasing`). Where every step gets smaller, the runs over
lists of inputs have a longest (`length_bounded`).

`Since P kill hist`: in the history `hist`, some event satisfied `P` (with the events before it
in view) and no event after it satisfied `kill`. A state that is updated event by event is
compared with such a predicate through `since_concat`.
-/

namespace Trace

universe u v

/-! ## Reachable states -/

section
variable {S : Type u}

inductive Reachable (init : S → Prop) (step : S → S → Prop) : S → Prop
  | init {s : S} : init s → Reachable init step s
  | step {s s' : S} : Reachable init step s → step s s' → Reachable init step s'

/-- What holds at the start and is kept by every step holds in every reachable state. -/
theorem Reachable.invariant {init : S → Prop} {step : S → S → Prop} {I : S → Prop}
    (hi : ∀ s, init s → I s) (hs : ∀ s s', I s → step s s' → I s') {s : S}
    (h : Reachable init step s) : I s := by
  induction h with
  | init h => exact hi _ h
  | step _ hst ih => exact hs _ _ ih hst

/-- The rule for a run over a list of inputs. -/
theorem foldlM_invariant {A : Type v} {f : S → A → Option S} {I : S → Prop}
    (hf : ∀ s x s', I s → f s x = some s' → I s') :
    ∀ (xs : List A) {s s' : S}, I s → xs.foldlM f s = some s' → I s' := by
  intro xs
  induction xs with
  | nil =>
    intro s s' h hr
    cases hr
    exact h
  | cons x xs ih =>
    intro s s' h hr
    rw [List.foldlM_cons] at hr
    obtain ⟨t, ht, hr⟩ := Option.bind_eq_some_iff.1 hr
    exact ih (hf s x t h ht) hr

end

/-! ## Runs over actions -/

section
variable {S : Type u} {A : Type v} {run : A → S → Option S}

/-- `P` holds in all states of the run. -/
def EveryState (P : S → Prop) (run : A → S → Option S) : List A → S → Prop
  | [], s => P s
  | a :: acts, s => P s ∧ ∀ s', run a s = some s' → EveryState P run acts s'

/-- `Q` holds of all steps of the run. -/
def EveryStep (Q : A → S → Prop) (run : A → S → Option S) : List A → S → Prop
  | [], _ => True
  | a :: acts, s => Q a s ∧ ∀ s', run a s = some s' → EveryStep Q run acts s'

instance decidableForallSome {P : S → Prop} [DecidablePred P] (o : Option S) :
    Decidable (∀ s, o = some s → P s) :=
  inferInstanceAs (Decidable (∀ s ∈ o, P s))

/-- Whether all steps of a given run are as they should be can be computed. -/
instance decidableEveryStep {Q : A → S → Prop} [∀ a s, Decidable (Q a s)] :
    ∀ (acts : List A) (s : S), Decidable (EveryStep Q run acts s)
  | [], _ => inferInstanceAs (Decidable True)
  | a :: acts, s =>
    have : DecidablePred fun s' => EveryStep Q run acts s' := decidableEveryStep acts
    inferInstanceAs (Decidable (Q a s ∧ ∀ s', run a s = some s' → EveryStep Q run acts s'))

theorem EveryState.head {P : S → Prop} {acts : List A} {s : S} (h : EveryState P run acts s) :
    P s := by
  cases acts with
  | nil => exact h
  | cons a acts => exact h.1

theorem EveryState.mono {P P' : S → Prop} (hp : ∀ s, P s → P' s) :
    ∀ {acts : List A} {s : S}, EveryState P run acts s → EveryState P' run acts s := by
  intro acts
  induction acts with
  | nil => exact fun h => hp _ h
  | cons a acts ih => exact fun h => ⟨hp _ h.1, fun s' hs' => ih (h.2 s' hs')⟩

/-- Good steps keep the invariant. -/
theorem everyState_of_everyStep {I : S → Prop} {good : A → S → Prop}
    (hgood : ∀ a s s', I s → good a s → run a s = some s' → I s') :
    ∀ {acts : List A} {s : S}, I s → EveryStep good run acts s → EveryState I run acts s := by
  intro acts
  induction acts with
  | nil => exact fun hi _ => hi
  | cons a acts ih =>
    exact fun hi h => ⟨hi, fun s' hs' => ih (hgood a _ s' hi h.1 hs') (h.2 s' hs')⟩

/-- A step that is not good leaves the property. -/
theorem everyState_iff_everyStep {I P : S → Prop} {good : A → S → Prop} (hp : ∀ s, I s → P s)
    (hgood : ∀ a s s', I s → good a s → run a s = some s' → I s')
    (hbad : ∀ a s, I s → ¬good a s → ∃ s', run a s = some s' ∧ ¬P s') :
    ∀ {acts : List A} {s : S}, I s → (EveryState P run acts s ↔ EveryStep good run acts s) := by
  intro acts
  induction acts with
  | nil => exact fun hi => iff_of_true (hp _ hi) trivial
  | cons a acts ih =>
    intro s hi
    by_cases hg : good a s
    · have hrest : ∀ s', run a s = some s' →
          (EveryState P run acts s' ↔ EveryStep good run acts s') :=
        fun s' hs' => ih (hgood a s s' hi hg hs')
      exact ⟨fun h => ⟨hg, fun s' hs' => (hrest s' hs').1 (h.2 s' hs')⟩,
        fun h => ⟨hp _ hi, fun s' hs' => (hrest s' hs').2 (h.2 s' hs')⟩⟩
    · obtain ⟨s', hs', hno⟩ := hbad a s hi hg
      exact iff_of_false (fun h => hno (h.2 s' hs').head) fun h => hg h.1

end

/-! ## Choices -/

section
variable {S : Type u} {C : Type v} {step : C → S → S} {allowed : C → S → Prop}

def runChoices (step : C → S → S) : (Nat → C) → Nat → S → S
  | _, 0, s => s
  | cs, n + 1, s => runChoices step (fun i => cs (i + 1)) n (step (cs 0) s)

/-- Every choice of the run is allowed where it is made. -/
def Follows (step : C → S → S) (allowed : C → S → Prop) (cs : Nat → C) (s : S) : Prop :=
  ∀ n, allowed (cs n) (runChoices step cs n s)

theorem runChoices_add (cs : Nat → C) (k n : Nat) (s : S) :
    runChoices step cs (k + n) s =
      runChoices step (fun i => cs (k + i)) n (runChoices step cs k s) := by
  induction k generalizing cs s with
  | zero => simp [runChoices]
  | succ k ih =>
    rw [Nat.succ_add, runChoices, ih, runChoices]
    congr 1
    funext i
    congr 1
    omega

theorem Follows.drop {cs : Nat → C} {s : S} (h : Follows step allowed cs s) (k : Nat) :
    Follows step allowed (fun i => cs (k + i)) (runChoices step cs k s) := fun n => by
  rw [← runChoices_add]
  exact h (k + n)

/-- If some choice always stays in `I`, some run stays in it for ever. -/
theorem exists_run_of_closed {I : S → Prop}
    (h : ∀ s, I s → ∃ c, allowed c s ∧ I (step c s)) {s : S} (hs : I s) :
    ∃ cs : Nat → C, Follows step allowed cs s ∧ ∀ n, I (runChoices step cs n s) := by
  choose pick hp using h
  let next : {s // I s} → {s // I s} := fun s => ⟨step (pick s.1 s.2) s.1, (hp s.1 s.2).2⟩
  let choices : {s // I s} → Nat → C := fun s n => pick (next^[n] s).1 (next^[n] s).2
  have hrun : ∀ (n : Nat) (s : {s // I s}), runChoices step (choices s) n s.1 = (next^[n] s).1 := by
    intro n
    induction n with
    | zero => exact fun s => rfl
    | succ n ih => exact fun s => ih (next s)
  refine ⟨choices ⟨s, hs⟩, fun n => ?_, fun n => ?_⟩
  · rw [hrun n ⟨s, hs⟩]
    exact (hp _ _).1
  · rw [hrun n ⟨s, hs⟩]
    exact (next^[n] ⟨s, hs⟩).2

/-- If every run from `I` is done or back in `I` with a smaller measure after some steps, every run
is done after some steps. -/
theorem ends_of_decreasing {I done : S → Prop} {M : Type*} {lt : M → M → Prop}
    (hw : WellFounded lt) (measure : S → M)
    (h : ∀ s, I s → ∀ cs : Nat → C, Follows step allowed cs s → ∃ k,
      done (runChoices step cs k s) ∨
        (I (runChoices step cs k s) ∧ lt (measure (runChoices step cs k s)) (measure s)))
    {s : S} (hs : I s) (cs : Nat → C) (hc : Follows step allowed cs s) :
    ∃ n, done (runChoices step cs n s) := by
  induction hm : measure s using hw.induction generalizing s cs with
  | _ m ih =>
    obtain ⟨k, hd | ⟨hi, hlt⟩⟩ := h s hs cs hc
    · exact ⟨k, hd⟩
    · obtain ⟨n, hn⟩ := ih _ (hm ▸ hlt) hi (fun i => cs (k + i)) (hc.drop k) rfl
      exact ⟨k + n, by rwa [runChoices_add]⟩

end

/-! ## Runs that come to an end -/

section
variable {S : Type u} {A : Type v}

/-- If every step gets smaller and there are finitely many choices, the runs from a state have a
longest. -/
theorem length_bounded {f : S → A → Option S} {I : S → Prop} {M : Type*} {lt : M → M → Prop}
    (hw : WellFounded lt) (measure : S → M) (choices : Finset A)
    (h : ∀ s x s', I s → f s x = some s' → I s' ∧ x ∈ choices ∧ lt (measure s') (measure s))
    {s : S} (hs : I s) : ∃ n, ∀ (xs : List A) (s' : S), xs.foldlM f s = some s' → xs.length ≤ n := by
  classical
  induction hm : measure s using hw.induction generalizing s with
  | _ m ih =>
    have hnext : ∀ x, ∃ n, ∀ t, f s x = some t → ∀ (xs : List A) (s' : S),
        xs.foldlM f t = some s' → xs.length ≤ n := by
      intro x
      cases hx : f s x with
      | none => exact ⟨0, fun t ht => absurd ht (by simp)⟩
      | some t =>
        obtain ⟨hi, -, hlt⟩ := h s x t hs hx
        obtain ⟨n, hn⟩ := ih _ (hm ▸ hlt) hi rfl
        exact ⟨n, fun t' ht => Option.some.inj ht ▸ hn⟩
    choose bound hbound using hnext
    refine ⟨choices.sup bound + 1, fun xs s' hr => ?_⟩
    cases xs with
    | nil => exact Nat.zero_le _
    | cons x xs =>
      rw [List.foldlM_cons] at hr
      obtain ⟨t, ht, hr⟩ := Option.bind_eq_some_iff.1 hr
      have hle := Finset.le_sup (f := bound) (h s x t hs ht).2.1
      exact Nat.succ_le_succ ((hbound x t ht xs s' hr).trans hle)

end

/-! ## Histories -/

section
variable {E : Type u}

/-- An event of a history is the last one, or one of those before it. -/
theorem split_concat {hist pre post : List E} {e x : E} (h : hist ++ [e] = pre ++ x :: post) :
    (hist = pre ∧ e = x ∧ post = []) ∨ ∃ post', hist = pre ++ x :: post' ∧ post = post' ++ [e] := by
  rcases List.eq_nil_or_concat post with rfl | ⟨post, y, rfl⟩
  · obtain ⟨rfl, hx⟩ := List.append_inj' h rfl
    exact .inl ⟨rfl, List.singleton_inj.1 hx, rfl⟩
  · have h' : hist ++ [e] = (pre ++ x :: post) ++ [y] := by simpa using h
    obtain ⟨rfl, hy⟩ := List.append_inj' h' rfl
    cases hy
    exact .inr ⟨post, rfl, List.concat_eq_append⟩

theorem split_at {hist : List E} {i : Nat} {e : E} (h : hist[i]? = some e) :
    hist = hist.take i ++ e :: hist.drop (i + 1) := by
  obtain ⟨hi, rfl⟩ := List.getElem?_eq_some_iff.1 h
  rw [List.getElem_cons_drop, List.take_append_drop]

/-- Some event satisfied `P`, and none since satisfied `kill`. -/
def Since (P : List E → E → Prop) (kill : E → Prop) (hist : List E) : Prop :=
  ∃ pre e post, hist = pre ++ e :: post ∧ P pre e ∧ ∀ x ∈ post, ¬kill x

variable {P : List E → E → Prop} {kill : E → Prop}

@[simp] theorem since_nil : Since P kill [] ↔ False := by
  refine ⟨fun ⟨pre, e, post, h, _⟩ => ?_, False.elim⟩
  simp at h

/-- The last event makes the predicate true, or keeps it. -/
theorem since_concat (hist : List E) (e : E) :
    Since P kill (hist ++ [e]) ↔ P hist e ∨ (Since P kill hist ∧ ¬kill e) := by
  refine ⟨?_, ?_⟩
  · intro ⟨pre, x, post, h, hp, hk⟩
    rcases split_concat h with ⟨rfl, rfl, rfl⟩ | ⟨post, rfl, rfl⟩
    · exact .inl hp
    · refine .inr ⟨⟨pre, x, post, rfl, hp, fun z hz => hk z ?_⟩, hk e (by simp)⟩
      simp [hz]
  · intro h
    rcases h with hp | ⟨⟨pre, x, post, rfl, hp, hk⟩, he⟩
    · exact ⟨hist, e, [], rfl, hp, by simp⟩
    · refine ⟨pre, x, post ++ [e], by simp, hp, fun z hz => ?_⟩
      rcases List.mem_append.1 hz with hz | hz
      · exact hk z hz
      · rw [List.mem_singleton.1 hz]
        exact he

end

end Trace
