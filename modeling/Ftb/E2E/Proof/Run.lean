import Ftb.E2E.Proof.Queues
import Ftb.Backplane.Delivery

/-!
# A run of the system, seen from the backplane

What the processes do comes to the agents as messages of clients, in the order in which each process
sent them, and what the agents send to a process is handled there in order (`Moves`). Every step of the
system is such a step (`Peopled.step`), and so is every run (`Peopled.run`).
-/

open FTB FTBU FTBN FTBMI FTBCI FTBC Backplane

namespace E2E

variable {ι κ : Type} {S : Site ι κ}

/-! ## What the agents are told -/

/-- The messages of the process among the actions. -/
def told (S : Site ι κ) (k : κ) (acts : List (Action ι)) : List Msg :=
  (acts.filterMap Action.message).filter fun msg =>
    isEqualLocationId msg.src.locationId (S.loc k)

theorem told_append (k : κ) (acts acts' : List (Action ι)) :
    told S k (acts ++ acts') = told S k acts ++ told S k acts' := by
  simp [told]

/-- The clients of every process are where it is, and so are those whose messages wait. -/
structure Peopled (S : Site ι κ) (s : State ι κ) : Prop where
  housed : ∀ k, Housed (S.loc k) (s.procs k)
  up : ∀ k, ∀ m ∈ (s.procs k).manager.net.up, Own (S.loc k) m

section
variable [DecidableEq ι]

/-- The processes send `out`, and the agents do `acts`. -/
structure Moves (S : Site ι κ) (out : κ → List Msg) (acts : List (Action ι)) (s s' : State ι κ) :
    Prop where
  run : s.world.run S.places acts = some s'.world
  clients : ∀ x msg, Action.client x msg ∈ acts → ∃ k, x = S.parent k ∧ Own (S.loc k) msg
  up : ∀ k, (s.procs k).manager.net.up ++ out k = told S k acts ++ (s'.procs k).manager.net.up
  down : ∀ k, ∃ got new, s'.world.sent (S.parent k) = s.world.sent (S.parent k) ++ new ∧
    (s.procs k).manager.net.down ++ toward (S.loc k) new = got ++ (s'.procs k).manager.net.down ∧
    (s'.procs k).handled = (s.procs k).handled ++ got

variable {s s' s'' : State ι κ} {out out' : κ → List Msg} {acts acts' : List (Action ι)}

namespace Moves

theorem refl (s : State ι κ) : Moves S (fun _ => []) [] s s where
  run := rfl
  clients _ _ h := nomatch h
  up _ := List.append_nil _
  down _ := ⟨[], [], (List.append_nil _).symm, List.append_nil _, (List.append_nil _).symm⟩

theorem trans (h : Moves S out acts s s') (h' : Moves S out' acts' s' s'') :
    Moves S (fun k => out k ++ out' k) (acts ++ acts') s s'' where
  run := by
    unfold World.run
    rw [List.foldlM_append]
    exact Option.bind_eq_some_iff.2 ⟨s'.world, h.run, h'.run⟩
  clients x msg hm := (List.mem_append.1 hm).elim (h.clients x msg) (h'.clients x msg)
  up k := by
    rw [told_append, ← List.append_assoc, h.up, List.append_assoc, h'.up, List.append_assoc]
  down k := by
    obtain ⟨got, new, hsent, hdown, hhandled⟩ := h.down k
    obtain ⟨got', new', hsent', hdown', hhandled'⟩ := h'.down k
    refine ⟨got ++ got', new ++ new', ?_, ?_, ?_⟩
    · rw [hsent', hsent, List.append_assoc]
    · unfold toward at hdown hdown' ⊢
      rw [List.filter_append, ← List.append_assoc, hdown, List.append_assoc, hdown',
        List.append_assoc]
    · rw [hhandled', hhandled, List.append_assoc]

/-- The messages of clients keep to what `Traffic` asks for. -/
theorem traffic (h : Moves S out acts s s') : ∀ c ∈ acts, Traffic S.places c := by
  intro c hc
  cases c with
  | client x msg =>
    obtain ⟨k, -, hown⟩ := h.clients x msg hc
    refine ⟨⟨fun i => ?_, hown.name⟩, hown.type⟩
    rw [hown.loc]
    exact S.apart k i
  | _ => trivial

end Moves

/-! ## A step of the agents -/

/-- What the agents have sent stays as it is. -/
theorem sent_act {P : Places ι} {w w' : World ι} {c : Action ι} (h : act P w c = some w') (x : ι) :
    ∃ new, w'.sent x = w.sent x ++ new := by
  have put : ∀ (y : ι) (l : List Msg), ∃ new,
      Function.update w.sent y (w.sent y ++ l) x = w.sent x ++ new := by
    intro y l
    by_cases hx : x = y
    · subst hx
      exact ⟨l, Function.update_self ..⟩
    · exact ⟨[], by rw [Function.update_of_ne hx, List.append_nil]⟩
  have handle : ∀ {v : World ι} {y : ι} {msg : Msg} {src : LocationId},
      v.handle P y msg src = some w' → v.sent = w.sent → ∃ new, w'.sent x = w.sent x ++ new := by
    intro v y msg src hh hv
    obtain ⟨a, -, rfl⟩ := Option.map_eq_some_iff.1 hh
    unfold World.post
    simp only [hv]
    exact put y _
  cases c with
  | client a msg =>
    have h : w.client P a msg = some w' := h
    unfold World.client at h
    split at h
    · exact handle h rfl
    · cases h
  | join n p =>
    have h : w.join P n p = some w' := h
    unfold World.join at h
    split at h
    · cases h
      exact put n _
    · cases h
  | deliver i j =>
    have h : w.deliver P i j = some w' := h
    unfold World.deliver at h
    split at h
    · cases h
    · exact handle h rfl

/-- What the agents send is in the connections. -/
theorem moves_carry {w : World ι} {acts : List (Action ι)}
    (hr : s.world.run S.places acts = some w)
    (hc : ∀ x msg, Action.client x msg ∈ acts → ∃ k, x = S.parent k ∧ Own (S.loc k) msg)
    (hsent : ∀ x, ∃ new, w.sent x = s.world.sent x ++ new) {s₀ : State ι κ}
    (hw : s₀.world = s.world)
    (hup : ∀ k, (s₀.procs k).manager.net.up = told S k acts ++ (s.procs k).manager.net.up)
    (hdown : ∀ k, (s₀.procs k).manager.net.down = (s.procs k).manager.net.down)
    (hhandled : ∀ k, (s₀.procs k).handled = (s.procs k).handled) :
    Moves S (fun _ => []) acts s₀ (s.carry S w) where
  run := hw ▸ hr
  clients := hc
  up k := by
    rw [List.append_nil, hup]
    rfl
  down k := by
    obtain ⟨new, hnew⟩ := hsent (S.parent k)
    refine ⟨[], new, ?_, ?_, ?_⟩
    · rw [hw]
      exact hnew
    · show _ = (s.procs k).manager.net.down ++ s.sentTo S w k
      unfold State.sentTo
      rw [hdown, hnew, List.drop_left]
    · rw [hhandled, List.append_nil]
      rfl

theorem run_single {w w' : World ι} {c : Action ι} (h : act S.places w c = some w') :
    w.run S.places [c] = some w' := by
  unfold World.run
  rw [List.foldlM_cons, h]
  rfl

omit [DecidableEq ι] in
theorem Peopled.carry {w : World ι} (hs : Peopled S s) : Peopled S (s.carry S w) where
  housed k := by
    have hk := hs.housed k
    exact ⟨hk.placed, ⟨hk.ready.here, hk.ready.started, hk.ready.unstarted⟩⟩
  up := hs.up

end

/-! ## A step of a process -/

section
variable {k : κ}

/-- The id of a client is its process and its handle. -/
theorem isEqualFtbId_site (id : Id) (g : ClientHandle) :
    isEqualFtbId id (S.client k g) = (isEqualLocationId id.locationId (S.loc k) &&
      isEqualClienthandle (convertClientidToClienthandle id.clientId) g) := by
  rw [Bool.eq_iff_iff, Bool.and_eq_true, isEqualFtbId_iff, isEqualLocationId_iff,
    isEqualClienthandle_iff]
  simp only [canonId, canonHandle, Site.client, convertClientidToClienthandle, Id.mk.injEq,
    ClientHandle.mk.injEq, true_and]

theorem isEqualFtbId_client {id : Id} (hid : id.locationId = S.loc k) (g : ClientHandle) :
    isEqualFtbId id (S.client k g) =
      isEqualClienthandle (convertClientidToClienthandle id.clientId) g := by
  have hloc : isEqualLocationId id.locationId (S.loc k) = true := hid ▸ KeyEq.refl _
  rw [isEqualFtbId_site, hloc, Bool.true_and]

variable [DecidableEq κ] {s s' : State ι κ} {p : Lib Line} {l : List Msg}
  {K : ClientHandle → Event → Prop}

/-- The process sends `l`. -/
def sending (k : κ) (l : List Msg) : κ → List Msg := Function.update (fun _ => []) k l

theorem goOn_eq (h : s.goOn k p = some s') :
    s' = { s with procs := Function.update s.procs k p } ∧
      ((s.procs k).manager.info.initialized = true → p.manager.info.initialized = true) := by
  unfold State.goOn at h
  split at h
  · cases h
  · rename_i hstay
    cases h
    refine ⟨rfl, fun hi => ?_⟩
    rw [hi] at hstay
    simpa using hstay

theorem moves_goOn [DecidableEq ι] (hs : Peopled S s) (ht : Turns (S.loc k) K l (s.procs k) p) :
    Peopled S { s with procs := Function.update s.procs k p } ∧
      Moves S (sending k l) [] s { s with procs := Function.update s.procs k p } := by
  obtain ⟨hhoused, hown⟩ := (hs.housed k).turns ht
  obtain ⟨got, htrades⟩ := ht.trades
  refine ⟨⟨fun j => ?_, fun j => ?_⟩, rfl, fun _ _ h => (nomatch h), fun j => ?_, fun j => ?_⟩ <;>
    dsimp only
  · by_cases hj : j = k
    · subst hj
      rw [Function.update_self]
      exact hhoused
    · rw [Function.update_of_ne hj]
      exact hs.housed j
  · by_cases hj : j = k
    · subst hj
      rw [Function.update_self, htrades.up]
      exact fun m hm => (List.mem_append.1 hm).elim (hs.up j m) (hown m)
    · rw [Function.update_of_ne hj]
      exact hs.up j
  · by_cases hj : j = k
    · subst hj
      rw [sending, Function.update_self, Function.update_self]
      exact htrades.up.symm
    · rw [sending, Function.update_of_ne hj, Function.update_of_ne hj, List.append_nil]
      rfl
  · by_cases hj : j = k
    · subst hj
      refine ⟨got, [], (List.append_nil _).symm, ?_, ?_⟩
      · rw [Function.update_self]
        exact (List.append_nil _).trans htrades.down
      · rw [Function.update_self]
        exact htrades.handled
    · refine ⟨[], [], (List.append_nil _).symm, ?_, ?_⟩
      · rw [Function.update_of_ne hj]
        exact List.append_nil _
      · rw [Function.update_of_ne hj, List.append_nil]

/-- Messages without events. -/
theorem handles_silent (hl : Silent l) (q : κ) (id : Id) :
    ((sending k l q).filter (isEventOf id)).map publishedHandle = [] := by
  have hnone : (sending k l q).filter (isEventOf id) = [] := by
    refine List.filter_eq_nil_iff.2 fun m hm => ?_
    have hm : m ∈ l := by
      unfold sending at hm
      by_cases hq : q = k
      · subst hq
        rwa [Function.update_self] at hm
      · rw [Function.update_of_ne hq] at hm
        cases hm
    have hcontrol : isControl m = true := isControl_eq_true.2 (hl m hm)
    rw [isEventOf_of_control hcontrol]
    exact Bool.false_ne_true
  rw [hnone]
  rfl

/-- **An `FTBC_Publish` sends its event**, and gives its handle. -/
theorem handles_publish [DecidableEq ι] (hs : Peopled S s) {handle : ClientHandle} {name : CStr}
    {properties : Option EventProperties} {eventHandle out : Option EventHandle} {ret : Ret}
    (h : publish (S.line k) handle name properties eventHandle (s.procs k) = some (ret, out, p)) :
    ∃ l, Turns (S.loc k) K l (s.procs k) p ∧ ∀ q g,
      ((sending k l q).filter (isEventOf (S.client q g))).map publishedHandle =
        publishes S q g s (.api k (.publish handle name properties eventHandle)) := by
  have hcollect : ∀ q g, publishes S q g s (.api k (.publish handle name properties eventHandle)) =
      if k = q ∧ isEqualClienthandle handle g = true then returned (some (ret, out, p)) else [] := by
    intro q g
    rw [← h]
    rfl
  obtain ⟨hr, hturns⟩ | ⟨msg, c, t, rfl, rfl, hnotify, hc, hce, hsrc, hbefore, hturns⟩ :=
    turns_publish h
  · refine ⟨[], hturns, fun q g => ?_⟩
    rw [handles_silent .nil, hcollect]
    split
    · cases ret with
      | success => exact absurd rfl hr
      | _ => rfl
    · rfl
  · refine ⟨[msg], hbefore.silent_trans hturns, fun q g => ?_⟩
    have hplaced := ((hs.housed k).turns hbefore).1.placed c hc
    have hloc : msg.src.locationId = S.loc k := by rw [hsrc, hplaced.loc]
    have hevent : isEventOf (S.client q g) msg = isEqualFtbId msg.src (S.client q g) :=
      isEventOf_carries (⟨hnotify, rfl, rfl⟩ : Carries msg msg)
    rw [hcollect]
    by_cases hq : k = q
    · subst hq
      have hsame : isEqualFtbId msg.src (S.client k g) = isEqualClienthandle handle g := by
        rw [isEqualFtbId_client hloc, hsrc, ← hplaced.handle, Bool.eq_iff_iff]
        exact ⟨KeyEq.trans (KeyEq.symm hce), KeyEq.trans hce⟩
      rw [sending, Function.update_self]
      by_cases hg : isEqualClienthandle handle g = true
      · rw [List.filter_cons_of_pos (by rw [hevent, hsame, hg]), if_pos ⟨rfl, hg⟩]
        rfl
      · rw [List.filter_cons_of_neg (by rw [hevent, hsame]; exact hg), if_neg fun hc => hg hc.2]
        rfl
    · rw [sending, Function.update_of_ne (Ne.symm hq), if_neg fun hc => hq hc.1]
      rfl

end

/-! ## A step of the system -/

section
variable [DecidableEq κ] {s s' : State ι κ} {m : Move ι κ} {j k : κ} {msg : Msg} {up : List Msg}

theorem drain_self (k : κ) (up : List Msg) : (s.drain k up).procs k =
    (s.procs k).withNet { (s.procs k).manager.net with up } :=
  Function.update_self ..

theorem drain_of_ne (hj : j ≠ k) : (s.drain k up).procs j = s.procs j :=
  Function.update_of_ne hj ..

/-- What is left in the connections. -/
theorem up_drain (hs : Peopled S s) (hup : (s.procs k).manager.net.up = msg :: up) (j : κ) :
    (s.procs j).manager.net.up =
      told S j [.client (S.parent k) msg] ++ ((s.drain k up).procs j).manager.net.up := by
  have hown : Own (S.loc k) msg := hs.up k msg (hup ▸ List.mem_cons_self)
  by_cases hj : j = k
  · subst hj
    have htold : told S j [.client (S.parent j) msg] = [msg] := by
      simp [told, Action.message, hown.loc, KeyEq.refl]
    rw [htold, drain_self, hup]
    rfl
  · have htold : told S j [.client (S.parent k) msg] = [] := by
      have hother : isEqualLocationId (S.loc k) (S.loc j) = false :=
        Bool.eq_false_iff.2 fun he => hj (S.distinct k j he).symm
      simp [told, Action.message, hown.loc, hother]
    rw [htold, drain_of_ne hj]
    rfl

theorem net_drain (k : κ) (up : List Msg) (j : κ) : ∃ net,
    (s.drain k up).procs j = (s.procs j).withNet net ∧ net.down = (s.procs j).manager.net.down := by
  by_cases hj : j = k
  · subst hj
    exact ⟨_, drain_self j up, rfl⟩
  · exact ⟨(s.procs j).manager.net, drain_of_ne hj, rfl⟩

theorem Peopled.drain (hs : Peopled S s) (hup : (s.procs k).manager.net.up = msg :: up) :
    Peopled S (s.drain k up) where
  housed j := by
    obtain ⟨net, hnet, -⟩ := net_drain (s := s) k up j
    have hj := hs.housed j
    rw [hnet]
    exact ⟨hj.placed, ⟨hj.ready.here, hj.ready.started, hj.ready.unstarted⟩⟩
  up j m hm := hs.up j m (up_drain hs hup j ▸ List.mem_append_right _ hm)

variable [DecidableEq ι]

/-- What the move leaves to a client that is called back: its subscription, and its queue. -/
def Kept : Move ι κ → ClientHandle → Event → Prop
  | .api _ call, h, mask => Spares call h mask
  | .callback _ handle, h, _ => isEqualClienthandle handle h = false
  | _, _, _ => True

/-- A process goes on. -/
structure Goes (S : Site ι κ) (s : State ι κ) (m : Move ι κ) (s' : State ι κ) (k : κ) (p : Lib Line)
    (l : List Msg) : Prop where
  eq : s' = { s with procs := Function.update s.procs k p }
  turns : Turns (S.loc k) (Kept m) l (s.procs k) p
  publishes : ∀ q g,
    ((sending k l q).filter (isEventOf (S.client q g))).map publishedHandle = publishes S q g s m
  leaves : ∀ h mask, Stays k h mask m → ∀ msg ∈ l, Leaves h mask msg
  kept : ∀ h mask, Stays k h mask m →
    (∀ handle, m = .callback k handle → isEqualClienthandle handle h = false) → Kept m h mask

/-- The agents go on. -/
structure Carried (S : Site ι κ) (s : State ι κ) (m : Move ι κ) (s' : State ι κ)
    (acts : List (Action ι)) : Prop where
  peopled : Peopled S s'
  moves : Moves S (fun _ => []) acts s s'
  publishes : ∀ q g, E2E.publishes S q g s m = []
  procs : ∀ k, ∃ net, s'.procs k = (s.procs k).withNet net

/-- The agents take `acts` from `s`, where `s₁` has other messages in the connections. -/
theorem carried {s₁ : State ι κ} {acts : List (Action ι)} {w : World ι} (hs : Peopled S s₁)
    (hw : s₁.world = s.world) (hr : s.world.run S.places acts = some w)
    (hsent : ∀ x, ∃ new, w.sent x = s.world.sent x ++ new)
    (hc : ∀ x msg, Action.client x msg ∈ acts → ∃ k, x = S.parent k ∧ Own (S.loc k) msg)
    (hup : ∀ j, (s.procs j).manager.net.up = told S j acts ++ (s₁.procs j).manager.net.up)
    (hnet : ∀ j, ∃ net, s₁.procs j = (s.procs j).withNet net ∧
      net.down = (s.procs j).manager.net.down)
    (hpub : ∀ q g, publishes S q g s m = []) : Carried S s m (s₁.carry S w) acts where
  peopled := hs.carry
  moves := by
    refine moves_carry (hw ▸ hr) hc (hw ▸ hsent) hw.symm hup (fun j => ?_) fun j => ?_
    · obtain ⟨net, hj, hdown⟩ := hnet j
      rw [hj]
      exact hdown.symm
    · obtain ⟨net, hj, -⟩ := hnet j
      rw [hj]
      rfl
  publishes := hpub
  procs j := by
    obtain ⟨net, hj, -⟩ := hnet j
    refine ⟨{ net with down := net.down ++ s₁.sentTo S w j }, ?_⟩
    show (s₁.procs j).withNet _ = _
    rw [hj]
    rfl

/-- **A step is a step of a process or of the agents.** -/
theorem step_cases (hs : Peopled S s) (hm : Proper m) (h : s.step S m = some s') :
    (∃ k p l, Goes S s m s' k p l) ∨ ∃ acts, Carried S s m s' acts := by
  have hnone : ∀ h mask, ∀ msg ∈ ([] : List Msg), Leaves h mask msg :=
    fun _ _ _ hm => absurd hm List.not_mem_nil
  have hpid : ∀ k, (S.places.loc (S.parent k)).pid ≠ 0 := fun k => S.places.pid _
  cases m with
  | api k call =>
    simp only [State.step] at h
    split at h
    · obtain ⟨p, hcall, hgo⟩ := Option.bind_eq_some_iff.1 h
      obtain ⟨rfl, hstay⟩ := goOn_eq hgo
      by_cases hpub : ∃ handle name properties eventHandle,
          call = .publish handle name properties eventHandle
      · obtain ⟨handle, name, properties, eventHandle, rfl⟩ := hpub
        obtain ⟨⟨ret, out, _⟩, hpublish, rfl⟩ := Option.map_eq_some_iff.1 hcall
        obtain ⟨l, hturns, hhandles⟩ := handles_publish hs hpublish
        exact .inl ⟨k, _, l, rfl, hturns, hhandles, fun h mask hstays msg hmsg =>
          hturns.harmless msg hmsg h mask (hstays rfl), fun _ _ hstays _ => hstays rfl⟩
      · have hno : ∀ handle name properties eventHandle,
            call ≠ .publish handle name properties eventHandle :=
          fun handle name properties eventHandle he =>
            hpub ⟨handle, name, properties, eventHandle, he⟩
        obtain ⟨l, hl, hturns⟩ := turns_call (hpid k) (hs.housed k).ready (hs.housed k).placed hstay
          (fun _ _ hk => hk)
          (fun cinfo extension handle he => by subst he; exact hm) hno hcall
        refine .inl ⟨k, p, l, rfl, hturns, fun q g => ?_, fun h mask hstays msg hmsg =>
          hturns.harmless msg hmsg h mask (hstays rfl), fun _ _ hstays _ => hstays rfl⟩
        rw [handles_silent hl]
        cases call with
        | publish => exact absurd rfl (hno _ _ _ _)
        | _ => rfl
    · cases h
  | declare k handle schemaFile einfo =>
    obtain ⟨⟨ret, p⟩, hdeclare, hgo⟩ := Option.bind_eq_some_iff.1 h
    obtain ⟨rfl, -⟩ := goOn_eq hgo
    exact .inl ⟨k, p, [], rfl, turns_declare hdeclare, fun q g => handles_silent .nil q _,
      fun h mask _ => hnone h mask, fun _ _ _ _ => trivial⟩
  | receive k =>
    simp only [State.step] at h
    split at h
    · cases h
    · rename_i hdown
      obtain ⟨⟨ret, p⟩, hthread, hgo⟩ := Option.bind_eq_some_iff.1 h
      obtain ⟨rfl, -⟩ := goOn_eq hgo
      exact .inl ⟨k, p, [], rfl, turns_callbackThreadClient (hs.housed k).ready hdown hthread,
        fun q g => handles_silent .nil q _, fun h mask _ => hnone h mask, fun _ _ _ _ => trivial⟩
  | callback k handle =>
    simp only [State.step] at h
    split at h
    · rename_i c hl
      obtain ⟨⟨o, c'⟩, hcall, hgo⟩ := Option.bind_eq_some_iff.1 h
      obtain ⟨rfl, -⟩ := goOn_eq hgo
      have hlater : Later (Kept (.callback k handle : Move ι κ)) c c' :=
        later_callbackComponent (fun h mask hk hserves => Bool.eq_false_iff.1 hk
          (KeyEq.trans (KeyEq.symm (handle_of_lookup hl)) hserves.handle)) hcall
      exact .inl ⟨k, _, [], rfl, .inside (internal_write hl hlater),
        fun q g => handles_silent .nil q _, fun h mask _ => hnone h mask,
        fun h mask _ hother => hother handle rfl⟩
    · cases h
  | up k =>
    simp only [State.step] at h
    split at h
    · cases h
    · rename_i msg up hup
      obtain ⟨w, hw, rfl⟩ := Option.map_eq_some_iff.1 h
      have hown : Own (S.loc k) msg := hs.up k msg (hup ▸ List.mem_cons_self)
      refine .inr ⟨_, carried (hs.drain hup) rfl (run_single hw) (sent_act hw) (fun x m hm => ?_)
        (up_drain hs hup) (net_drain k up) fun _ _ => rfl⟩
      obtain ⟨rfl, rfl⟩ := Action.client.inj (List.mem_singleton.1 hm)
      exact ⟨k, rfl, hown⟩
  | world c =>
    have hnet : ∀ j, ∃ net, s.procs j = (s.procs j).withNet net ∧
        net.down = (s.procs j).manager.net.down := fun j => ⟨_, rfl, rfl⟩
    cases c with
    | client x msg => cases h
    | _ =>
      obtain ⟨w, hw, rfl⟩ := Option.map_eq_some_iff.1 h
      refine .inr ⟨_, carried hs rfl (run_single hw) (sent_act hw) (fun x m hm => ?_)
        (fun _ => rfl) hnet fun _ _ => rfl⟩
      cases List.mem_singleton.1 hm

/-- The handles of the events of the client among the messages. -/
def handles (S : Site ι κ) (p : κ) (g : ClientHandle) (msgs : List Msg) : List EventHandle :=
  (msgs.filter (isEventOf (S.client p g))).map publishedHandle

omit [DecidableEq ι] [DecidableEq κ] in
theorem handles_append (p : κ) (g : ClientHandle) (l l' : List Msg) :
    handles S p g (l ++ l') = handles S p g l ++ handles S p g l' := by
  simp [handles]

/-- What goes into a connection in a step. -/
theorem puts_step {out : κ → List Msg} {acts : List (Action ι)} (h : s.step S m = some s')
    (hmoves : Moves S out acts s s') (hone : acts = [] ∨ ∀ k, out k = []) (p : κ)
    (g : ClientHandle) : events (S.client p g) (out p) = puts S p g s m := by
  have hup := hmoves.up p
  simp only [puts, h]
  obtain rfl | hnone := hone
  · have hup : (s.procs p).manager.net.up ++ out p = (s'.procs p).manager.net.up := hup
    rw [← hup, List.drop_left]
  · rw [hnone p, List.append_nil] at hup
    have hless : (s'.procs p).manager.net.up.length ≤ (s.procs p).manager.net.up.length := by
      rw [hup, List.length_append]
      exact Nat.le_add_left ..
    rw [hnone p, List.drop_eq_nil_of_le hless]

/-- **One step**: what is published goes to the connection, in order. -/
theorem Peopled.step (hs : Peopled S s) (hm : Proper m) (h : s.step S m = some s') :
    ∃ out acts, Peopled S s' ∧ Moves S out acts s s' ∧
      (∀ q g, handles S q g (out q) = publishes S q g s m) ∧
      (∀ q g, events (S.client q g) (out q) = puts S q g s m) ∧
      ∀ q h mask, Stays q h mask m → ∀ msg ∈ out q, Leaves h mask msg := by
  obtain ⟨k, p, l, hg⟩ | ⟨acts, hc⟩ := step_cases hs hm h
  · obtain ⟨hs', hmoves⟩ := moves_goOn hs hg.turns
    have hmoves : Moves S (sending k l) [] s s' := hg.eq ▸ hmoves
    refine ⟨sending k l, [], hg.eq ▸ hs', hmoves, hg.publishes, puts_step h hmoves (.inl rfl),
      fun q h mask hstays msg hmsg => ?_⟩
    unfold sending at hmsg
    by_cases hq : q = k
    · subst hq
      rw [Function.update_self] at hmsg
      exact hg.leaves h mask hstays msg hmsg
    · rw [Function.update_of_ne hq] at hmsg
      exact absurd hmsg List.not_mem_nil
  · exact ⟨fun _ => [], acts, hc.peopled, hc.moves, fun q g => (hc.publishes q g).symm,
      puts_step h hc.moves (.inr fun _ => rfl), fun _ _ _ _ _ hm => absurd hm List.not_mem_nil⟩

theorem run_cons {moves : List (Move ι κ)} (h : s.run S (m :: moves) = some s') :
    ∃ t, s.step S m = some t ∧ t.run S moves = some s' := by
  unfold State.run at h
  rw [List.foldlM_cons] at h
  exact Option.bind_eq_some_iff.1 h

theorem collect_cons {A : Type} {out : State ι κ → Move ι κ → List A} {t : State ι κ}
    {moves : List (Move ι κ)} (h : s.step S m = some t) :
    s.collect S out (m :: moves) = out s m ++ t.collect S out moves := by
  simp only [State.collect, h]

/-- **A run.** -/
theorem Peopled.run (hs : Peopled S s) {moves : List (Move ι κ)} (hm : ∀ m ∈ moves, Proper m)
    (h : s.run S moves = some s') :
    ∃ out acts, Peopled S s' ∧ Moves S out acts s s' ∧
      (∀ q g, handles S q g (out q) = s.collect S (publishes S q g) moves) ∧
      (∀ q g, events (S.client q g) (out q) = s.collect S (puts S q g) moves) ∧
      ∀ q h mask, (∀ m ∈ moves, Stays q h mask m) → ∀ msg ∈ out q, Leaves h mask msg := by
  induction moves generalizing s with
  | nil =>
    obtain rfl : s = s' := Option.some.inj h
    exact ⟨_, _, hs, .refl s, fun _ _ => rfl, fun _ _ => rfl,
      fun _ _ _ _ _ hm => absurd hm List.not_mem_nil⟩
  | cons m moves ih =>
    obtain ⟨t, ht, hr⟩ := run_cons h
    obtain ⟨out, acts, hs₁, hmoves₁, hpub₁, hputs₁, hleaves₁⟩ :=
      hs.step (hm m List.mem_cons_self) ht
    obtain ⟨out', acts', hs₂, hmoves₂, hpub₂, hputs₂, hleaves₂⟩ :=
      ih hs₁ (fun m' hm' => hm m' (List.mem_cons_of_mem m hm')) hr
    refine ⟨_, _, hs₂, hmoves₁.trans hmoves₂, fun q g => ?_, fun q g => ?_,
      fun q h mask hstays msg hmsg => ?_⟩
    · rw [handles_append, hpub₁, hpub₂, collect_cons ht]
    · rw [events_append, hputs₁, hputs₂, collect_cons ht]
    · obtain hmsg | hmsg := List.mem_append.1 hmsg
      · exact hleaves₁ q h mask (hstays m List.mem_cons_self) msg hmsg
      · exact hleaves₂ q h mask (fun m' hm' => hstays m' (List.mem_cons_of_mem m hm')) msg hmsg

/-! ## The queues over a run -/

variable {queue : ClientInfo → List EventInst} {h : ClientHandle} {es : List EventInst} {q : κ}

/-- A queue stays behind what was given out of it. -/
theorem drawn_step (hq : IsQueue queue) (hs : Peopled S s) (hm : Proper m)
    (hstep : s.step S m = some s') (hd : Drawn queue h es (s.procs q)) :
    Drawn queue h es (s'.procs q) := by
  obtain ⟨k, p, l, hg⟩ | ⟨acts, hc⟩ := step_cases hs hm hstep
  · obtain ⟨rfl, hturns, -, -, -⟩ := hg
    dsimp only
    by_cases hk : q = k
    · subst hk
      rw [Function.update_self]
      exact hd.turns hq hturns
    · rwa [Function.update_of_ne hk]
  · obtain ⟨net, hnet⟩ := hc.procs q
    rw [hnet]
    exact ⟨hd.named, hd.gone, hd.left⟩

/-- What is given out in every step of a run. -/
theorem given_run {R : EventInst → ReceiveEvent → Prop}
    {gives : State ι κ → Move ι κ → List ReceiveEvent} {I : List EventInst → Lib Line → Prop}
    {moves : List (Move ι κ)}
    (hgive : ∀ {m s s' es}, m ∈ moves → Peopled S s → s.step S m = some s' → I es (s.procs q) →
      ∃ es', List.Forall₂ R es' (gives s m) ∧ I (es ++ es') (s'.procs q))
    (hs : Peopled S s) (hm : ∀ m ∈ moves, Proper m) (hr : s.run S moves = some s')
    (hi : I es (s.procs q)) :
    ∃ es', List.Forall₂ R es' (s.collect S gives moves) ∧ I (es ++ es') (s'.procs q) := by
  induction moves generalizing s es with
  | nil =>
    obtain rfl : s = s' := Option.some.inj hr
    exact ⟨[], .nil, (List.append_nil es).symm ▸ hi⟩
  | cons m moves ih =>
    obtain ⟨t, ht, hr⟩ := run_cons hr
    obtain ⟨_, _, hs₁, -⟩ := hs.step (hm m List.mem_cons_self) ht
    obtain ⟨es₁, hes₁, hi₁⟩ := hgive List.mem_cons_self hs ht hi
    obtain ⟨es₂, hes₂, hi₂⟩ := ih (fun hm' => hgive (List.mem_cons_of_mem m hm')) hs₁
      (fun m' hm' => hm m' (List.mem_cons_of_mem m hm')) hr hi₁
    refine ⟨es₁ ++ es₂, ?_, List.append_assoc es es₁ es₂ ▸ hi₂⟩
    rw [collect_cons ht]
    exact List.rel_append hes₁ hes₂

/-- The structure holds an event that the mask matches. -/
def HoldsMatch (mask : Event) (e : EventInst) (r : ReceiveEvent) : Prop :=
  Holds e r ∧ matchMask e.eventInst mask = true

/-- What `FTBC_Poll_event` gives in one step. -/
theorem drawn_polls {sub : SubscribeHandle} (hs : Peopled S s) (hm : Proper m)
    (hstep : s.step S m = some s')
    (hd : Drawn (polling sub.subscriptionEvent) sub.clientHandle es (s.procs q)) :
    ∃ es', List.Forall₂ (HoldsMatch sub.subscriptionEvent) es' (polls S q sub s m) ∧
      Drawn (polling sub.subscriptionEvent) sub.clientHandle (es ++ es') (s'.procs q) := by
  have hafter := drawn_step (isQueue_polling sub.subscriptionEvent) hs hm hstep hd
  by_cases hpoll : ∃ bytes, m = .api q (.pollEvent sub bytes)
  · obtain ⟨bytes, rfl⟩ := hpoll
    simp only [State.step] at hstep
    split at hstep
    · obtain ⟨_, hcall, hgo⟩ := Option.bind_eq_some_iff.1 hstep
      obtain ⟨⟨ret, out, p⟩, hpoll, rfl⟩ := Option.map_eq_some_iff.1 hcall
      obtain ⟨rfl, -⟩ := goOn_eq hgo
      have hpolls : polls S q sub s (.api q (.pollEvent sub bytes)) = returned (some (ret, out, p)) := by
        rw [← hpoll]
        exact if_pos ⟨rfl, rfl⟩
      dsimp only at hafter ⊢
      rw [Function.update_self] at hafter ⊢
      rw [hpolls]
      obtain ⟨hret, -⟩ | ⟨r, t, rfl, rfl, hturns, htakes⟩ :=
        turns_pollEvent (K := fun _ _ => True) hpoll
      · cases ret with
        | success => exact absurd rfl hret
        | _ => exact ⟨[], .nil, (List.append_nil es).symm ▸ hafter⟩
      · have hd := hd.turns (isQueue_polling sub.subscriptionEvent) hturns
        obtain ⟨e, hholds, hmatch, hd⟩ := hd.polled ((hs.housed q).turns hturns).1 htakes
        exact ⟨[e], .cons ⟨hholds, hmatch⟩ .nil, hd⟩
    · cases hstep
  · have hnone : polls S q sub s m = [] := by
      cases m with
      | api k call =>
        cases call with
        | pollEvent sub' bytes =>
          refine if_neg fun hc => hpoll ⟨bytes, ?_⟩
          rw [hc.1, hc.2]
        | _ => rfl
      | _ => rfl
    rw [hnone]
    exact ⟨[], .nil, (List.append_nil es).symm ▸ hafter⟩

/-- What a callback of the client is run with in one step. -/
theorem drawn_callsBack (hs : Peopled S s) (hm : Proper m) (hstep : s.step S m = some s')
    (hd : Drawn ClientInfo.callbackEventQueue h es (s.procs q)) :
    ∃ es', List.Forall₂ Holds es' (callsBack q h s m) ∧
      Drawn ClientInfo.callbackEventQueue h (es ++ es') (s'.procs q) := by
  have hafter := drawn_step isQueue_callback hs hm hstep hd
  by_cases hcall : ∃ handle, m = .callback q handle ∧ isEqualClienthandle handle h = true
  · obtain ⟨handle, rfl, he⟩ := hcall
    simp only [State.step] at hstep
    split at hstep
    · rename_i c hl
      obtain ⟨⟨o, c'⟩, hrun, hgo⟩ := Option.bind_eq_some_iff.1 hstep
      obtain ⟨rfl, -⟩ := goOn_eq hgo
      dsimp only at hafter ⊢
      rw [Function.update_self] at hafter ⊢
      simp only [callsBack, he, and_self, if_true, hl, hrun]
      cases o with
      | none => exact ⟨[], .nil, (List.append_nil es).symm ▸ hafter⟩
      | some out =>
        obtain ⟨e, hholds, hd⟩ := hd.calledBack (hs.housed q) hl he hrun
        exact ⟨[e], .cons hholds .nil, hd⟩
    · cases hstep
  · have hnone : callsBack q h s m = [] := by
      cases m with
      | callback k handle => exact if_neg fun hc => hcall ⟨handle, by rw [hc.1], hc.2⟩
      | _ => rfl
    rw [hnone]
    exact ⟨[], .nil, (List.append_nil es).symm ▸ hafter⟩

end

end E2E
