import Mathlib.Algebra.BigOperators.Ring.Finset
import Mathlib.Algebra.Order.BigOperators.Group.Finset
import SessionBroker.Proofs.Aborts
import SessionBroker.Proofs.Common
import SessionBroker.Proofs.Stops

/-!
# The books of an engine

Each invocation on an engine contributes to its books what its station says, and nobody else contributes anything.
So an invocation that has come to its end leaves the books as they were when it was called, whatever its callbacks
did meanwhile; and the debugger is stopped just as long as a callback for a stop is being called.
-/

namespace SessionBroker

variable {e : EngineName} {k : Count} {m : Machine brokerInterface World}
  {told : EngineName → Hooks → Availability → Code Unit}

/-! ## What is written into the books -/

/-- What an act adds to a count of an engine. -/
def Act.adds (e : EngineName) (k : Count) (a : Act brokerInterface World) : Int :=
  match a.action.leaves e, a.action.reaches e a.reply with
  | some here, some there => there.count k - here.count k
  | _, _ => 0

theorem Act.adds_eq_zero {a : Act brokerInterface World} (unmoved : a.action.leaves e = none) : a.adds e k = 0 := by
  simp [adds, unmoved]

/-- A step that does not write into the books leaves them as they are. -/
theorem Endpoint.counts_quiet {p q : Endpoint} {op : EngineOp} {r : op.Reply} (h : p.perform op = some (r, q))
    (unmoved : op.reaches r = none) : q.engine.counts = p.engine.counts := by
  cases op
  case leave | beginWait | endBlock | endHold | enterStop | leaveStop => cases unmoved
  case enter =>
    simp only [perform] at h
    split at h
    · cases h
      cases unmoved
    · cases h
      rfl
  case unregister =>
    cases h
    rcases hooks : p.engine.hooks with _ | hooks <;> funext k <;> cases k <;>
      simp [map, Engine.unregister, Engine.counts, hooks]
  case wish wish =>
    cases h
    split
    · rfl
    · cases wish <;> rfl
  all_goals
    cases h
    rfl

/-- Who writes into the books goes from one station to another; the books have what he contributed so far. -/
theorem Endpoint.counts_perform {p q : Endpoint} {op : EngineOp} {r : op.Reply} (h : p.perform op = some (r, q))
    {here there : Station} (leaves : op.leaves = some here) (reaches : op.reaches r = some there)
    (enough : ∀ k, here.count k ≤ p.engine.counts k) (k : Count) :
    (q.engine.counts k : Int) = p.engine.counts k + (there.count k - here.count k) := by
  have active := enough .active
  have blocked := enough .blocked
  have stopped := enough .stopped
  cases op
  case enter =>
    simp only [perform, Engine.enter] at h
    split at h
    · next ok =>
      split at ok <;> cases ok
      cases h
      cases leaves
      cases reaches
      cases k <;> simp [Station.count, Engine.counts]
    · cases h
      cases reaches
  case leave | beginWait | enterStop | leaveStop =>
    cases h
    cases leaves
    cases reaches
    simp only [Station.count, Engine.counts] at active blocked stopped
    cases k <;> simp only [Station.count, Engine.counts, map, Engine.leave, Engine.beginWait] <;> omega
  case endBlock | endHold =>
    obtain ⟨g, hg, h⟩ := Option.map_eq_some_iff.mp h
    cases h
    simp only [Engine.endBlock?, Engine.endHold?] at hg
    split at hg <;> cases hg
    cases leaves
    cases reaches
    simp only [Station.count, Engine.counts] at active blocked stopped
    cases k <;> simp only [Station.count, Engine.counts] <;> omega
  all_goals cases leaves

/-- A step on an engine that exists. -/
theorem World.perform_engine {w u : World} {flow : Nat} {pick : Bool} {op : EngineOp} {r : op.Reply}
    (h : perform flow pick (.engine e op) w = some (r, u)) :
    ∃ p q, w.endpoint? e = some p ∧ p.perform op = some (r, q) ∧ u.endpoint? e = some q := by
  simp only [perform, performEngine] at h
  split at h
  · cases h
  · next p hp =>
    obtain ⟨⟨reply, q⟩, hq, h⟩ := Option.map_eq_some_iff.mp h
    have changed : reply = r ∧ u.endpoint? e = (w.modifyEndpoint e fun _ => q).endpoint? e := by
      cases op <;> cases h <;> exact ⟨rfl, rfl⟩
    obtain ⟨rfl, changed⟩ := changed
    exact ⟨p, q, hp, hq, by simp [changed, endpoint?_modifyEndpoint, hp]⟩

theorem World.counts?_of_endpoint {w : World} {p : Endpoint} (h : w.endpoint? e = some p) :
    w.counts? e = some p.engine.counts := by
  rw [counts?, h, Option.map_some]

/-- What an act does to the books. -/
theorem Act.counts_after {a : Act brokerInterface World} {pick : Bool}
    (performed : World.perform a.flow pick a.action a.before = some (a.reply, a.after)) {c : Count → Nat}
    (known : a.before.counts? e = some c) (enough : ∀ st, a.action.leaves e = some st → ∀ k, st.count k ≤ c k) :
    ∃ d, a.after.counts? e = some d ∧ ∀ k, (d k : Int) = c k + a.adds e k := by
  obtain ⟨flow, proc, action, r, w, u⟩ := a
  rcases World.endpoint?_perform performed e with ⟨op, -, -, -, rfl, -⟩ | ⟨other, same⟩
  · obtain ⟨p, q, hp, hq, hu⟩ := World.perform_engine performed
    cases Option.some.inj (known.symm.trans (World.counts?_of_endpoint hp))
    refine ⟨_, World.counts?_of_endpoint hu, fun k => ?_⟩
    simp only [Action.leaves, if_true] at enough
    simp only [adds, Action.leaves, Action.reaches, if_true]
    rcases reaches : op.reaches r with _ | there
    · rw [Endpoint.counts_quiet hq reaches]
      cases op.leaves <;> simp
    · rcases leaves : op.leaves with _ | here
      · cases op <;> cases leaves <;> cases reaches
      · exact Endpoint.counts_perform hq leaves reaches (enough here leaves) k
  · refine ⟨c, ?_, fun k => ?_⟩
    · rw [← known]
      exact congrArg (Option.map fun p => p.engine.counts) same
    · have unmoved : action.leaves e = none := by
        cases action with
        | engine name op =>
          have away : name ≠ e := fun same => other op (by rw [same])
          simp [Action.leaves, away]
        | _ => rfl
      simp [Act.adds, unmoved]

/-! ## What invocations contribute -/

namespace Engines

/-- Where an invocation stands after some deeds. -/
def station (e : EngineName) (ds : List (Deed brokerInterface World)) : Station :=
  (stations e).remembered (fun _ _ st => st) ds .away

/-- What somebody under way contributes to a count of an engine. -/
def load (e : EngineName) (k : Count) (t : Track brokerInterface World) : Nat :=
  if t.proc.isInvocationOn e then (station e t.deeds).count k else 0

/-- What an invocation has written into the books amounts to its station. -/
theorem sum_adds_of_followed {ds : List (Deed brokerInterface World)}
    (followed : (stations e).Followed (fun _ _ st => st) ds .away) :
    ((ds.filterMap Deed.act?).map (Act.adds e k)).sum = (station e ds).count k := by
  induction ds with
  | nil => rfl
  | cons d ds ih =>
    cases d with
    | call | start => exact ih followed.2
    | act a =>
      obtain ⟨⟨from_, -⟩, followed⟩ := followed
      have sum := ih followed
      simp only [List.filterMap_cons, Deed.act?, List.map_cons, List.sum_cons, sum]
      have now : station e (.act a :: ds) = (a.action.reaches e a.reply).getD (station e ds) := rfl
      rw [now, Act.adds]
      rcases leaves : a.action.leaves e with _ | here
      · simp [Action.reaches_eq_none leaves]
      · have same : station e ds = here := from_ here leaves
        rw [same]
        cases a.action.reaches e a.reply <;> simp

theorem sum_adds_of_quiet {acts : List (Act brokerInterface World)} (quiet : ∀ a ∈ acts, a.action.leaves e = none) :
    (acts.map (Act.adds e k)).sum = 0 := by
  refine List.sum_eq_zero fun x hx => ?_
  obtain ⟨a, ha, rfl⟩ := List.mem_map.mp hx
  exact Act.adds_eq_zero (quiet a ha)

end Engines

/-- Whether an action is a step on an engine. -/
def Action.isOn (e : EngineName) : Action → Bool
  | .engine name _ => name = e
  | _ => false

theorem Action.leaves_of_isOn {action : Action} (away : action.isOn e = false) : action.leaves e = none := by
  cases action with
  | engine name op => exact if_neg (by simpa [isOn] using away)
  | _ => rfl

namespace RunsEngines

open Engines

variable (runs : RunsEngines m told) {flow : Nat} {proc : Proc} {ds : List (Deed brokerInterface World)}

include runs in
/-- An invocation minds where it stands. -/
theorem minds_of_leads {q : Code proc.Result} (invocation : proc.isInvocationOn e)
    (leads : (m.body proc).Leads m flow proc ds q) :
    q.Minds (stations e) m (fun _ st => st = .away) (station e ds) ∧
      (stations e).Followed (fun _ _ st => st) ds .away := by
  cases proc with
  | invoke name c merge nested =>
    obtain rfl : name = e := by simpa [Proc.isInvocationOn] using invocation
    rw [runs.invoke] at leads
    exact Lore.minds_leads (fun _ _ _ => rfl) (minds_invokeTelling (runs.told name) c merge) leads
  | _ => cases invocation

include runs in
/-- Nobody but an invocation on an engine writes into its books. -/
theorem aloof_body (other : proc.isInvocationOn e = false) : (m.body proc).Within (aloof e) := by
  have anything : (∀ e, proc.isInvocationOn e = false) → (m.body proc).Within (aloof e) := fun others =>
    (runs.others proc others).mono (fun _ quiet => Action.leaves_eq_none quiet) (fun _ _ => trivial)
      fun _ _ => trivial
  cases proc with
  | invoke name c merge nested =>
    have away : name ≠ e := by simpa [Proc.isInvocationOn] using other
    rw [runs.invoke]
    exact aloof_invokeTelling away (runs.told name) c merge
  | _ => exact anything fun _ => rfl

include runs in
/-- What somebody has written into the books is what he contributes to them. -/
theorem sum_adds {q : Code proc.Result} (leads : (m.body proc).Leads m flow proc ds q) :
    ((ds.filterMap Deed.act?).map (Act.adds e k)).sum = load e k ⟨proc, ds⟩ := by
  unfold load
  split
  · next invocation => exact sum_adds_of_followed (runs.minds_of_leads invocation leads).2
  · next other =>
    refine sum_adds_of_quiet fun a ha => ?_
    obtain ⟨d, here, same⟩ := List.mem_filterMap.mp ha
    cases Deed.act?_eq_some.mp same
    exact leads.acts_within (runs.aloof_body (by simpa using other)) here

include runs in
/-- Who has come to his end contributes nothing. -/
theorem load_of_done {r : proc.Result} (leads : (m.body proc).Leads m flow proc ds (.done r)) :
    load e k ⟨proc, ds⟩ = 0 := by
  unfold load
  split
  · next invocation =>
    have ended : station e ds = .away := (runs.minds_of_leads invocation leads).1
    simp [ended, Station.count]
  · rfl

end RunsEngines

/-! ## What everybody contributes -/

/-- A sum over a log is the sum over the flows of what each of them did. -/
theorem sum_by_flow (f : Act brokerInterface World → Int) {bound : Nat} {log : List (Act brokerInterface World)}
    (below : ∀ a ∈ log, a.flow < bound) :
    (log.map f).sum = ∑ flow ∈ Finset.range bound, ((log.filter (·.flow = flow)).map f).sum := by
  induction log with
  | nil => simp
  | cons a log ih =>
    obtain ⟨mine, others⟩ := List.forall_mem_cons.mp below
    have split : ∀ flow, (((a :: log).filter (·.flow = flow)).map f).sum =
        (if a.flow = flow then f a else 0) + ((log.filter (·.flow = flow)).map f).sum := by
      intro flow
      by_cases same : a.flow = flow <;> simp [same]
    simp only [List.map_cons, List.sum_cons, split, Finset.sum_add_distrib, ih others]
    simp [mine]

namespace Story

open Engines

variable {s : Story}

theorem exists_bound (s : Story) : ∃ bound, ∀ a ∈ s.log, a.flow < bound :=
  ⟨(s.log.map (·.flow)).sum + 1, fun a ha => Nat.lt_succ_of_le (List.single_le_sum (by simp) _ (List.mem_map_of_mem ha))⟩

/-- What a flow has written into the books is what those under way in it contribute. -/
theorem sum_flow (runs : RunsEngines m told) (faithful : s.Faithful m) (flow : Nat) :
    ((s.log.filter (·.flow = flow)).map (Act.adds e k)).sum = (((s.tracks flow).map (load e k)).sum : Nat) := by
  have own := ((faithful.fits.complete flow).map (Act.adds e k)).sum_eq
  rw [log, ← own, Annals.actsOf, List.map_append, List.sum_append]
  have past : (((s.annals.returns.filter (·.flow = flow)).flatMap Return.acts).map (Act.adds e k)).sum = 0 := by
    rw [List.map_flatMap, List.flatMap_def, List.sum_flatten]
    refine List.sum_eq_zero fun x hx => ?_
    simp only [List.map_map, List.mem_map] at hx
    obtain ⟨r, hr, rfl⟩ := hx
    have leads := faithful.fits.returned r (List.mem_filter.mp hr).1
    exact (runs.sum_adds leads).trans (by rw [runs.load_of_done leads]; rfl)
  have each : ∀ t ∈ s.tracks flow, (t.acts.map (Act.adds e k)).sum = (load e k t : Int) := fun t ht => by
    obtain ⟨q, leads⟩ := faithful.fits.leads ht
    exact runs.sum_adds leads
  rw [past, zero_add, List.map_flatMap, List.flatMap_def, List.sum_flatten, List.map_map, Nat.cast_list_sum,
    List.map_map]
  exact congrArg List.sum (List.map_congr_left each)

/-- What is in the books is what was there at first and what has been written since. -/
structure Booked (e : EngineName) (w : World) (s : Story) : Prop where
  known : ∀ c₀, w.counts? e = some c₀ →
    ∃ c, s.world.counts? e = some c ∧ ∀ k, (c k : Int) = c₀ k + (s.log.map (Act.adds e k)).sum
  unknown : w.counts? e = none → s.world.counts? e = none

/-- Whoever contributes something to a count has written it into the books. -/
theorem load_le (runs : RunsEngines m told) (faithful : s.Faithful m) {flow : Nat}
    {t : Track brokerInterface World} (here : t ∈ s.tracks flow) :
    (load e k t : Int) ≤ (s.log.map (Act.adds e k)).sum := by
  obtain ⟨bound, below⟩ := s.exists_bound
  have enough : ∀ a ∈ s.log, a.flow < max bound (flow + 1) := fun a ha => (below a ha).trans_le (le_max_left ..)
  rw [sum_by_flow _ enough]
  have mine : load e k t ≤ ((s.tracks flow).map (load e k)).sum := List.single_le_sum (by simp) _ (List.mem_map_of_mem here)
  calc (load e k t : Int) ≤ ((s.tracks flow).map (load e k)).sum := by exact_mod_cast mine
    _ = ((s.log.filter (·.flow = flow)).map (Act.adds e k)).sum := (sum_flow runs faithful flow).symm
    _ ≤ _ := Finset.single_le_sum (f := fun flow => ((s.log.filter (·.flow = flow)).map (Act.adds e k)).sum)
      (fun flow _ => by rw [sum_flow runs faithful flow]; exact Int.natCast_nonneg _)
      (Finset.mem_range.mpr (lt_of_lt_of_le (Nat.lt_succ_self flow) (le_max_right ..)))

/-- Who is about to write into the books stands where one does so. -/
theorem count_le_of_performed (runs : RunsEngines m told) (faithful : s.Faithful m) {t : Story}
    {a : Act brokerInterface World} (performed : Performed m s t a) {st : Station} (leaves : a.action.leaves e = some st)
    (k : Count) : (st.count k : Int) ≤ (s.log.map (Act.adds e k)).sum := by
  obtain ⟨next, wait, hf⟩ := performed.about
  obtain ⟨ds, lower, here, leads, -⟩ := faithful.fits.tracked_of_find hf
  have head : (⟨a.proc, ds⟩ : Track brokerInterface World) ∈ s.annals.tracks a.flow := here ▸ List.mem_cons_self
  have mine := load_le (e := e) (k := k) runs faithful head
  rcases invocation : a.proc.isInvocationOn e
  · have unmoved : a.action.leaves e = none := (leads.within (runs.aloof_body invocation)).1
    exact nomatch unmoved.symm.trans leaves
  · have stands : station e ds = st := (runs.minds_of_leads invocation leads).1.1.1 st leaves
    simpa [load, invocation, stands] using mine

theorem counts?_apply (change : Outside) (w : World) : (change.apply w).counts? e = w.counts? e := by
  have engines := congrArg (Option.map Engine.counts) (Aborts.endpoint?_apply change w e)
  simpa only [World.counts?, Option.map_map, Function.comp_def] using engines

theorem Booked.move {w : World} (runs : RunsEngines m told) (faithful : s.Faithful m) (booked : s.Booked e w)
    (mv : Move) : (s.move m mv).Booked e w := by
  rcases log_move (m := m) s mv with ⟨log, same⟩ | ⟨a, performed⟩
  · have books : (s.move m mv).world.counts? e = s.world.counts? e := by
      rcases same with same | ⟨change, same⟩
      · rw [same]
      · rw [same, counts?_apply]
    exact ⟨by rw [books, log]; exact booked.known, by rw [books]; exact booked.unknown⟩
  · obtain ⟨pick, done⟩ := performed.performed
    rw [runs.perform] at done
    refine ⟨fun c₀ first => ?_, fun first => ?_⟩
    · obtain ⟨c, now, sums⟩ := booked.known c₀ first
      have enough : ∀ st, a.action.leaves e = some st → ∀ k, st.count k ≤ c k := fun st leaves k => by
        have contributed := count_le_of_performed runs faithful performed leaves k
        have sum := sums k
        omega
      obtain ⟨d, after, adds⟩ := Act.counts_after done (performed.before ▸ now) enough
      refine ⟨d, performed.after ▸ after, fun k => ?_⟩
      rw [performed.log, List.map_cons, List.sum_cons, adds k, sums k]
      omega
    · have none_ := booked.unknown first
      rcases World.endpoint?_perform done e with ⟨op, r, p, q, -, hp, -⟩ | ⟨-, same⟩
      · rw [performed.before] at hp
        exact nomatch none_.symm.trans (World.counts?_of_endpoint hp)
      · rw [← none_, ← performed.after, ← performed.before]
        exact congrArg (Option.map fun p => p.engine.counts) same

theorem booked_moves (runs : RunsEngines m told) (e : EngineName) (w : World) (ms : List Move) :
    ((Story.new w).moves m ms).Booked e w :=
  (moves_keep (P := fun s => s.Faithful m ∧ s.Booked e w) (fun _ mv ⟨faithful, booked⟩ =>
    ⟨faithful.move mv, booked.move runs faithful mv⟩)
    ⟨faithful_new w, fun c₀ first => ⟨c₀, first, by simp [log, Story.new]⟩, fun first => first⟩ ms).2

/-! ## Those who come to their end -/

/-- What is innermost in a flow has come to its end. -/
def isReturning (s : Story) (flow : Nat) : Bool :=
  match s.config.find? flow with
  | some ⟨_, .done _, _⟩ => true
  | _ => false

/-- Whoever comes to his end contributes nothing. -/
theorem load_of_returning (runs : RunsEngines m told) (faithful : s.Faithful m) {flow : Nat}
    (returning : s.isReturning flow) {t : Track brokerInterface World} {lower : List (Track brokerInterface World)}
    (here : s.tracks flow = t :: lower) : load e k t = 0 := by
  unfold isReturning at returning
  split at returning
  · next proc r wait hf =>
    obtain ⟨ds, lower', tracks, leads, -⟩ := faithful.fits.tracked_of_find hf
    cases here.symm.trans tracks
    exact runs.load_of_done leads
  · cases returning

/-- What a flow has written into the books between two moments, if those who waited at the first one still wait at
the other. -/
theorem sum_recent (runs : RunsEngines m told) (faithful : s.Faithful m) {ms : List Move} {flow : Nat}
    {t u : Track brokerInterface World} {lower : List (Track brokerInterface World)}
    {recent : List (Act brokerInterface World)} (first : s.tracks flow = t :: lower)
    (last : (s.moves m ms).tracks flow = u :: lower) (log : (s.moves m ms).log = recent ++ s.log) :
    ((recent.filter (·.flow = flow)).map (Act.adds e k)).sum = load e k u - load e k t := by
  have now := sum_flow (e := e) (k := k) runs (faithful_moves faithful ms) flow
  have before := sum_flow (e := e) (k := k) runs faithful flow
  rw [log, List.filter_append, List.map_append, List.sum_append, before, first, last] at now
  simp only [List.map_cons, List.sum_cons] at now
  omega

/-- What others do to other engines is not in the books. -/
theorem sum_alone {flow : Nat} {recent : List (Act brokerInterface World)}
    (alone : ∀ a ∈ recent, a.flow ≠ flow → a.action.isOn e = false) :
    (recent.map (Act.adds e k)).sum = ((recent.filter (·.flow = flow)).map (Act.adds e k)).sum := by
  induction recent with
  | nil => rfl
  | cons a recent ih =>
    obtain ⟨mine, others⟩ := List.forall_mem_cons.mp alone
    by_cases same : a.flow = flow
    · simp [same, ih others]
    · have nothing : a.adds e k = 0 := Act.adds_eq_zero (Action.leaves_of_isOn (mine same))
      simp [same, ih others, nothing]

/-- Between two moments at which nobody but those who waited all along contributes anything, the books do not
change. -/
theorem counts?_moves (runs : RunsEngines m told) (w : World) (ms ms' : List Move)
    (same : ∀ k, (((Story.new w).moves m (ms ++ ms')).log.map (Act.adds e k)).sum =
      (((Story.new w).moves m ms).log.map (Act.adds e k)).sum) :
    ((Story.new w).moves m (ms ++ ms')).world.counts? e = ((Story.new w).moves m ms).world.counts? e := by
  have before := booked_moves runs e w ms
  have after := booked_moves runs e w (ms ++ ms')
  rcases first : w.counts? e with _ | c₀
  · rw [before.unknown first, after.unknown first]
  · obtain ⟨c, hc, sums⟩ := before.known c₀ first
    obtain ⟨d, hd, sums'⟩ := after.known c₀ first
    rw [hc, hd]
    refine congrArg some (funext fun k => ?_)
    have now := sums k
    have later := sums' k
    rw [same k] at later
    omega

/-! ## Stops of the debugger -/

/-- A callback for a stop of the engine's debugger is under way in a flow; an invocation on the engine called it. -/
def Services (s : Story) (e : EngineName) (flow : Nat) : Prop :=
  ∃ above u t below, s.tracks flow = above ++ u :: t :: below ∧ u.proc.isStopOf e ∧ t.proc.isInvocationOn e

/-- An invocation on the engine is about to call such a callback, or to take note that it is done. -/
def HandsOver (s : Story) (e : EngineName) (flow : Nat) : Prop :=
  ∃ f, s.config.find? flow = some f ∧ f.proc.isInvocationOn e ∧
    ((∃ callee next, f.code = .call callee next ∧ callee.isStopOf e) ∨ ∃ next, f.code = .act (.engine e .leaveStop) next)

theorem load_stopped {t : Track brokerInterface World} :
    load e .stopped t ≠ 0 ↔ t.proc.isInvocationOn e ∧ station e t.deeds = .stopped := by
  unfold load
  split
  · next invocation =>
    cases station e t.deeds <;> simp [Station.count, invocation]
  · next other => simp [other]

/-- An invocation that services a stop has called a callback for it, or is about to, or to take note that it is
done. -/
theorem services_of_load (runs : RunsEngines m told) (faithful : s.Faithful m) {flow : Nat}
    {t : Track brokerInterface World} (here : t ∈ s.tracks flow) (contributes : load e .stopped t ≠ 0) :
    s.Services e flow ∨ s.HandsOver e flow := by
  obtain ⟨invocation, stands⟩ := load_stopped.mp contributes
  obtain ⟨above, below, split⟩ := List.append_of_mem here
  rcases above.eq_nil_or_concat with rfl | ⟨up, u, rfl⟩
  · have present : (s.config.find? flow).isSome := by
      by_contra absent
      have away : flow ∉ s.config.flows.map Prod.fst := by
        simpa [Config.find?, List.find?_eq_none] using absent
      rw [tracks, faithful.fits.gone flow away] at here
      cases here
    obtain ⟨⟨proc, code, wait⟩, hf⟩ := Option.isSome_iff_exists.mp present
    obtain ⟨ds, lower, tracks, leads, -⟩ := faithful.fits.tracked_of_find hf
    cases (split.symm.trans tracks)
    have minds := (runs.minds_of_leads invocation leads).1
    rw [stands] at minds
    refine .inr ⟨_, hf, invocation, ?_⟩
    cases code with
    | done r => cases minds
    | act action next => exact .inr (by cases Action.eq_leaveStop (minds.1.2 rfl); exact ⟨next, rfl⟩)
    | call callee next => exact .inl ⟨callee, next, rfl, minds.1.mpr rfl⟩
    | fork other next => exact absurd rfl minds.1
  · have split' : s.tracks flow = up ++ u :: t :: below := by simpa using split
    obtain ⟨next, leads⟩ := faithful.fits.called split'
    have minds := (runs.minds_of_leads invocation leads).1
    exact .inl ⟨up, u, t, below, split', minds.1.mpr stands, invocation⟩

theorem load_of_services (runs : RunsEngines m told) (faithful : s.Faithful m) {flow : Nat}
    (services : s.Services e flow ∨ s.HandsOver e flow) : ∃ t ∈ s.tracks flow, load e .stopped t ≠ 0 := by
  rcases services with ⟨above, u, t, below, split, stop, invocation⟩ | ⟨f, hf, invocation, hands⟩
  · obtain ⟨next, leads⟩ := faithful.fits.called split
    have minds := (runs.minds_of_leads invocation leads).1
    exact ⟨t, by simp [split], load_stopped.mpr ⟨invocation, minds.1.mp stop⟩⟩
  · obtain ⟨ds, lower, tracks, leads, -⟩ := faithful.fits.tracked_of_find hf
    have minds := (runs.minds_of_leads invocation leads).1
    have here : (⟨f.proc, ds⟩ : Track brokerInterface World) ∈ s.annals.tracks flow := tracks ▸ List.mem_cons_self
    refine ⟨_, here, load_stopped.mpr ⟨invocation, ?_⟩⟩
    rcases hands with ⟨callee, next, same, stop⟩ | ⟨next, same⟩
    · rw [same] at minds
      exact minds.1.mp stop
    · rw [same] at minds
      exact minds.1.1 .stopped (by simp [Action.leaves, EngineOp.leaves])

/-- The debugger of an engine is stopped just as long as a callback for a stop is being called. -/
theorem isStopped_iff (runs : RunsEngines m told) {w : World} (ms : List Move) {p₀ p : Endpoint}
    (first : w.endpoint? e = some p₀) (now : ((Story.new w).moves m ms).world.endpoint? e = some p) :
    p.engine.isStopped ↔ p₀.engine.isStopped ∨ ∃ flow, ((Story.new w).moves m ms).Services e flow ∨
      ((Story.new w).moves m ms).HandsOver e flow := by
  have faithful := faithful_moves (m := m) (faithful_new w) ms
  obtain ⟨c, hc, sums⟩ := (booked_moves runs e w ms).known _ (World.counts?_of_endpoint first)
  cases Option.some.inj ((World.counts?_of_endpoint now).symm.trans hc)
  have sum : (p.engine.stoppedDepth : Int) = p₀.engine.stoppedDepth + _ := sums .stopped
  have stopped : ∀ q : Endpoint, q.engine.isStopped ↔ q.engine.stoppedDepth ≠ 0 := fun q => by
    simp [Engine.isStopped]
  rw [stopped, stopped]
  constructor
  · intro deep
    by_contra nobody
    obtain ⟨shallow, nobody⟩ := not_or.mp nobody
    obtain ⟨bound, below⟩ := ((Story.new w).moves m ms).exists_bound
    rw [sum_by_flow _ below, Finset.sum_eq_zero fun flow _ => ?_] at sum
    · omega
    rw [sum_flow runs faithful flow, List.sum_eq_zero fun x hx => ?_]
    · rfl
    obtain ⟨t, here, rfl⟩ := List.mem_map.mp hx
    by_contra contributes
    exact nobody ⟨flow, services_of_load runs faithful here contributes⟩
  · rintro (deep | ⟨flow, services⟩)
    · obtain ⟨bound, below⟩ := ((Story.new w).moves m ms).exists_bound
      have more : 0 ≤ (((Story.new w).moves m ms).log.map (Act.adds e .stopped)).sum := by
        rw [sum_by_flow _ below]
        exact Finset.sum_nonneg fun flow _ => by rw [sum_flow runs faithful flow]; exact Int.natCast_nonneg _
      omega
    · obtain ⟨t, here, contributes⟩ := load_of_services runs faithful services
      have more := load_le (e := e) (k := .stopped) runs faithful here
      omega

/-- No other flow has an invocation on an engine under way. -/
def Alone (s : Story) (e : EngineName) (flow : Nat) : Prop :=
  ∀ other ≠ flow, ∀ t ∈ s.tracks other, t.proc.isInvocationOn e = false

/-- Who is alone with an engine and about to do something else than to take note of the end of a stop, sees that the
debugger is stopped just when a callback of his is under way. -/
theorem services_iff_of_alone (faithful : s.Faithful m) {flow : Nat} (alone : s.Alone e flow) {proc : Proc}
    {action : Action} {next : action.Reply → Code proc.Result} {wait : Waiting brokerInterface proc}
    (about : s.config.find? flow = some ⟨proc, .act action next, wait⟩) (other : action ≠ .engine e .leaveStop) :
    (∃ flow, s.Services e flow ∨ s.HandsOver e flow) ↔ s.Services e flow := by
  refine ⟨?_, fun services => ⟨flow, .inl services⟩⟩
  rintro ⟨id, services⟩
  by_cases mine : id = flow
  · subst mine
    refine services.resolve_right ?_
    rintro ⟨f, hf, -, ⟨callee, next, same, -⟩ | ⟨next, same⟩⟩
    · cases hf.symm.trans about
      cases same
    · cases hf.symm.trans about
      cases same
      exact other rfl
  · rcases services with ⟨above, u, t, below, split, -, invocation⟩ | ⟨f, hf, invocation, -⟩
    · exact absurd invocation (by simp [alone id mine t (by simp [split])])
    · obtain ⟨ds, lower, tracks, -, -⟩ := faithful.fits.tracked_of_find hf
      have here : (⟨f.proc, ds⟩ : Track brokerInterface World) ∈ s.annals.tracks id := tracks ▸ List.mem_cons_self
      exact absurd invocation (by simp [alone id mine _ here])

/-- A command at the prompt of a debugger that is not stopped fails and does nothing. -/
theorem atPrompt_of_not_stopped (runs : RunsEngines m told) {flow : Nat} {proc : Proc} {c : Command}
    {goesOn : Except EngineFailure PromptReply → Code proc.Result} {wait : Waiting brokerInterface proc} {p : Endpoint}
    (about : s.config.find? flow = some ⟨proc, Engines.atPrompt e c >>= goesOn, wait⟩)
    (known : s.world.endpoint? e = some p) (running : p.engine.isStopped = false) (pick : Bool) :
    (s.move m (.step flow pick)).config.find? flow = some ⟨proc, goesOn (.error
        (if p.foreign then .fatal "unsupported runspace" else .runtime "the debugger is not stopped")), wait⟩ ∧
      ∀ name, (s.move m (.step flow pick)).world.endpoint? name = s.world.endpoint? name := by
  have performed : m.perform flow pick (.engine e .debugger) s.config.shared =
      some ((!p.foreign && p.engine.isStopped, !p.foreign), s.world.modifyEndpoint e fun _ => p) := by
    rw [runs.perform]
    have known : s.config.shared.endpoint? e = some p := known
    simp only [World.perform, World.performEngine, known]
    rfl
  obtain ⟨config, world⟩ := step_act about performed
  refine ⟨config.trans ?_, fun name => ?_⟩
  · rw [running]
    cases p.foreign <;> rfl
  · rw [world, World.endpoint?_modifyEndpoint]
    by_cases same : name = e
    · simp [same, known]
    · simp [same]

/-- **The books of an engine.** Whatever hooks do when they are called back, and whatever else happens: an invocation
that comes to its end, while no other flow uses its engine, leaves the books of the engine as they were when it was
called. The debugger is stopped just as long as a callback for a stop is being called, which one who is alone with
the engine sees as the callback being under way. A command at the debugger's prompt fails outside of such a callback
and does nothing to any engine. -/
theorem books_bracketed (runs : RunsEngines m told) (e : EngineName) (w : World) (ms : List Move) {s : Story}
    (reached : s = (Story.new w).moves m ms) :
    (∀ ms' {flow c merge nested t lower recent}, s.tracks flow = ⟨.invoke e c merge nested, []⟩ :: lower →
      (s.moves m ms').tracks flow = t :: lower → (s.moves m ms').isReturning flow →
      (s.moves m ms').log = recent ++ s.log → (∀ a ∈ recent, a.flow ≠ flow → a.action.isOn e = false) →
      (s.moves m ms').world.counts? e = s.world.counts? e) ∧
    ∀ p₀ p, w.endpoint? e = some p₀ → s.world.endpoint? e = some p → p₀.engine.isStopped = false →
      (p.engine.isStopped ↔ ∃ flow, s.Services e flow ∨ s.HandsOver e flow) ∧
      (∀ flow proc action next wait, s.Alone e flow → s.config.find? flow = some ⟨proc, .act action next, wait⟩ →
        action ≠ .engine e .leaveStop → (p.engine.isStopped ↔ s.Services e flow)) ∧
      ∀ flow proc c goesOn wait pick, s.Alone e flow → ¬s.Services e flow →
        s.config.find? flow = some ⟨proc, Engines.atPrompt e c >>= goesOn, wait⟩ →
        (s.move m (.step flow pick)).config.find? flow = some ⟨proc, goesOn (.error
            (if p.foreign then .fatal "unsupported runspace" else .runtime "the debugger is not stopped")), wait⟩ ∧
          ∀ name, (s.move m (.step flow pick)).world.endpoint? name = s.world.endpoint? name := by
  subst reached
  have faithful := faithful_moves (m := m) (faithful_new w) ms
  constructor
  · intro ms' flow c merge nested t lower recent called last returning log alone
    rw [← moves_append] at last returning log ⊢
    refine counts?_moves runs w ms ms' fun k => ?_
    have own := sum_recent (e := e) (k := k) runs faithful called (moves_append ms ms' ▸ last)
      (moves_append ms ms' ▸ log)
    have ended := load_of_returning (e := e) (k := k) runs (faithful_moves (faithful_new w) (ms ++ ms')) returning last
    have fresh : load e k ⟨.invoke e c merge nested, []⟩ = 0 := by
      simp [load, station, Lore.remembered, Station.count]
    rw [log, List.map_append, List.sum_append, sum_alone alone, own, ended, fresh]
    simp
  · intro p₀ p first now running
    have stopped := (isStopped_iff runs ms first now).trans (or_iff_right (by simp [running]))
    refine ⟨stopped, fun flow proc action next wait alone about other => ?_,
      fun flow proc c goesOn wait pick alone outside about => ?_⟩
    · exact stopped.trans (services_iff_of_alone faithful alone about other)
    · obtain ⟨next, asks⟩ : ∃ next, ((Story.new w).moves m ms).config.find? flow =
          some ⟨proc, .act (.engine e .debugger) next, wait⟩ := ⟨_, about⟩
      have seen := stopped.trans (services_iff_of_alone faithful alone asks (by rintro ⟨⟩))
      exact atPrompt_of_not_stopped runs about now (by simpa [outside] using seen) pick

open Stops (stoppingEndpoints)

/-- Hooks are registered that run another command which stops, ask the engine to stop, close it and try a third
command; a command stops, and its first callback is about to run the other one. -/
def stoppedTwice : List Move :=
  [.arrive "plans" (.engineStep "main" (.register
    [.mk [.invoke (.script "inner") false false, .stop, .close, .invoke (.script "late") true true] .continue,
      .mk [.setIdentity ⟨2, "localhost", "host"⟩, .unregister] .stop]))] ++ turns 0 20 ++
    [.arrive "run" (.invoke "main" (.script "outer") false false)] ++ turns 1 12

/-- A procedure has just been called to run a command on an engine. -/
def isFresh (e : EngineName) : Track brokerInterface World → Bool
  | ⟨.invoke name _ _ _, []⟩ => name = e
  | _ => false

theorem eq_of_isFresh {t : Track brokerInterface World} (fresh : isFresh e t) :
    ∃ c merge nested, t = ⟨.invoke e c merge nested, []⟩ := by
  obtain ⟨proc, ds⟩ := t
  cases proc with
  | invoke name c merge nested =>
    cases ds with
    | nil => exact ⟨c, merge, nested, by rw [of_decide_eq_true fresh]⟩
    | cons => cases fresh
  | _ => cases fresh

theorem books_bracketed_nested :
    let s := (Story.new (.new .standard stoppingEndpoints "main" .new)).moves brokerMachine stoppedTwice
    (s.moves brokerMachine (turns 1 19)).isReturning 1 ∧
      (s.moves brokerMachine (turns 1 19)).world.counts? "main" = s.world.counts? "main" ∧
      ∃ flow, s.Services "main" flow ∨ s.HandsOver "main" flow := by
  intro s
  have called : (s.tracks 1).head?.any (isFresh "main") := by decide +kernel
  have returning : (s.moves brokerMachine (turns 1 19)).isReturning 1 := by decide +kernel
  have waits : ∀ n ≤ 19, (s.tracks 1).tail.length < ((s.moves brokerMachine ((turns 1 19).take n)).tracks 1).length := by
    decide +kernel
  have ends : ((s.moves brokerMachine (turns 1 19)).tracks 1).length = (s.tracks 1).tail.length + 1 := by
    decide +kernel
  have alone : ∀ a ∈ (s.moves brokerMachine (turns 1 19)).log.take
      ((s.moves brokerMachine (turns 1 19)).log.length - s.log.length), a.flow ≠ 1 → a.action.isOn "main" = false := by
    decide +kernel
  have faithful : s.Faithful brokerMachine := faithful_moves (faithful_new _) _
  obtain ⟨t, here, fresh⟩ := (Option.any_eq_true _ _).mp called
  obtain ⟨c, merge, nested, rfl⟩ := eq_of_isFresh fresh
  obtain ⟨lower, first⟩ : ∃ lower, s.tracks 1 = ⟨.invoke "main" c merge nested, []⟩ :: lower := List.head?_eq_some_iff.mp here
  simp only [first, List.tail_cons] at waits ends
  obtain ⟨upper, last, -⟩ : ∃ upper, (s.moves brokerMachine (turns 1 19)).tracks 1 = upper ++ lower ∧ upper ≠ [] :=
    waiting_moves faithful first (List.cons_ne_nil _ []) waits
  have single : upper.length = 1 := by
    rw [last, List.length_append] at ends
    omega
  obtain ⟨u, rfl⟩ := List.length_eq_one_iff.mp single
  have log := List.suffix_iff_eq_append.mp (log_moves (m := brokerMachine) s (turns 1 19))
  obtain ⟨bracketed, stops⟩ := books_bracketed runsEngines_broker "main" (.new .standard stoppingEndpoints "main" .new)
    stoppedTwice (s := s) rfl
  have stopped : (s.world.endpoint? "main").any (·.engine.isStopped) := by decide +kernel
  obtain ⟨p, now, isStopped⟩ := (Option.any_eq_true _ _).mp stopped
  exact ⟨returning, bracketed _ first last returning log.symm alone, (stops _ p rfl now rfl).1.mp isStopped⟩

end Story

end SessionBroker
