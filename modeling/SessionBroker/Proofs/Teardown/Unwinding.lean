import SessionBroker.Proofs.Plays

/-!
# Sessions that come and go in one step

A session that is pushed or popped takes the broker's hooks along. Here nobody else moves in between: once
a flow has pushed or popped a session, only that flow makes steps until it has told of the change.
-/

namespace SessionBroker

/-- Flows under way, while nobody arrives and nothing happens outside. -/
structure Unwinding where
  config : BrokerConfig
  /-- The flow that has pushed or popped a session and has not told of it yet. -/
  changer : Option Nat
  /-- The engines that were closed, the last one first. -/
  closed : List EngineName

namespace Unwinding

/-- The flow that is in the middle of a change after an action in some world. -/
def changerAfter (flow : Nat) (w : World) (before : Option Nat) : Action → Option Nat
  | .sessions (.push _) => some flow
  | .sessions .pop => if w.sessions.above.isEmpty then before else some flow
  | .broker (.notify (.sessionChanged ..)) => none
  | _ => before

def closedAfter (before : List EngineName) : Action → List EngineName
  | .engine e .close => e :: before
  | _ => before

/-- Whoever is in the middle of a change now was so before or has just acted. -/
theorem eq_or_of_changerAfter {flow i : Nat} {w : World} {before : Option Nat} {action : Action}
    (h : changerAfter flow w before action = some i) : i = flow ∨ before = some i := by
  unfold changerAfter at h
  split at h
  · exact .inl (Option.some.inj h).symm
  · split at h
    · exact .inr h
    · exact .inl (Option.some.inj h).symm
  · cases h
  · exact .inr h

/-- One step of a flow; none while another one changes the session stack. -/
def step? (u : Unwinding) (flow : Nat) (pick : Bool) : Option Unwinding :=
  if u.changer.all (· = flow) then
    (brokerMachine.step? u.config flow pick).map fun c =>
      match (u.config.find? flow).bind Flow.action? with
      | some action => ⟨c, changerAfter flow u.config.shared u.changer action, closedAfter u.closed action⟩
      | none => { u with config := c }
  else none

/-- Whatever steps are made, after finitely many of them nobody can make another one, and something is true
then. -/
inductive Ends (atLast : Unwinding → Prop) : Unwinding → Prop where
  | intro (u : Unwinding) : (∀ flow pick v, u.step? flow pick = some v → Ends atLast v) →
      ((∀ flow pick, u.step? flow pick = none) → atLast u) → Ends atLast u

theorem Ends.imp {u : Unwinding} {atLast atLast' : Unwinding → Prop} (ends : Ends atLast u)
    (weaker : ∀ v, atLast v → atLast' v) : Ends atLast' u := by
  induction ends with
  | intro u _ rest ih => exact .intro u ih fun stuck => weaker u (rest stuck)

variable {u v : Unwinding} {flow : Nat} {pick : Bool}

/-- A step is an action that is performed, or nothing happens to the world. -/
theorem step_cases (h : u.step? flow pick = some v) : (∀ i, u.changer = some i → i = flow) ∧
    ∃ f, u.config.find? flow = some f ∧
      ((f.action? = none ∧ brokerMachine.stepFlow u.config flow pick f = some v.config ∧
          v.changer = u.changer ∧ v.closed = u.closed) ∨
        ∃ (proc : Proc) (action : Action) (next : action.Reply → Code proc.Result)
          (wait : Waiting brokerInterface proc) (r : action.Reply) (w : World),
          f = ⟨proc, .act action next, wait⟩ ∧
          World.perform flow pick action u.config.shared = some (r, w) ∧
          v = ⟨Config.update { u.config with shared := w } flow ⟨proc, next r, wait⟩,
            changerAfter flow u.config.shared u.changer action, closedAfter u.closed action⟩) := by
  unfold step? at h
  split at h
  · next mine =>
    refine ⟨fun i hi => by simpa [hi] using mine, ?_⟩
    obtain ⟨c, hc, rfl⟩ := Option.map_eq_some_iff.mp h
    obtain ⟨⟨proc, code, wait⟩, hf, hs⟩ := Option.bind_eq_some_iff.mp hc
    refine ⟨_, hf, ?_⟩
    simp only [hf, Option.bind_some]
    cases code with
    | act action next =>
      refine .inr ⟨proc, action, next, wait, ?_⟩
      simp only [Machine.stepFlow] at hs
      split at hs
      · cases hs
      · next r w hp =>
        cases hs
        exact ⟨r, w, rfl, hp, rfl⟩
    | done a => exact .inl ⟨rfl, hs, rfl, rfl⟩
    | call callee next => exact .inl ⟨rfl, hs, rfl, rfl⟩
    | fork other next => exact .inl ⟨rfl, hs, rfl, rfl⟩
  · cases h

end Unwinding

end SessionBroker
