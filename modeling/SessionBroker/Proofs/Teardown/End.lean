import SessionBroker.Proofs.Teardown.Course
import SessionBroker.Proofs.Teardown.Descent

/-!
# The end of the teardown

There are only finitely many sessions to pop. Between two pops nobody has a procedure to call that would
not come to an end, so that after finitely many steps nobody can make another one.
-/

namespace SessionBroker.Teardown

open Relation (CutExpand)

/-- Replies that leave all sessions where they are, to actions that need not wait for the engine, and those
of a read loop that has nothing to run. -/
def isQuiet : (action : Action) → action.Reply → Prop
  | .sessions .pop, popped => popped = none
  | .idle .take, some _ => False
  | .host (.poll _), .pump => False
  | .broker (.awaitAvailability _), _ => False
  | _, _ => True

/-- The procedures that may be called. -/
def callable : Proc → Prop
  | .dispose | .popSessions | .awaitUsable _ | .pump | .hostRead _ => True
  | _ => False

/-- What the flow that disposes the broker does calls nothing else of these. -/
def popping : Scope brokerInterface := ⟨fun _ => True, fun p => p.IsInner ∨ p = .popSessions, fun _ => True⟩

instance : popping.Inner := ⟨fun _ _ => trivial, fun _ h => .inl h, fun _ _ => trivial⟩

@[local simp] theorem popping_acts {action : Action} : popping.acts action := trivial

@[local simp] theorem popping_calls {callee : Proc} :
    popping.calls callee ↔ callee.IsInner ∨ callee = .popSessions := Iff.rfl

theorem within_dispose : Aborting.dispose.Within popping := by
  refine Program.within_bind (by simp) fun phase => ?_
  split
  · simp
  · refine Program.within_bind (by simp) fun _ => Program.within_bind (by simp) fun live => ?_
    refine Program.within_bind (by simp) fun served => Program.within_bind (by simp) fun _ => ?_
    simp

abbrev Brief : Proc → Prop := Machine.Brief brokerMachine isQuiet callable

/-- A procedure is brief that calls none of them again. -/
theorem brief_of_calls_none {callee : Proc}
    (h : Program.Calls isQuiet callable (fun _ => False) (brokerMachine.body callee)) : Brief callee :=
  Machine.brief_of_calls h fun _ none => none.elim

theorem brief_popSessions : Brief .popSessions := by
  refine brief_of_calls_none ?_
  rintro _ rfl
  trivial

theorem brief_awaitUsable (n : Nat) : Brief (.awaitUsable n) := by
  refine brief_of_calls_none ?_
  intro s _ availability _
  show Program.Calls _ _ _ (if Availability.isUsable availability then _ else _)
  split
  · trivial
  · rintro _ ⟨⟩

theorem brief_pump : Brief .pump := by
  refine brief_of_calls_none ?_
  intro task quiet
  rcases task with _ | task
  · trivial
  · exact quiet.elim

theorem brief_hostRead (reader : Nat) : Brief (.hostRead reader) := by
  refine brief_of_calls_none ?_
  intro event quiet
  rcases event with _ | _ | text | _
  case pump => exact quiet.elim
  all_goals trivial

theorem brief_dispose : Brief .dispose := by
  have pops : Program.Calls isQuiet callable (fun p : Proc => p = .popSessions) Aborting.dispose := by
    refine Program.calls_of_within ?_ within_dispose
    rintro callee (inner | rfl) called
    · cases callee <;> first | exact inner.elim | exact called.elim
    · rfl
  refine Machine.brief_of_calls pops ?_
  rintro _ rfl
  exact brief_popSessions

theorem brief_of_callable {callee : Proc} (called : callable callee) : Brief callee := by
  cases callee
  case dispose => exact brief_dispose
  case popSessions => exact brief_popSessions
  case awaitUsable n => exact brief_awaitUsable n
  case pump => exact brief_pump
  case hostRead reader => exact brief_hostRead reader
  all_goals exact called.elim

/-- Flows come to an end as long as no session is popped. -/
theorem wellFounded_from : WellFounded (Flow.From brokerMachine isQuiet callable) :=
  Machine.wellFounded_from fun _ called => brief_of_callable called

/-! ## Every run ends -/

variable {old : Onset} {d flow : Nat} {u v : Unwinding} {x : Reach} {hand : Nat → Charge} {pick : Bool}

/-- What a flow may call comes to an end. -/
theorem callable_of_mayCall {h : Charge} {callee : Proc} (may : mayCall h callee) : callable callee := by
  cases callee <;> first | exact may.elim | trivial

/-- One that may act pops a session, or leaves all of them where they are. -/
theorem sessionsAfter_of_may {h : Charge} {action : Action} {t : SessionStack} (may : may old h action)
    (other : action ≠ .sessions .pop) : World.sessionsAfter t action = t := by
  cases action with
  | sessions op =>
    cases op
    case pop => exact absurd rfl other
    all_goals first | exact may.elim | rfl
  | _ => rfl

/-- A step pops a session, or one flow comes closer to its end. -/
theorem Underway.descends (b : Underway old d u x hand) (fit : Fit old) (h : u.step? flow pick = some v) :
    v.config.shared.sessions.above.length < u.config.shared.sessions.above.length ∨
      v.config.shared.sessions = u.config.shared.sessions ∧
        CutExpand (Flow.From brokerMachine isQuiet callable) v.config.allFlows u.config.allFlows := by
  obtain ⟨turn, ⟨proc, code, wait⟩, hf, same | acted⟩ := Unwinding.step_cases h
  · obtain ⟨quiet, stepped, -, -⟩ := same
    obtain ⟨called, minds, waiting⟩ := b.minds _ (Config.mem_of_find? hf)
    right
    cases code with
    | done a =>
      cases wait with
      | root =>
        rw [← Option.some.inj stepped]
        exact ⟨rfl, b.numbered.cutExpand_remove hf⟩
      | caller next below =>
        rw [← Option.some.inj stepped]
        exact ⟨rfl, b.numbered.cutExpand_update hf u.config.shared .ret⟩
    | call callee next =>
      rw [← Option.some.inj stepped]
      exact ⟨rfl, b.numbered.cutExpand_update hf u.config.shared (.call (callable_of_mayCall (minds.1 _ rfl)))⟩
    | fork other next => cases minds.1
    | act action next => cases quiet
  · obtain ⟨_, action, next, _, r, w, same, performed, rfl⟩ := acted
    cases same
    obtain ⟨called, ⟨acts, -⟩, -⟩ := b.minds _ (Config.mem_of_find? hf)
    have may := (acts _ rfl).2
    have closer (ok : isQuiet action r) : CutExpand (Flow.From brokerMachine isQuiet callable)
        (Config.update { u.config with shared := w } flow ⟨proc, next r, wait⟩).allFlows u.config.allFlows :=
      b.numbered.cutExpand_update hf w
        (@Flow.From.act brokerInterface World brokerMachine isQuiet callable proc action next wait r ok)
    have after : w.sessions = World.sessionsAfter u.config.shared.sessions action := World.sessions_perform performed
    by_cases popping : action = .sessions .pop
    · subst popping
      rw [World.sessionsAfter] at after
      rcases popped : u.config.shared.sessions.pop? with _ | ⟨s, t⟩
      · right
        simp only [World.perform, World.performSessions, popped] at performed
        cases performed
        exact ⟨rfl, closer rfl⟩
      · left
        have pushed : u.config.shared.sessions = t.push s := SessionStack.pop?_eq_some.mp popped
        have left : w.sessions = t := by
          rw [after, popped]
          rfl
        show w.sessions.above.length < _
        rw [left, pushed]
        exact Nat.lt_succ_self _
    · right
      refine ⟨after.trans (sessionsAfter_of_may may popping), closer ?_⟩
      obtain ⟨k, x', noted, -⟩ := b.account.act fit b.idling (by simp [hf]) turn may performed
      unfold isQuiet
      split
      · exact absurd rfl popping
      · cases noted
      · cases noted
      · cases noted
      · trivial

/-- In the end there is nothing left of what there was. -/
structure TornDown (old : World) (d : Nat) (u : Unwinding) : Prop where
  /-- The one who disposes the broker has returned. -/
  gone : u.config.find? d = none
  /-- Only the top level's frame is left on the stack. -/
  frames : u.config.shared.frames.above = []
  /-- The others are torn down. -/
  others : ∀ i ∈ old.frames.above, Finished u.config.shared.frames i ∧ Shut u.config.shared.frames i
  /-- Only the original session is left. -/
  sessions : u.config.shared.sessions = .ofBottom old.sessions.bottom
  /-- The broker's hooks are on no engine. -/
  hooks : ∀ name, u.config.shared.hooksOn name ≠ some .broker
  /-- An engine has been closed as often as a session owned it. -/
  closed : ∀ name, u.closed.count name = owners old.sessions.toList name
  disposed : u.config.shared.phase = .disposed

/-- When nobody can make a step, everything is torn down. -/
theorem Underway.tornDown (b : Underway old d u x hand) (rest : ∀ flow pick, u.step? flow pick = none) :
    TornDown old.toWorld d u := by
  have gone := b.gone_at_rest rest
  have ended := b.gone gone
  obtain ⟨ending, finished⟩ := b.account.ended ended
  have above : u.config.shared.frames.above = [] := by
    obtain ⟨k, lost, -, -, above⟩ := b.account.frames.left
    refine List.eq_nil_iff_forall_not_mem.mpr fun i on => ?_
    have known : Finished u.config.shared.frames i := by
      refine b.account.frames.known i (finished i ?_)
      rw [above] at on
      exact List.drop_subset_drop_left _ lost on
    obtain ⟨m, hm, past⟩ := known
    obtain ⟨j, hj⟩ := List.mem_iff_getElem?.mp (b.account.frames.subset on)
    obtain ⟨m', hm', box⟩ := b.account.frames.boxes j i hj
    obtain rfl : m' = m := Option.some.inj (hm'.symm.trans hm)
    exact box.off past on
  have nobody := b.changer_eq_none rest
  have sessions := b.account.sessions
  have nothing : (hand d).deeds = [] := by
    have unchanged : (hand d).change = none := by
      rw [← Option.not_isSome_iff_eq_none, b.account.changing d, nobody]
      simp
    simp [Charge.deeds, unchanged, b.account.mine, ending]
  rw [nobody, Option.getD_none, nothing, ending, Option.isSome_some] at sessions
  have empty := sessions.empty (sessions.last rfl)
  refine ⟨gone, above, fun i hi => b.over_at_rest rest hi (by simp [above]), ?_, fun name h => ?_, fun name => ?_,
    b.account.phase.mpr ended⟩
  · rw [← sessions.bottom]
    exact congrArg (SessionStack.mk · _) empty
  · obtain ⟨s, hs, -⟩ := sessions.placed name h
    simp [standing] at hs
  · simpa [standing, owners] using sessions.closings name

/-- However the flows make their steps, the teardown comes to its end. -/
theorem Underway.ends (fit : Fit old) (b : Underway old d u x hand) : u.Ends (TornDown old.toWorld d) := by
  have wf := WellFounded.prod_lex Nat.lt_wfRel.wf wellFounded_from.cutExpand
  generalize size : (u.config.shared.sessions.above.length, u.config.allFlows) = n
  induction n using wf.induction generalizing u x hand with
  | _ n ih =>
    subst size
    refine .intro u (fun flow pick v h => ?_) b.tornDown
    obtain ⟨x', hand', underway⟩ := b.step fit h
    refine ih _ ?_ underway rfl
    rcases b.descends fit h with popped | ⟨same, less⟩
    · exact .left _ _ popped
    · rw [same]
      exact .right _ less

end SessionBroker.Teardown
