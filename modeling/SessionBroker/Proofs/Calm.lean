import SessionBroker.Proofs.Plain

/-!
# Calm programs

Calm programs may ask, answer and keep promises, but they have to do neither with leases nor with the
phase and the announcement of commands. They may have commands run on other threads.
-/

namespace SessionBroker

/-- Actions that have to do with neither. -/
def Action.IsCalm : Action → Prop
  | .frames (.look ..) | .frames (.release _) | .broker (.beginAbort _) | .broker .endCommand
  | .broker .clearAbortReport | .broker (.notify (.progress ..)) => False
  | .broker (.setPhase target) => target = .ready ∨ target = .disposed
  | _ => True

/-- Steps on an engine from outside that run no command there. -/
def EngineStep.IsCalm : EngineStep → Prop
  | .invoke .. | .atPrompt .. => False
  | _ => True

/-- Procedures that calm programs may call. -/
def Proc.IsCalm : Proc → Prop
  | .awaitAnswer .. | .serve .. | .serveNext _ | .rehearsedNext _ | .nestedPromptEntered ..
  | .resumeDebugger .. | .compute .. => True
  | .engineStep _ step => step.IsCalm
  | .runCommand _ _ _ way => way = .idle
  | p => p.IsStill

/-- Flows that calm programs may start. -/
def Proc.IsThread : Proc → Prop
  | .restartLoop _ | .nestedPrompt .. => True
  | _ => False

/-- What calm programs do. -/
def calmScope : Scope brokerInterface := ⟨Action.IsCalm, Proc.IsCalm, Proc.IsThread⟩

/-- A scope that allows whatever calm programs do. -/
class Scope.Calm (S : Scope brokerInterface) : Prop where
  acts : ∀ a, calmScope.acts a → S.acts a
  calls : ∀ p, calmScope.calls p → S.calls p
  starts : ∀ p, calmScope.starts p → S.starts p

instance : calmScope.Calm := ⟨fun _ h => h, fun _ h => h, fun _ h => h⟩

theorem Action.IsPlain.isCalm {a : Action} (plain : a.IsPlain) : a.IsCalm := by
  rcases a with _ | op | _ | op | _ | op
  case frames => cases op <;> trivial
  case broker =>
    cases op
    case notify n => cases n <;> trivial
    all_goals trivial
  all_goals trivial

instance (S : Scope brokerInterface) [calm : S.Calm] : S.Still where
  acts a h := calm.acts a h.isCalm
  calls p h := calm.calls p (by cases p <;> trivial)
  starts := by
    rintro _ ⟨frame, rfl⟩
    exact calm.starts _ trivial

theorem Program.Within.calmly {α : Type} {p : Code α} {S : Scope brokerInterface} [calm : S.Calm]
    (h : p.Within calmScope) : p.Within S :=
  h.mono calm.acts calm.calls calm.starts

@[simp] theorem calmScope_acts {a : Action} : calmScope.acts a ↔ a.IsCalm := Iff.rfl
@[simp] theorem calmScope_calls {p : Proc} : calmScope.calls p ↔ p.IsCalm := Iff.rfl
@[simp] theorem calmScope_starts {p : Proc} : calmScope.starts p ↔ p.IsThread := Iff.rfl

attribute [simp] Action.IsCalm EngineStep.IsCalm Proc.IsCalm Proc.IsThread

variable {S : Scope brokerInterface} [S.Calm]

namespace Engines

variable {e : EngineName}

/-- The probe of an engine. -/
theorem calm_invoke {c : Command} (probe : c.isProbe) (merge : Bool) :
    (invoke e c merge).Within S := by
  refine Program.Within.calmly ?_
  refine Program.within_bind (by simp) fun entered => ?_
  cases entered with
  | error f => simp
  | ok _ =>
    refine Program.within_bind ?_ fun r => by simp
    rw [run, if_pos probe]
    simp

theorem calm_step {step : EngineStep} (calm : step.IsCalm) : (Engines.step e step).Within S := by
  refine Program.Within.calmly ?_
  cases step <;> first | exact calm.elim | simp [Engines.step]

end Engines

namespace Routing

@[simp] theorem calm_behindLoop (frame : FrameRef) (q : Request) : (behindLoop frame q).Within S := by
  refine Program.Within.calmly ?_
  refine Program.within_bind (by simp) fun e => Program.within_bind (by simp) fun promise => ?_
  cases promise with
  | none => simp
  | some p =>
    refine Program.within_bind (by simp) fun payload => ?_
    rcases payload with _ | _ | _ | _ <;> simp

@[simp] theorem calm_answered (frame ticket : Nat) (a : Option (Mailbox.Answer Response)) :
    (answered frame ticket a).Within S := by
  refine Program.Within.calmly ?_
  cases a <;> simp [answered]

@[simp] theorem calm_awaitAnswer (frame ticket : Nat) : (awaitAnswer frame ticket).Within S :=
  Program.within_bind (Program.Within.calmly (by simp)) fun _ => calm_answered frame ticket _

@[simp] theorem calm_ask (frame : Nat) (q : Request) : (ask frame q).Within S := by
  refine Program.Within.calmly ?_
  refine Program.within_bind (by simp) fun ticket => Program.within_bind (by simp) fun first => ?_
  refine Program.within_bind (calm_answered frame ticket first) fun answer => ?_
  cases answer <;> simp

@[simp] theorem calm_byMail (frame : FrameRef) (q : Request) : (byMail frame q).Within S := by
  refine Program.Within.calmly ?_
  refine Program.within_bind (calm_ask frame.id q) fun r => ?_
  split <;> simp

@[simp] theorem calm_serveNext (frame : FrameRef) : (serveNext frame).Within S := by
  refine Program.Within.calmly ?_
  refine Program.within_bind (by simp) fun next => ?_
  cases next <;> simp

@[simp] theorem calm_messageLoop (frame : FrameRef) : (messageLoop frame).Within S := by
  refine Program.Within.calmly ?_
  simp [messageLoop]

end Routing

namespace Reading

@[simp] theorem calm_work (task : IdleTask) : (work task).Within S := by
  refine Program.Within.calmly ?_
  unfold work
  split
  · simp
  · refine Program.within_bind (by simp) fun taken => ?_
    cases taken <;> simp
  · exact Program.within_bind (by simp) fun _ => by simp

@[simp] theorem calm_pump : pump.Within S := by
  refine Program.Within.calmly ?_
  refine Program.within_bind (by simp) fun task => ?_
  cases task with
  | none => simp
  | some t =>
    refine Program.within_bind (by simp) fun _ => Program.within_bind (calm_work t) fun _ => ?_
    simp

@[simp] theorem calm_valueBehindLoop (n : Nat) : (valueBehindLoop n).Within S := by
  refine Program.Within.calmly ?_
  refine Program.within_bind (by simp) fun active => Program.within_bind (by simp) fun invoking => ?_
  split
  · simp
  · refine Program.within_bind (by simp) fun promise => ?_
    cases promise with
    | none => simp
    | some p =>
      refine Program.within_bind (by simp) fun payload => ?_
      rcases payload with _ | _ | _ | _ <;> simp

end Reading

namespace Debugging

@[simp] theorem calm_promptThread (frame : FrameRef) (promise : Nat) :
    (promptThread frame promise).Within S := by
  refine Program.Within.calmly ?_
  simp [promptThread]

@[simp] theorem calm_enterPrompt : enterPrompt.Within S := by
  refine Program.Within.calmly ?_
  refine Program.within_bind (by simp) fun phase => ?_
  split <;> simp

end Debugging

namespace Rehearsal

@[simp] theorem calm_next (frame : Nat) : (next frame).Within S := by
  refine Program.Within.calmly ?_
  refine Program.within_bind (by simp) fun next => ?_
  cases next with
  | exit action => simp
  | request ticket q =>
    refine Program.within_bind (by simp) fun own => Program.within_bind (by simp) fun _ => ?_
    refine Program.within_bind ?_ fun _ => by simp
    cases Part.ofText q.command.text <;> simp [play]

@[simp] theorem calm_loop (frame : Nat) (pop : Bool) : (loop frame pop).Within S := by
  refine Program.Within.calmly ?_
  simp [loop]

end Rehearsal

/-- Requests that are handled calmly. -/
def ClientRequest.IsCalm : ClientRequest → Prop
  | .execute .. | .executeBuffered .. | .readLine _ | .onPipeline _ | .abort _ | .dispose
  | .invoke .. | .stop .. | .lease .. | .shell => False
  | .engineStep _ step => step.IsCalm
  | _ => True

theorem Clients.calm_handle {request : ClientRequest} (calm : request.IsCalm) :
    (Clients.handle request).Within S := by
  refine Program.Within.calmly ?_
  cases request
  case breakpoint =>
    refine within_raise fun hooks => ?_
    cases hooks <;> simp
  case availability => exact within_raise fun hooks => Program.within_bind (by simp) fun _ => by simp
  case nested => exact within_raise fun hooks => by simp
  case engineStep e step => exact Program.within_bind ⟨calm, fun _ => trivial⟩ fun _ => trivial
  case request => exact Program.within_bind (by simp) fun call => Program.within_bind (by simp) fun _ => by simp
  all_goals first | exact calm.elim | simp [handle]

/-- Procedures whose bodies are calm. -/
def Proc.IsCalmly : Proc → Prop
  | .invoke _ c _ _ => c.isProbe
  | .engineStep _ step => step.IsCalm
  | .nestedPromptEntered .. | .idleSteps .. | .awaitAnswer .. | .messageLoop _ | .serveNext _
  | .nestedPrompt .. | .pump | .hostRead _ | .readLoop _ | .compute .. | .resumeDebugger ..
  | .restartLoop _ | .awaitUsable _ | .popSessions | .rehearsedLoop .. | .rehearsedNext _ => True
  | _ => False

theorem calm_body {proc : Proc} (calm : proc.IsCalmly) : (body proc).Within S := by
  refine Program.Within.calmly ?_
  cases proc
  case invoke e c merge nested => exact Engines.calm_invoke calm merge
  case engineStep e step => exact Engines.calm_step calm
  case compute => simp [body, Reading.compute]
  all_goals first | exact calm.elim | simp [body]

end SessionBroker
