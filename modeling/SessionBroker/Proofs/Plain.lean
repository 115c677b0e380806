import SessionBroker.Broker.Machine
import SessionBroker.Proofs.Contract

/-!
# Plain programs

Most of what a broker does has to do neither with leases, requests and promises nor with the phase and
the announcement of commands. The programs that do nothing of the kind are plain; whatever a contract
says about the rest, they need nothing.
-/

namespace SessionBroker

/-- Actions that have to do with none of these. -/
def Action.IsPlain : Action → Prop
  | .frames (.look ..) | .frames (.release _) | .frames (.ask ..) | .frames (.lookMail ..)
  | .frames (.answer ..) | .idle (.schedule (.command ..)) | .broker (.keep ..)
  | .broker (.beginAbort _) | .broker .endCommand | .broker .clearAbortReport
  | .broker (.notify (.progress ..)) => False
  | .broker (.setPhase target) => target = .ready ∨ target = .disposed
  | _ => True

/-- Procedures that plain programs may call inside a command: a probe, or the service of a frame. -/
def Proc.IsPlain : Proc → Prop
  | .invoke _ c _ _ => c.isProbe
  | .messageLoop _ => True
  | _ => False

/-- What plain programs do inside a command. -/
def plainScope : Scope brokerInterface where
  acts := Action.IsPlain
  calls := Proc.IsPlain
  starts p := ∃ frame, p = .restartLoop frame

/-- A scope that allows whatever plain programs do. -/
class Scope.Plain (S : Scope brokerInterface) : Prop where
  acts : ∀ a, plainScope.acts a → S.acts a
  calls : ∀ p, plainScope.calls p → S.calls p
  starts : ∀ p, plainScope.starts p → S.starts p

instance : plainScope.Plain := ⟨fun _ h => h, fun _ h => h, fun _ h => h⟩

theorem Program.Within.plainly {α : Type} {p : Code α} {S : Scope brokerInterface} [plain : S.Plain]
    (h : p.Within plainScope) : p.Within S :=
  h.mono plain.acts plain.calls plain.starts

attribute [simp] Code.engine Code.frames Code.sessions Code.idle Code.host Code.broker Code.invoke
  Code.start Program.perform Program.invoke Program.start

@[simp] theorem plainScope_acts {a : Action} : plainScope.acts a ↔ a.IsPlain := Iff.rfl
@[simp] theorem plainScope_calls {p : Proc} : plainScope.calls p ↔ p.IsPlain := Iff.rfl
@[simp] theorem plainScope_starts {p : Proc} :
    plainScope.starts p ↔ ∃ frame, p = .restartLoop frame := Iff.rfl

attribute [simp] Action.IsPlain Proc.IsPlain

@[simp] theorem Command.isProbe_probe : Command.probe.isProbe := by
  simp [probe, script, isProbe]

/-! ## Inside a command -/

section

variable {S : Scope brokerInterface} [S.Plain]

namespace Engines

variable {e : EngineName}

@[simp] theorem within_tellAvailability (hooks : Option Hooks) (a : Availability) :
    (tellAvailability hooks a).Within S := by
  refine Program.Within.plainly ?_
  unfold tellAvailability
  split <;> simp

@[simp] theorem within_setAvailability (a : Availability) :
    (setAvailability e a).Within S := by
  refine Program.Within.plainly ?_
  simp [setAvailability]

@[simp] theorem within_awaitRelease : (awaitRelease e).Within S := by
  refine Program.Within.plainly ?_
  simp [awaitRelease]

@[simp] theorem within_isStopped : (isStopped e).Within S := by
  refine Program.Within.plainly ?_
  simp [isStopped]

theorem within_through_probe {merge nested : Bool} : (through e .probe merge nested).Within S := by
  refine Program.Within.plainly ?_
  refine Program.within_bind (by simp) fun answer => ?_
  cases answer <;> simp

theorem within_atPrompt_probe : (atPrompt e .probe).Within S := by
  refine Program.Within.plainly ?_
  refine Program.within_bind (by simp) fun debugger => ?_
  simp only []
  split
  · simp
  · split
    · simp
    · split <;> simp

end Engines

namespace SessionChanges

variable {e : EngineName}

@[simp] theorem within_current : current.Within S := by
  refine Program.Within.plainly ?_
  simp [current]

@[simp] theorem within_currentEngine : currentEngine.Within S := by
  refine Program.Within.plainly ?_
  simp [currentEngine]

@[simp] theorem within_push (s : Session) : (push s).Within S := by
  refine Program.Within.plainly ?_
  simp [push]

@[simp] theorem within_pop (change : SessionChange) : (pop change).Within S := by
  refine Program.Within.plainly ?_
  refine Program.within_bind (by simp) fun popped => ?_
  cases popped <;> simp

@[simp] theorem within_adjust (probed : Identity) (changes : List Adjustment) :
    (adjust probed changes).Within S := by
  refine Program.Within.plainly ?_
  induction changes with
  | nil => simp [adjust]
  | cons change rest ih => cases change <;> simp [adjust, ih]

@[simp] theorem within_probe (atPrompt : Bool) : (probe e atPrompt).Within S := by
  refine Program.Within.plainly ?_
  unfold probe
  split
  · exact Program.within_bind Engines.within_atPrompt_probe fun _ => by simp
  · exact Program.within_bind Engines.within_through_probe fun _ => by simp

@[simp] theorem within_refresh (atPrompt : Bool) : (refresh e atPrompt).Within S := by
  refine Program.Within.plainly ?_
  refine Program.within_bind (by simp) fun answer => ?_
  split <;> simp

end SessionChanges

namespace Aborting

variable {e : EngineName}

@[simp] theorem within_leavePrompts (frames : List FrameRef) :
    (leavePrompts e frames).Within S := by
  refine Program.Within.plainly ?_
  induction frames with
  | nil => simp [leavePrompts]
  | cons f rest ih => simp [leavePrompts, ih]

@[simp] theorem within_unwindPrompts : unwindPrompts.Within S := by
  refine Program.Within.plainly ?_
  simp [unwindPrompts]

@[simp] theorem within_exitDebugger (action : ResumeAction) :
    (exitDebugger action).Within S := by
  refine Program.Within.plainly ?_
  refine Program.within_bind (by simp) fun live => ?_
  split <;> simp

@[simp] theorem within_awaitFinish (frames : List FrameRef) :
    (awaitFinish frames).Within S := by
  refine Program.Within.plainly ?_
  induction frames with
  | nil => simp [awaitFinish]
  | cons f rest ih => simp [awaitFinish, ih]

@[simp] theorem within_tearDown (ids : List Nat) : (tearDown ids).Within S := by
  refine Program.Within.plainly ?_
  induction ids with
  | nil => simp [tearDown]
  | cons id rest ih => simp [tearDown, ih]

@[simp] theorem within_popFrame (id : Nat) : (popFrame id).Within S := by
  refine Program.Within.plainly ?_
  simp [popFrame]

@[simp] theorem within_endFrames (frames : List FrameRef) :
    (endFrames frames).Within S := by
  refine Program.Within.plainly ?_
  induction frames with
  | nil => simp [endFrames]
  | cons f rest ih => simp [endFrames, ih]

@[simp] theorem within_resume (action : ResumeAction) (wait : Bool) :
    (resume action wait).Within S := by
  refine Program.Within.plainly ?_
  unfold resume
  refine Program.within_bind (by simp) fun ticket => ?_
  refine Program.within_bind (by simp) fun _ => Program.within_bind (by simp) fun _ => ?_
  refine Program.within_bind (by simp) fun served => Program.within_bind (by simp) fun _ => ?_
  refine Program.within_bind (by simp) fun frame => ?_
  cases frame <;> simp

end Aborting

namespace Running

variable {frame : FrameRef} {e : EngineName} {q : Request} {route : Route}

@[simp] theorem within_write (kind : TextKind) (text : String) :
    (write kind text).Within S := by
  refine Program.Within.plainly ?_
  simp [write]

@[simp] theorem within_writeLines (lines : List String) :
    (writeLines lines).Within S := by
  refine Program.Within.plainly ?_
  induction lines with
  | nil => simp [writeLines]
  | cons line rest ih => simp [writeLines, ih]

@[simp] theorem within_present (v : Verdict) : (present q v).Within S := by
  refine Program.Within.plainly ?_
  unfold present
  cases v.errorText <;> simp

@[simp] theorem within_probeAfter (v : Verdict) : (probeAfter frame e q route v).Within S := by
  refine Program.Within.plainly ?_
  simp [probeAfter]

end Running

namespace Routing

@[simp] theorem within_surroundings (frame : FrameRef) : (surroundings frame).Within S := by
  refine Program.Within.plainly ?_
  refine Program.within_bind (by simp) fun session => ?_
  simp [Engines.isStopped]

end Routing

namespace Debugging

variable {frame : FrameRef} {e : EngineName}

@[simp] theorem within_armRestart : (armRestart frame).Within S := by
  refine Program.Within.plainly ?_
  simp [armRestart]

@[simp] theorem within_servicePrompt : servicePrompt.Within S := by
  refine Program.Within.plainly ?_
  simp [servicePrompt]

@[simp] theorem within_promptEntered (hooks : Hooks) : (promptEntered hooks e).Within S := by
  refine Program.Within.plainly ?_
  cases hooks <;> simp [promptEntered]

@[simp] theorem within_exitPrompt : exitPrompt.Within S := by
  refine Program.Within.plainly ?_
  simp [exitPrompt]

end Debugging
end

/-! ## Outside of commands -/

/-- Procedures that plain programs may call outside of commands. -/
def Proc.IsStill : Proc → Prop
  | .idleSteps .. | .pump | .hostRead _ | .awaitUsable _ | .popSessions => True
  | p => p.IsPlain

/-- What plain programs do. -/
def stillScope : Scope brokerInterface where
  acts := Action.IsPlain
  calls := Proc.IsStill
  starts p := ∃ frame, p = .restartLoop frame

/-- A scope that allows whatever plain programs do, also outside of commands. -/
class Scope.Still (S : Scope brokerInterface) : Prop where
  acts : ∀ a, stillScope.acts a → S.acts a
  calls : ∀ p, stillScope.calls p → S.calls p
  starts : ∀ p, stillScope.starts p → S.starts p

instance : stillScope.Still := ⟨fun _ h => h, fun _ h => h, fun _ h => h⟩

instance (S : Scope brokerInterface) [still : S.Still] : S.Plain where
  acts := still.acts
  calls p h := still.calls p (by cases p <;> trivial)
  starts := still.starts

theorem Program.Within.still {α : Type} {p : Code α} {S : Scope brokerInterface} [still : S.Still]
    (h : p.Within stillScope) : p.Within S :=
  h.mono still.acts still.calls still.starts

@[simp] theorem stillScope_acts {a : Action} : stillScope.acts a ↔ a.IsPlain := Iff.rfl
@[simp] theorem stillScope_calls {p : Proc} : stillScope.calls p ↔ p.IsStill := Iff.rfl
@[simp] theorem stillScope_starts {p : Proc} :
    stillScope.starts p ↔ ∃ frame, p = .restartLoop frame := Iff.rfl

attribute [simp] Proc.IsStill

variable {S : Scope brokerInterface} [S.Still]

namespace SessionChanges

@[simp] theorem within_popAll : popAll.Within S := by
  refine Program.Within.still ?_
  refine Program.within_bind (by simp) fun popped => ?_
  cases popped <;> simp

end SessionChanges

namespace Debugging

@[simp] theorem within_awaitUsable (changes : Nat) : (awaitUsable changes).Within S := by
  refine Program.Within.still ?_
  simp [awaitUsable]

@[simp] theorem within_restartLoop (frame : FrameRef) : (restartLoop frame).Within S := by
  refine Program.Within.still ?_
  simp [restartLoop]

end Debugging

namespace Rehearsal

@[simp] theorem within_begin (name : String) : (begin name).Within S := by
  refine Program.Within.still ?_
  simp [begin]

@[simp] theorem within_idleSteps (name : String) (steps : List IdleStep) :
    (idleSteps name steps).Within S := by
  refine Program.Within.still ?_
  induction steps with
  | nil => simp [idleSteps]
  | cons s rest ih => cases s <;> simp [idleSteps, ih]

@[simp] theorem within_idleStep (s : IdleStep) : (idleStep s).Within S := by
  refine Program.Within.still ?_
  cases s <;> simp [idleStep]

@[simp] theorem within_idleExecute (name : String) (v : Json.Value) (inner : List IdleStep) :
    (idleExecute name v inner).Within S := by
  refine Program.Within.still ?_
  refine Program.within_bind (by simp) fun promise => ?_
  cases promise with
  | none => simp
  | some p =>
    refine Program.within_bind (by simp) fun payload => ?_
    rcases payload with _ | _ | _ | _ <;> simp

@[simp] theorem within_awaitCurrentExit (trigger : Option ResumeAction) :
    (awaitCurrentExit trigger).Within S := by
  refine Program.Within.still ?_
  unfold awaitCurrentExit
  cases trigger <;> simp

end Rehearsal

namespace Reading

@[simp] theorem within_hostRead (reader : Nat) : (hostRead reader).Within S := by
  refine Program.Within.still ?_
  refine Program.within_bind (by simp) fun event => ?_
  cases event <;> simp

@[simp] theorem within_readLoop : readLoop.Within S := by
  refine Program.Within.still ?_
  simp [readLoop]

end Reading

namespace Clients

@[simp] theorem within_setUp (e : EngineName) (owns : Bool) : (setUp e owns).Within S := by
  refine Program.Within.still ?_
  refine Program.within_bind (by simp) fun settings => Program.within_bind (by simp) fun found => ?_
  split
  · simp
  · refine Program.within_bind (by simp) fun answer => ?_
    rcases answer with f | output
    · simp
    · simp only []
      split <;> simp

@[simp] theorem within_pushSession (e : EngineName) (identity : Identity)
    (connection : Option String) (owns : Option Bool) (origin : Option Origin) :
    (pushSession e identity connection owns origin).Within S := by
  refine Program.Within.still ?_
  simp [pushSession]

theorem within_raise {e : EngineName} {call : Hooks → Code Report}
    (h : ∀ hooks, (call hooks).Within S) : (raise e call).Within S := by
  refine Program.within_bind (Program.Within.still (by simp)) fun hooks => ?_
  cases hooks with
  | none => simp
  | some hooks => exact h hooks

end Clients

namespace Shell

@[simp] theorem within_complain (f : Failure) : (complain f).Within S := by
  refine Program.Within.still ?_
  simp [complain]

end Shell
end SessionBroker
