import SessionBroker.Proofs.Plain

/-!
# Quiet programs

Most of what a broker does has nothing to do with leases that are held, requests that are made or
promises that are kept. The programs that do nothing of the kind are quiet.
-/

namespace SessionBroker

/-- Actions that need nothing from the one who performs them. -/
def Action.IsQuiet : Action → Prop
  | .frames (.release _) | .frames (.ask ..) | .frames (.lookMail ..) | .frames (.answer ..)
  | .idle (.schedule (.command ..)) | .broker (.keep ..) => False
  | _ => True

/-- Procedures that may be under way inside a command and need nothing from the one who calls them. -/
def Proc.IsInner : Proc → Prop
  | .invoke .. | .debuggerStopped .. | .nestedPromptEntered .. | .engineStep .. | .awaitLease ..
  | .messageLoop _ | .serveNext _ => True
  | _ => False

/-- What the quiet parts of a command do. -/
def innerScope : Scope brokerInterface where
  acts := Action.IsQuiet
  calls := Proc.IsInner
  starts p := ∃ frame, p = .restartLoop frame

/-- A scope that allows whatever the quiet parts of a command do. -/
class Scope.Inner (S : Scope brokerInterface) : Prop where
  acts : ∀ a, innerScope.acts a → S.acts a
  calls : ∀ p, innerScope.calls p → S.calls p
  starts : ∀ p, innerScope.starts p → S.starts p

instance : innerScope.Inner := ⟨fun _ h => h, fun _ h => h, fun _ h => h⟩

theorem Program.Within.lift {α : Type} {p : Code α} {S : Scope brokerInterface} [inner : S.Inner]
    (h : p.Within innerScope) : p.Within S :=
  h.mono inner.acts inner.calls inner.starts

theorem Action.IsPlain.isQuiet {a : Action} (plain : a.IsPlain) : a.IsQuiet := by
  rcases a with _ | op | _ | op | _ | op
  case idle =>
    cases op
    case schedule work => cases work <;> trivial
    all_goals trivial
  all_goals first | trivial | (cases op <;> trivial)

instance (S : Scope brokerInterface) [inner : S.Inner] : S.Plain where
  acts a h := inner.acts a h.isQuiet
  calls p h := inner.calls p (by cases p <;> trivial)
  starts := inner.starts

@[simp] theorem innerScope_acts {a : Action} : innerScope.acts a ↔ a.IsQuiet := Iff.rfl
@[simp] theorem innerScope_calls {p : Proc} : innerScope.calls p ↔ p.IsInner := Iff.rfl
@[simp] theorem innerScope_starts {p : Proc} :
    innerScope.starts p ↔ ∃ frame, p = .restartLoop frame := Iff.rfl

attribute [simp] Action.IsQuiet Proc.IsInner

variable {S : Scope brokerInterface} [S.Inner]

/-! ## Inside a command -/

namespace Engines

variable {e : EngineName}

@[simp] theorem within_runScript (s : Script) : (runScript e s).Within S := by
  refine Program.Within.lift ?_
  unfold runScript
  split
  case h_7 =>
    refine Program.within_bind (by simp) fun hooks => ?_
    cases hooks <;> simp
  case h_8 =>
    refine Program.within_bind (by simp) fun hooks => ?_
    cases hooks <;> simp
  all_goals simp

@[simp] theorem within_run (c : Command) : (run e c).Within S := by
  refine Program.Within.lift ?_
  unfold run
  split
  · simp
  · refine Program.within_bind (by simp) fun script => ?_
    cases script <;> simp

@[simp] theorem within_invoke (c : Command) (merge : Bool) :
    (invoke e c merge).Within S := by
  refine Program.Within.lift ?_
  refine Program.within_bind (by simp) fun entered => ?_
  cases entered <;> simp

@[simp] theorem within_through (c : Command) (merge nested : Bool) :
    (through e c merge nested).Within S := by
  refine Program.Within.lift ?_
  refine Program.within_bind (by simp) fun answer => ?_
  cases answer <;> simp

@[simp] theorem within_atPrompt (c : Command) : (atPrompt e c).Within S := by
  refine Program.Within.lift ?_
  refine Program.within_bind (by simp) fun debugger => ?_
  simp only []
  split
  · simp
  · split
    · simp
    · split <;> simp

@[simp] theorem within_step (step : EngineStep) : (Engines.step e step).Within S := by
  refine Program.Within.lift ?_
  unfold Engines.step
  split <;> simp

@[simp] theorem within_playSteps (steps : List EngineStep) :
    (playSteps e steps).Within S := by
  refine Program.Within.lift ?_
  induction steps with
  | nil => simp [playSteps]
  | cons s rest ih => cases s <;> simp [playSteps, ih]

@[simp] theorem within_playStop (event : StopEvent) : (playStop e event).Within S := by
  refine Program.Within.lift ?_
  refine Program.within_bind (by simp) fun stopped => ?_
  simp only [Code.broker, Program.perform, Program.act_bind, Program.within_act]
  refine ⟨trivial, fun _ => ⟨trivial, fun plan => ?_⟩⟩
  rcases plan with _ | ⟨steps, action⟩ <;> simp

end Engines

namespace Aborting

variable {e : EngineName}

@[simp] theorem within_abort (debug : Bool) : (abort debug).Within S := by
  refine Program.Within.lift ?_
  refine Program.within_bind (by simp) fun begun => ?_
  cases begun with
  | none => simp
  | some b =>
    refine Program.within_bind (by simp) fun e => ?_
    simp

end Aborting

namespace Running

variable {frame : FrameRef} {e : EngineName} {q : Request} {route : Route}

@[simp] theorem within_begin : begin.Within S := by
  refine Program.Within.lift ?_
  simp [begin]

@[simp] theorem within_finish (progress : Progress) (hadErrors : Bool) :
    (finish progress hadErrors).Within S := by
  refine Program.Within.lift ?_
  simp [finish]

@[simp] theorem within_send : (send frame e q route).Within S := by
  refine Program.Within.lift ?_
  unfold send
  split
  · refine Program.within_bind (by simp) fun r => ?_
    cases r with
    | error f => simp
    | ok reply =>
      simp only []
      split <;> simp
  · simp

@[simp] theorem within_conclude (v : Verdict) : (conclude frame e q route v).Within S := by
  refine Program.Within.lift ?_
  unfold conclude
  refine Program.within_bind (by simp) fun availability => ?_
  split
  · simp
  · refine Program.within_bind (by simp) fun _ => ?_
    simp

@[simp] theorem within_run : (run frame e q route).Within S := by
  refine Program.Within.lift ?_
  refine Program.within_bind (by simp) fun _ => ?_
  split
  · refine Program.within_bind (by simp) fun _ => ?_
    simp
  · simp

end Running

namespace Debugging

variable {frame : FrameRef} {e : EngineName}

@[simp] theorem within_leaveStop (action : ResumeAction) : (leaveStop frame action).Within S := by
  refine Program.Within.lift ?_
  simp [leaveStop]

end Debugging

/-! ## Outside of commands -/

/-- Procedures that need nothing from the one who calls them. -/
def Proc.IsOuter : Proc → Prop
  | .idleSteps .. | .pump | .hostRead _ | .readLine _ | .resumeDebugger .. | .awaitUsable _
  | .dispose | .popSessions | .shellLoop _ | .shellWait .. | .shellDebugger => True
  | p => p.IsInner

/-- Flows that anybody may start. -/
def Proc.IsRoot : Proc → Prop
  | .restartLoop _ | .serveClient .. => True
  | _ => False

/-- What quiet programs do. -/
def outerScope : Scope brokerInterface := ⟨Action.IsQuiet, Proc.IsOuter, Proc.IsRoot⟩

/-- A scope that allows whatever quiet programs do. -/
class Scope.Outer (S : Scope brokerInterface) : Prop where
  acts : ∀ a, outerScope.acts a → S.acts a
  calls : ∀ p, outerScope.calls p → S.calls p
  starts : ∀ p, outerScope.starts p → S.starts p

instance : outerScope.Outer := ⟨fun _ h => h, fun _ h => h, fun _ h => h⟩

instance (S : Scope brokerInterface) [outer : S.Outer] : S.Inner where
  acts := outer.acts
  calls p h := outer.calls p (by cases p <;> first | exact h | exact h.elim)
  starts := by
    rintro _ ⟨frame, rfl⟩
    exact outer.starts _ trivial

instance (S : Scope brokerInterface) [outer : S.Outer] : S.Still where
  acts a h := outer.acts a h.isQuiet
  calls p h := outer.calls p (by cases p <;> trivial)
  starts := by
    rintro _ ⟨frame, rfl⟩
    exact outer.starts _ trivial

theorem Program.Within.widen {α : Type} {p : Code α} {S : Scope brokerInterface} [outer : S.Outer]
    (h : p.Within outerScope) : p.Within S :=
  h.mono outer.acts outer.calls outer.starts

@[simp] theorem outerScope_acts {a : Action} : outerScope.acts a ↔ a.IsQuiet := Iff.rfl
@[simp] theorem outerScope_calls {p : Proc} : outerScope.calls p ↔ p.IsOuter := Iff.rfl
@[simp] theorem outerScope_starts {p : Proc} : outerScope.starts p ↔ p.IsRoot := Iff.rfl

attribute [simp] Proc.IsOuter Proc.IsRoot

variable {T : Scope brokerInterface} [T.Outer]

namespace Aborting

@[simp] theorem within_dispose : dispose.Within T := by
  refine Program.Within.widen ?_
  refine Program.within_bind (by simp) fun phase => ?_
  split
  · simp
  · refine Program.within_bind (by simp) fun _ => ?_
    refine Program.within_bind (by simp) fun _ => Program.within_bind (by simp) fun live => ?_
    refine Program.within_bind (by simp) fun served => Program.within_bind (by simp) fun _ => ?_
    simp

end Aborting

namespace Leases

@[simp] theorem within_acquire (frame : Nat) (caller : Gate.Caller) :
    (acquire frame caller).Within S := by
  refine Program.Within.lift ?_
  simp [acquire]

end Leases

/-- Requests that can be handled without any need. -/
def ClientRequest.IsQuiet : ClientRequest → Prop
  | .execute .. | .executeBuffered .. | .onPipeline _ | .enterNestedPrompt | .request .. => False
  | _ => True

theorem Clients.within_handle {request : ClientRequest} (quiet : request.IsQuiet) :
    (Clients.handle request).Within T := by
  refine Program.Within.widen ?_
  cases request
  case breakpoint =>
    refine within_raise fun hooks => ?_
    cases hooks <;> simp
  case availability => exact within_raise fun hooks => Program.within_bind (by simp) fun _ => by simp
  case stop | nested => exact within_raise fun hooks => by simp
  case lease => exact Program.within_bind (by simp) fun _ => by simp
  case execute | executeBuffered | onPipeline | enterNestedPrompt | request => exact quiet.elim
  all_goals simp [handle]

namespace Shell

@[simp] theorem within_wait (request : String) (position : Nat) :
    (wait request position).Within T := by
  refine Program.Within.widen ?_
  refine Program.within_bind (by simp) fun news => ?_
  split
  · simp
  · split <;> simp

@[simp] theorem within_loop (position : Nat) : (loop position).Within T := by
  refine Program.Within.widen ?_
  refine Program.within_bind (by simp) fun read => ?_
  rcases read with f | _ | line <;> simp

end Shell

/-- Procedures whose bodies are quiet. -/
def Proc.IsQuiet : Proc → Prop
  | .invoke .. | .nestedPromptEntered .. | .engineStep .. | .idleSteps .. | .runCommand ..
  | .messageLoop _ | .hostRead _ | .readLoop _ | .compute .. | .resumeDebugger .. | .restartLoop _
  | .awaitUsable _ | .dispose | .popSessions | .shellLoop _ | .shellWait .. => True
  | _ => False

/-- What the body of a quiet procedure does costs nothing. -/
theorem within_body {proc : Proc} (quiet : proc.IsQuiet) : (body proc).Within T := by
  cases proc
  case messageLoop frame =>
    refine Program.Within.widen ?_
    simp [body, Routing.messageLoop]
  case compute => simp [body, Reading.compute]
  all_goals first | exact quiet.elim | simp [body]

/-! ## Fair programs

Whether these need something depends on what a contract says about the few programs that they are
made of.
-/

variable {A : Type} {C : Contract brokerInterface A} [C.scope.Outer]

theorem fair_quiet {α : Type} {p : Code α} (h : p.Within outerScope) : p.Fair C :=
  (h.widen : p.Within C.scope).fair

/-- Before anything else one may do what is quiet. -/
theorem obeys_then {α β : Type} {p : Code α} {f : α → Code β} {post : β → Multiset A → Prop}
    {own : Multiset A} (h : p.Within outerScope) (hf : ∀ a, (f a).Obeys C post own) :
    (p >>= f).Obeys C post own :=
  (h.widen : p.Within C.scope).then hf

theorem Debugging.fair_serviceStop
    (probe : ∀ frame session, (Debugging.probeStop frame session).Fair C) (event : StopEvent) :
    (Debugging.serviceStop event).Fair C := by
  refine obeys_then (by simp) fun _ => obeys_then (by simp) fun attached => ?_
  refine obeys_then (by simp) fun _ => obeys_then (by simp) fun active => ?_
  refine obeys_then (by simp) fun _ => obeys_then (by simp) fun session => ?_
  refine obeys_then (by simp) fun frame => obeys_then (by simp) fun settings => ?_
  refine obeys_then (by simp) fun _ => Program.Fair.then ?_ fun _ => fair_quiet (by simp)
  unfold Program.onlyIf
  split
  · exact probe frame session
  · exact Program.obeys_done trivial

theorem Debugging.fair_stopped
    (probe : ∀ frame session, (Debugging.probeStop frame session).Fair C) (hooks : Hooks)
    (e : EngineName) (event : StopEvent) : (Debugging.stopped hooks e event).Fair C := by
  cases hooks with
  | plans => exact fair_quiet (by simp [Debugging.stopped])
  | broker =>
    refine obeys_then (by simp) fun alive => ?_
    split
    · exact Program.obeys_done trivial
    · exact (fair_serviceStop probe event).then fun action => fair_quiet (by simp)

/-- A client is served at the cost of what it asks for. -/
theorem Clients.fair_serve
    (submit : ∀ c o token, (Routing.submit c o token).Fair C)
    (submitAction : ∀ v, (Reading.submit v).Fair C)
    (enterPrompt : Debugging.enterPrompt.Fair C)
    (ask : ∀ frame c o, (Clients.handle (.request frame c o)).Fair C)
    (name : String) (request : ClientRequest) : (Clients.serve name request).Fair C := by
  have handled : (Clients.handle request).Fair C := by
    by_cases quiet : request.IsQuiet
    · exact (within_handle quiet : (Clients.handle request).Within C.scope).fair
    · cases request
      case execute c o token => exact (submit c o token).then fun _ => Program.obeys_done trivial
      case executeBuffered c o buffer =>
        refine (submit c o none).then fun r => ?_
        cases r <;> exact Program.obeys_done trivial
      case onPipeline v => exact (submitAction v).then fun _ => Program.obeys_done trivial
      case enterNestedPrompt => exact enterPrompt.then fun _ => Program.obeys_done trivial
      case request frame c o => exact ask frame c o
      all_goals exact absurd trivial quiet
  unfold serve
  split
  · exact obeys_then (by simp) fun _ => handled.then fun report => fair_quiet (by simp)
  · exact handled.then fun report => fair_quiet (by simp)

theorem Shell.fair_debuggerLoop (submit : ∀ c o token, (Routing.submit c o token).Fair C) :
    Shell.debuggerLoop.Fair C := by
  refine obeys_then (by simp) fun stop => ?_
  split
  · exact Program.obeys_done trivial
  · refine obeys_then (by simp) fun read => ?_
    rcases read with f | _ | line
    · cases f <;> exact fair_quiet (by simp [Shell.debuggerRead])
    · exact fair_quiet (by simp [Shell.debuggerRead])
    · show (Shell.debuggerLine _).Fair C
      unfold Shell.debuggerLine
      split
      · exact fair_quiet (by simp)
      · split
        · exact fair_quiet (by simp)
        · refine (submit _ _ _).then fun r => fair_quiet ?_
          cases r <;> simp

end SessionBroker
