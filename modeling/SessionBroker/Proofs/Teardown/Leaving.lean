import SessionBroker.Proofs.Resumption
import SessionBroker.Proofs.Teardown.Conduct

/-!
# How frames are left

Those that serve the frames mind the lore of the teardown as well: once told to exit, each takes its
frame off the stack, tears down what it has taken off, and what it did before it came to serve the
frame ends as a command does that is stopped.
-/

namespace SessionBroker.Teardown

variable {old : Onset} {α β : Type} {post : β → Charge → Prop} {i : Nat}

theorem free_serves (j : Nat) : ({ duty := .serves i } : Charge).duty ≠ .waits j := by rintro ⟨⟩

theorem free_done (j : Nat) : ({} : Charge).duty ≠ .waits j := by rintro ⟨⟩

/-- Those who wait at the mailbox of a frame go on once the frame is to exit, a stop only if its command
is to end. -/
theorem does_take {f : Mailbox.Next Request → Code β}
    (goesOn : ∀ action, (old.frames.kind i = .debug → action = .stop) →
      Does old { duty := .serves i } (f (.exit action)) post) :
    Does old { duty := .waits i } (Code.frames (.take i) >>= f) post := by
  refine ⟨?_, fun flow pick s r t performed => ?_⟩
  · rintro _ ⟨⟩
    refine ⟨?_, rfl⟩
    rintro _ ⟨⟩
    rfl
  · cases r with
    | request ticket q => exact minds_none _
    | exit action =>
      by_cases wrong : old.frames.kind i = .debug ∧ action ≠ .stop
      · have impossible : note old { duty := .waits i } (.frames (.take i)) (.exit action) = none :=
          if_pos wrong
        show Program.Minds (lore old) _ _ _ (note old _ (.frames (.take i)) (.exit action))
        rw [impossible]
        exact minds_none _
      · have noted : note old { duty := .waits i } (.frames (.take i)) (.exit action) =
            some { duty := .serves i } := if_neg wrong
        show Program.Minds (lore old) _ _ _ (note old _ (.frames (.take i)) (.exit action))
        rw [noted]
        exact goesOn action fun debug => not_not.mp fun other => wrong ⟨debug, other⟩

theorem does_tearDown (gone : List Nat) :
    Does old { duty := .clears gone } (Aborting.tearDown gone) fun _ k => k = {} := by
  induction gone with
  | nil => exact does_done rfl
  | cons i rest ih =>
    refine does_act (.frames (.dispose i)) (by rintro _ ⟨⟩) ⟨rest, rfl⟩
      fun _ _ _ _ _ k _ noted => ?_
    cases noted
    refine does_act (.frames (.closeGate i)) (by rintro _ ⟨⟩) ⟨rest, rfl⟩
      fun _ _ _ _ _ k _ noted => ?_
    cases noted
    exact ih

/-- A frame is taken off the stack with those above it, and they are torn down. -/
theorem does_popFrame :
    Does old { duty := .serves i } (Aborting.popFrame i) fun _ k => k = {} := by
  refine does_act (.frames (.remove i)) free_serves rfl fun _ _ _ _ _ k _ noted => ?_
  cases noted
  exact does_tearDown _

/-- A stop that ends its command is left. It may end the session that the debugger entered. -/
theorem does_leaveStop (frame : FrameRef) :
    Does old { duty := .serves frame.id } (Debugging.leaveStop frame .stop) fun _ k => k = {} := by
  unfold Debugging.leaveStop
  refine Does.after (by simp [aside, isAside]) free_serves fun _ => ?_
  refine Does.after (by simp [aside, isAside]) free_serves fun _ => ?_
  refine does_current free_serves fun s _ => ?_
  by_cases debugged : s.origin = .debugged
  · simp only [debugged, if_true]
    exact does_pop free_serves rfl (by rintro _ ⟨⟩) does_popFrame fun _ => does_popFrame
  · simp only [debugged, if_false]
    exact does_popFrame

/-! ## Commands that are stopped -/

theorem does_abort_command : Does old {} (Aborting.abort false) fun _ k => k = {} := by
  refine does_act (.broker (.beginAbort false)) free_done trivial
    fun _ _ _ begun _ k performed noted => ?_
  cases noted
  rcases begun with _ | ⟨before, debugger⟩
  · exact does_done rfl
  · obtain ⟨⟨⟩, -⟩ | ⟨same, -⟩ := World.beginAbort_perform performed
    cases same
    refine does_currentEngine free_done fun e here => ?_
    refine Does.after (by simp [aside, isAside, here, mayWait, isDeed]) free_done fun _ => ?_
    refine Does.after (by simp [aside, isAside]) free_done fun _ => ?_
    split
    · exact Does.after (by simp [aside, isAside]) free_done fun _ => does_done rfl
    · exact does_done rfl

theorem within_finish (progress : Progress) (hadErrors : Bool) :
    (Running.finish progress hadErrors).Within (aside old) := by
  simp [Running.finish, aside, isAside]

theorem within_writeLines (lines : List String) : (Running.writeLines lines).Within (aside old) := by
  induction lines with
  | nil => trivial
  | cons line rest ih => exact ⟨trivial, fun _ => ih⟩

/-- A command that was stopped ends without another probe, and its session is given up if its engine
cannot be used any more. -/
theorem does_conclude {frame : FrameRef} {e : EngineName} {q : Request} {route : Route}
    (here : known old e) :
    Does old {} (Running.conclude frame e q route (.ofResult (.error .stopped)))
      fun r k => k = {} ∧ r ≠ .error .frameExited := by
  unfold Running.conclude
  refine Does.after (by simp [aside, isAside, here, mayWait, isDeed]) free_done fun availability => ?_
  split
  · have noProbe : (Running.probeAfter frame e q route (.ofResult (.error .stopped))).Within (aside old) := by
      simp [Running.probeAfter, Verdict.ofResult, Outcome.stopped, aside, isAside]
    refine Does.after noProbe free_done fun _ => ?_
    exact Does.after (within_finish _ _) free_done fun _ => does_done ⟨rfl, by rintro ⟨⟩⟩
  · refine does_abort_command.bind fun _ _ same => ?_
    subst same
    have finished : Does old {} (do
        Running.finish .aborted false
        return .error (.sessionUnavailable
          ("session became unavailable while running '" ++ q.command.text ++ "'")))
        fun (r : Response) k => k = {} ∧ r ≠ .error .frameExited :=
      Does.after (within_finish _ _) free_done fun _ => does_done ⟨rfl, by rintro ⟨⟩⟩
    exact does_pop free_done rfl (by rintro _ ⟨⟩) finished fun _ => finished

theorem does_stopped {frame : FrameRef} {e : EngineName} {q : Request} {route : Route}
    (here : known old e) :
    Does old {} (do
      Running.present q (.ofResult (.error .stopped))
      Running.conclude frame e q route (.ofResult (.error .stopped)))
      fun r k => k = {} ∧ r ≠ .error .frameExited := by
  have shown : (Running.present q (.ofResult (.error .stopped))).Within (aside old) := by
    simp [Running.present, Verdict.ofResult, within_writeLines]
  exact Does.after shown free_done fun _ => does_conclude here

/-! ## Who goes on after whom -/

/-- What a flow is charged with that has come to an action, if it may wait there while nothing happens: it
serves a frame, or has entered a nested prompt, or waits for a command behind the read loop, for a line, or
for the end of a stop. -/
def parking (old : Onset) : Proc → Action → Option Charge
  | .serveNext frame, .frames (.take _) =>
    if frame = old.frames.ref frame.id then some { duty := .waits frame.id } else none
  | .serveClient _ .enterNestedPrompt, .broker (.awaitPromise _) => some {}
  | .route .., .broker (.awaitPromise promise) => if promise ∈ old.awaited then some {} else none
  | .hostRead _, .host (.poll _) => some {}
  | .restartLoop _, .frames (.awaitFinish _) => some {}
  | _, _ => none

/-- Whether a procedure may be under way while one that it has called waits: the thread of a nested prompt,
a command that the debugger stopped, or a read. -/
def underlies (old : Onset) : Proc → Proc → Bool
  | .serveNext _, .serveNext _ => true
  | .messageLoop _, .serveNext _ => true
  | .nestedPrompt _ promise, .messageLoop _ => promise ∉ old.awaited
  | .debuggerStopped hooks .., .messageLoop _ => hooks = .broker
  | .invoke e .., .debuggerStopped .. => known old e
  | .engineStep .., .invoke _ c .. => !c.isProbe
  | .runCommand _ e .., .invoke _ c .. => known old e && !c.isProbe
  | .route .., .runCommand .. | .route .., .route .. => true
  | .execute .., .route .. => true
  | .pump, .runCommand .. | .pump, .pump => true
  | .hostRead _, .pump | .hostRead _, .hostRead _ => true
  | .readLoop _, .hostRead _ => true
  | .readLine _, .readLoop _ => true
  | .serveClient _ (.readLine _), .readLine _ => true
  | .serveClient _ (.execute ..), .execute .. => true
  | .serveClient _ (.executeBuffered ..), .execute .. => true
  | .serveClient _ (.engineStep ..), .engineStep .. => true
  | .serveClient _ (.invoke ..), .invoke .. => true
  | .serveClient _ (.stop ..), .debuggerStopped .. => true
  | _, _ => false

/-- Whoever waits minds the lore when it goes on. -/
def sequel (old : Onset) : Sequel brokerInterface where
  acts proc action next := ∀ h, parking old proc action = some h →
    Does old h (Program.act action next) (Returns {} proc)
  calls proc callee next := underlies old proc callee →
    ∀ r k, Returns {} callee r k → Does old k (next r) (Returns {} proc)

/-- Steps at which nobody waits and calls of what does not wait. -/
def passing (old : Onset) (proc : Proc) : Scope brokerInterface where
  acts action := parking old proc action = none
  calls callee := underlies old proc callee = false
  starts _ := True

attribute [local simp] parking underlies

@[local simp] theorem passing_acts {proc : Proc} {action : Action} :
    (passing old proc).acts action ↔ parking old proc action = none := Iff.rfl

@[local simp] theorem passing_calls {proc callee : Proc} :
    (passing old proc).calls callee ↔ underlies old proc callee = false := Iff.rfl

@[local simp] theorem passing_starts {proc other : Proc} : (passing old proc).starts other := trivial

/-- Wherever somebody may wait in a part of a procedure's body, what comes after minds the lore. -/
abbrev GoesOn (old : Onset) (proc : Proc) (p : Code proc.Result) : Prop :=
  p.AtEach brokerMachine ((sequel old).acts proc) ((sequel old).calls proc)

/-- A part of a body may be passed over if nobody waits there. -/
theorem goesOn_passing {proc : Proc} {p : Code α} {f : α → Code proc.Result}
    (within : p.Within (passing old proc)) (rest : ∀ a, GoesOn old proc (f a)) :
    GoesOn old proc (p >>= f) := by
  refine Program.AtEach.bind (within.atEach ?_ ?_) rest
  · intro action next free h parked
    rw [show parking old proc action = none from free] at parked
    cases parked
  · intro callee next free under
    rw [show underlies old proc callee = false from free] at under
    cases under

theorem goesOn_rest {proc : Proc} {p : Code proc.Result} (within : p.Within (passing old proc)) :
    GoesOn old proc p := by
  have passed := goesOn_passing (f := .done) within fun _ => trivial
  rwa [show p >>= Program.done = p from Program.bind_done p] at passed

theorem goesOn_act {proc : Proc} {action : Action} {f : action.Reply → Code proc.Result}
    (free : parking old proc action = none)
    (rest : ∀ flow pick s r t, World.perform flow pick action s = some (r, t) →
      GoesOn old proc (f r)) : GoesOn old proc (Program.act action f) := by
  refine ⟨fun h parked => ?_, rest⟩
  rw [free] at parked
  cases parked

theorem goesOn_serveNext (frame : FrameRef) :
    GoesOn old (.serveNext frame) (Routing.serveNext frame) := by
  refine ⟨fun h parked => ?_, fun _ _ _ next _ _ => ?_⟩
  · simp only [parking] at parked
    split at parked
    · next same =>
      cases parked
      refine does_take fun action right => does_done ⟨rfl, fun debug => right ?_⟩
      rw [← FrameStack.ref_kind, ← same, debug]
    · cases parked
  · cases next with
    | exit action => trivial
    | request ticket q =>
      exact ⟨by rintro ⟨⟩, fun _ => ⟨fun _ _ _ returns => does_done returns, fun _ => trivial⟩⟩

theorem goesOn_messageLoop (frame : FrameRef) :
    GoesOn old (.messageLoop frame) (Routing.messageLoop frame) := by
  unfold Routing.messageLoop
  split
  · exact ⟨by rintro _ ⟨⟩, fun _ _ _ _ _ _ =>
      ⟨fun _ _ _ returns => does_done returns, fun _ => trivial⟩⟩
  · trivial

/-- Whatever calls nothing to serve a frame. -/
def loopless : Scope brokerInterface where
  acts _ := True
  calls callee := ∀ frame, callee ≠ .messageLoop frame
  starts _ := True

@[local simp] theorem loopless_acts {action : Action} : loopless.acts action := trivial

@[local simp] theorem loopless_calls {callee : Proc} :
    loopless.calls callee ↔ ∀ frame, callee ≠ .messageLoop frame := Iff.rfl

@[local simp] theorem loopless_starts {other : Proc} : loopless.starts other := trivial

@[local simp] theorem within_popFrame (i : Nat) : (Aborting.popFrame i).Within loopless := by
  have within (gone : List Nat) : (Aborting.tearDown gone).Within loopless := by
    induction gone with
    | nil => simp [Aborting.tearDown]
    | cons i rest ih => simp [Aborting.tearDown, ih]
  simp [Aborting.popFrame, within]

@[local simp] theorem within_pop (change : SessionChange) :
    (SessionChanges.pop change).Within loopless := by
  refine Program.within_bind (by simp) fun popped => ?_
  cases popped <;> simp

@[local simp] theorem within_adjust (probed : Identity) (changes : List Adjustment) :
    (SessionChanges.adjust probed changes).Within loopless := by
  induction changes with
  | nil => simp [SessionChanges.adjust]
  | cons change rest ih => cases change <;> simp [SessionChanges.adjust, SessionChanges.push, ih]

@[local simp] theorem within_refresh (e : EngineName) (atPrompt : Bool) :
    (SessionChanges.refresh e atPrompt).Within loopless := by
  have probed := (Registration.within_probe e atPrompt).mono (T := loopless) (fun _ _ => trivial)
    (fun callee probe frame same => by simp [same, Registration.probing, Proc.IsProbe] at probe)
    (fun _ _ => trivial)
  refine Program.within_bind probed fun answer => ?_
  split <;> simp

@[local simp] theorem within_probeStop (frame : FrameRef) (session : Session) :
    (Debugging.probeStop frame session).Within loopless := by
  refine Program.within_bind (by simp [Leases.acquire]) fun lease => ?_
  cases lease <;> simp [Leases.release]

@[local simp] theorem within_leaveStop (frame : FrameRef) (action : ResumeAction) :
    (Debugging.leaveStop frame action).Within loopless := by
  simp [Debugging.leaveStop, SessionChanges.current]

theorem passing_of_loopless {proc : Proc} {p : Code α} (within : p.Within loopless)
    (acts : ∀ action, parking old proc action = none)
    (calls : ∀ callee, (∀ frame, callee ≠ .messageLoop frame) → underlies old proc callee = false) :
    p.Within (passing old proc) :=
  within.mono (fun action _ => acts action) calls fun _ _ => trivial

theorem goesOn_nestedPrompt (frame : FrameRef) (promise : Nat) :
    GoesOn old (.nestedPrompt frame promise) (Debugging.promptThread frame promise) := by
  refine ⟨?_, fun action => goesOn_rest (passing_of_loopless (by simp) (fun _ => rfl) ?_)⟩
  · rintro under action _ ⟨rfl, -⟩
    have mine : promise ∉ old.awaited := by simpa using under
    refine does_popFrame.bind fun _ _ same => ?_
    subst same
    exact does_aside (by simp [aside, isAside, mine]) free_done
  · intro callee other
    cases callee
    case messageLoop frame => exact absurd rfl (other frame)
    all_goals rfl

theorem bind_flat {γ : Type} (p : Code α) (f : α → Code β) (g : β → Code γ) :
    p >>= f >>= g = p >>= fun a => f a >>= g :=
  Program.bind_assoc p f g

theorem pure_flat (a : α) (f : α → Code β) : (pure a : Code α) >>= f = f a := rfl

theorem goesOn_debuggerStopped (hooks : Hooks) (e : EngineName) (event : StopEvent) :
    GoesOn old (.debuggerStopped hooks e event) (Debugging.stopped hooks e event) := by
  cases hooks with
  | plans =>
    refine goesOn_rest ((Program.within_all _).mono (fun _ _ => rfl) (fun callee _ => ?_) fun _ _ => trivial)
    cases callee <;> rfl
  | broker =>
    have passes {α : Type} {p : Code α} (within : p.Within loopless) :
        p.Within (passing old (.debuggerStopped .broker e event)) := by
      refine passing_of_loopless within (fun _ => rfl) fun callee other => ?_
      cases callee
      case messageLoop frame => exact absurd rfl (other frame)
      all_goals rfl
    refine goesOn_passing (passes (by simp)) fun alive => ?_
    split
    · trivial
    simp only [Debugging.serviceStop, bind_flat, pure_flat]
    refine goesOn_passing (passes (by simp)) fun _ => ?_
    refine goesOn_passing (passes (by simp)) fun attached => ?_
    refine goesOn_passing (passes (by simp)) fun _ => ?_
    refine goesOn_passing (passes (by simp)) fun interrupted => ?_
    refine goesOn_passing (passes (by simp)) fun _ => ?_
    refine goesOn_passing (passes (by simp [SessionChanges.current])) fun session => ?_
    refine goesOn_act rfl fun _ _ _ frame _ performed => ?_
    have debug : frame.kind = .debug := by
      obtain ⟨rfl, -⟩ := Prod.mk.inj (Option.some.inj (World.frames_step performed))
      exact congrArg FrameRef.kind ((FrameStack.ref_push _ _).trans (if_pos rfl))
    rw [Program.done_bind]
    refine goesOn_passing (passes (by simp)) fun settings => ?_
    refine goesOn_passing (passes (by simp [Debugging.armRestart])) fun _ => ?_
    refine goesOn_passing (passes (by simp)) fun _ => ?_
    refine goesOn_passing (passes (by simp)) fun exited => ?_
    refine goesOn_passing (passes (by simp)) fun _ => ?_
    refine ⟨?_, fun action => goesOn_rest (passes (by simp))⟩
    rintro - action _ ⟨rfl, stop⟩
    obtain rfl := stop debug
    refine (does_leaveStop frame).bind fun _ _ same => ?_
    subst same
    exact Does.after (by simp [aside, isAside]) free_done fun _ => does_done ⟨rfl, rfl⟩

instance passing_invoke {e : EngineName} {c : Command} {merge nested : Bool} :
    (passing old (.invoke e c merge nested)).Plain where
  acts _ _ := rfl
  calls callee _ := by cases callee <;> first | rfl | simp_all
  starts _ _ := trivial

theorem goesOn_invoke (e : EngineName) (c : Command) (merge nested : Bool) :
    GoesOn old (.invoke e c merge nested) (Engines.invoke e c merge) := by
  have left (r : Except EngineFailure Invocation) : GoesOn old (.invoke e c merge nested) (do
      Code.engine e .leave
      return if merge then r.map Invocation.merge else r) := goesOn_rest (by simp)
  refine goesOn_passing (by simp) fun entered => ?_
  rcases entered with f | ⟨⟩
  · trivial
  by_cases probe : c.isProbe
  · refine goesOn_passing ?_ left
    simp [Engines.run, probe, Engines.awaitRelease]
  simp only [Engines.run, probe, Bool.false_eq_true, if_false, bind_flat]
  refine goesOn_passing (by simp) fun script => ?_
  rcases script with _ | script
  · exact left _
  cases script
  case «break» event =>
    simp only [Engines.runScript, bind_flat]
    refine goesOn_passing (by simp) fun hooks => ?_
    rcases hooks with _ | hooks
    · exact left _
    simp only [bind_flat]
    refine goesOn_passing (by simp) fun _ => ?_
    refine ⟨?_, fun action => goesOn_rest (by simp)⟩
    rintro here action _ ⟨rfl, rfl⟩
    have here : known old e := here
    simp only [Program.done_bind, pure_flat, if_true]
    refine Does.after (by simp [aside, isAside, here, mayWait, isDeed]) free_done fun _ => ?_
    refine Does.after (by simp [aside, isAside, here, mayWait, isDeed]) free_done fun _ => ?_
    cases merge <;> exact does_done ⟨rfl, rfl⟩
  case nestedPrompt =>
    refine goesOn_passing (Program.within_bind (by simp) fun hooks => ?_) left
    cases hooks <;> simp
  all_goals exact goesOn_passing (by simp [Engines.runScript]) left

/-- At the prompt of a debugger a command is run unless it resumes the debugger. -/
theorem atEach_atPrompt {e : EngineName} {c : Command}
    {acts : (action : Action) → (action.Reply → Code (Except EngineFailure PromptReply)) → Prop}
    {calls : (callee : Proc) → (callee.Result → Code (Except EngineFailure PromptReply)) → Prop}
    (looks : ∀ next, acts (.engine e .debugger) next)
    (runs : calls (.invoke e c true true) fun r => .done (r.map fun i => ⟨i.output, none⟩)) :
    (Engines.atPrompt e c).AtEach brokerMachine acts calls := by
  refine ⟨looks _, fun _ _ _ debugger _ _ => ?_⟩
  simp only [Program.done_bind]
  split
  · trivial
  · split
    · trivial
    · split
      · trivial
      · exact ⟨runs, fun _ => trivial⟩

instance passing_runCommand {frame : FrameRef} {e : EngineName} {q : Request} {route : Route} :
    (passing old (.runCommand frame e q route)).Plain where
  acts _ _ := rfl
  calls callee _ := by cases callee <;> first | rfl | simp_all
  starts _ _ := trivial

theorem goesOn_runCommand (frame : FrameRef) (e : EngineName) (q : Request) (route : Route) :
    GoesOn old (.runCommand frame e q route) (Running.run frame e q route) := by
  have concluded (v : Verdict) : GoesOn old (.runCommand frame e q route) (do
      Running.present q v
      Running.conclude frame e q route v) := by
    have aborted : (Aborting.abort false).Within (passing old (.runCommand frame e q route)) := by
      refine Program.within_bind (by simp) fun begun => ?_
      rcases begun with _ | ⟨before, debugger⟩
      · simp
      · simp only []
        refine Program.within_bind (by simp) fun e => ?_
        split
        · exact Program.within_bind (by simp) fun _ => by simp
        · simp
    have finished (progress : Progress) (hadErrors : Bool) :
        (Running.finish progress hadErrors).Within (passing old (.runCommand frame e q route)) := by
      simp [Running.finish]
    refine goesOn_rest (Program.within_bind (by simp) fun _ => ?_)
    refine Program.within_bind (by simp) fun availability => ?_
    split
    · exact Program.within_bind (by simp) fun _ => Program.within_bind (finished _ _) (by simp)
    · refine Program.within_bind aborted fun _ => Program.within_bind (by simp) fun _ => ?_
      exact Program.within_bind (finished _ _) (by simp)
  have stopped (merge nested : Bool)
      (here : underlies old (.runCommand frame e q route) (.invoke e q.command merge nested)) :
      Does old {} (do
        Running.present q (.ofResult (.error .stopped))
        Running.conclude frame e q route (.ofResult (.error .stopped)))
        (Returns {} (.runCommand frame e q route)) := by
    simp only [underlies, Bool.and_eq_true] at here
    exact does_stopped here.1
  unfold Running.run Running.begin
  simp only [bind_flat]
  refine goesOn_passing (by simp) fun _ => goesOn_passing (by simp) fun _ => ?_
  have sent : GoesOn old (.runCommand frame e q route) (do
      let r ← Running.send frame e q route
      Running.present q (.ofResult r)
      Running.conclude frame e q route (.ofResult r)) := by
    unfold Running.send
    split
    · simp only [bind_flat]
      refine Program.AtEach.bind (atEach_atPrompt (by rintro _ _ ⟨⟩) ?_) fun reply => ?_
      · rintro under r _ ⟨rfl, rfl⟩
        exact stopped _ _ under
      · rcases reply with f | ⟨output, resume⟩
        · exact concluded _
        · rcases resume with _ | action
          · exact concluded _
          · simp only
            split
            · exact goesOn_passing (by simp) fun _ => concluded _
            · exact concluded _
    · simp only [Engines.through, bind_flat]
      refine goesOn_passing (by simp) fun answer => ?_
      rcases answer with _ | output
      · refine ⟨?_, fun r => concluded _⟩
        rintro under r _ ⟨rfl, rfl⟩
        exact stopped _ _ under
      · exact concluded _
  split
  · exact goesOn_passing (by simp) fun _ => sent
  · exact sent

instance passing_engineStep {e : EngineName} {step : EngineStep} :
    (passing old (.engineStep e step)).Plain where
  acts _ _ := rfl
  calls callee _ := by cases callee <;> first | rfl | simp_all
  starts _ _ := trivial

theorem goesOn_engineStep (e : EngineName) (step : EngineStep) :
    GoesOn old (.engineStep e step) (Engines.step e step) := by
  cases step
  case invoke c merge nested =>
    refine ⟨?_, fun _ => trivial⟩
    rintro - r _ ⟨rfl, -⟩
    exact does_done rfl
  case atPrompt c foreign =>
    simp only [Engines.step]
    split
    · trivial
    · refine Program.AtEach.bind (atEach_atPrompt (by rintro _ _ ⟨⟩) ?_) fun _ => trivial
      rintro - r _ ⟨rfl, -⟩
      exact does_done rfl
  all_goals exact goesOn_rest (by simp [Engines.step])

theorem response_of_answers {payload : Option Payload} (h : payload.any answers) :
    ∃ r, payload = some (.response r) ∧ r ≠ .error .frameExited := by
  rcases payload with _ | r | _ | _
  case response =>
    refine ⟨r, rfl, ?_⟩
    rintro rfl
    cases h
  all_goals cases h

theorem answers_response {r : Response} (stays : r ≠ .error .frameExited) : answers (.response r) := by
  rcases r with f | outcome
  · cases f
    case frameExited => exact absurd rfl stays
    all_goals rfl
  · rfl

/-- Whoever waits for a command behind the read loop goes away with what it is told. -/
theorem goesOn_behindLoop {q : Request} {token : Option Token} {frame : FrameRef}
    {rest : Option Response → Code Response} (served : ∀ r, r ≠ .error .frameExited → rest (some r) = .done r)
    (again : ∀ r, GoesOn old (.route q token) (rest r)) :
    GoesOn old (.route q token) (Routing.behindLoop frame q >>= rest) := by
  simp only [Routing.behindLoop, bind_flat]
  refine goesOn_passing (by simp [SessionChanges.currentEngine, SessionChanges.current]) fun e => ?_
  refine goesOn_passing (by simp) fun promise => ?_
  rcases promise with _ | promise
  · exact again none
  · refine ⟨fun h parked => ?_, fun _ _ _ payload _ _ => ?_⟩
    · simp only [parking] at parked
      split at parked
      · next waits =>
        cases parked
        refine does_act (.broker (.awaitPromise promise)) free_done rfl fun _ _ _ payload _ k _ noted => ?_
        simp only [note, noteBroker, waits, true_imp_iff] at noted
        split at noted
        · next told =>
          cases noted
          obtain ⟨r, rfl, stays⟩ := response_of_answers told
          show Does old {} (rest (some r)) _
          rw [served r stays]
          exact does_done ⟨rfl, stays⟩
        · cases noted
      · cases parked
    · rcases payload with _ | _ | _ | _ <;> exact again _

/-- An attempt is made along a route. The result stands unless the frame went away before the request was
served. -/
theorem goesOn_attempt {q : Request} {token : Option Token} {frame : FrameRef} {route : Route}
    {rest : Response → Code Response} (served : ∀ r, r ≠ .error .frameExited → rest r = .done r)
    (again : ∀ r, GoesOn old (.route q token) (rest r)) :
    GoesOn old (.route q token) (Routing.attempt frame q token route >>= rest) := by
  have leased (route : Route) :
      GoesOn old (.route q token) (Routing.leased frame q route token >>= rest) := by
    simp only [Routing.leased, bind_flat]
    refine goesOn_passing (by simp [SessionChanges.currentEngine, SessionChanges.current]) fun e => ?_
    refine goesOn_passing (by simp [Leases.acquire]) fun lease => ?_
    rcases lease with f | ⟨⟩
    · exact again _
    · simp only [bind_flat, pure_flat]
      refine ⟨?_, fun r => goesOn_passing (p := Leases.release frame.id) (by simp [Leases.release])
        fun _ => again r⟩
      rintro - r _ ⟨rfl, stays⟩
      refine Does.after (p := Leases.release frame.id) (by simp [Leases.release, aside, isAside]) free_done
        fun _ => ?_
      rw [served r stays]
      exact does_done ⟨rfl, stays⟩
  cases route with
  | idle =>
    simp only [Routing.attempt, bind_flat]
    refine goesOn_behindLoop (fun r stays => served r stays) fun r => ?_
    rcases r with _ | r
    · exact leased _
    · exact again r
  | mailbox =>
    have mailed : (Routing.byMail frame q).Within (passing old (.route q token)) := by
      have asked : (Routing.ask frame.id q).Within (passing old (.route q token)) := by
        refine Program.within_bind (by simp) fun ticket => Program.within_bind (by simp) fun first => ?_
        refine Program.within_bind ?_ fun answer => ?_
        · cases first <;> simp [Routing.answered]
        · split <;> simp
      refine Program.within_bind asked fun r => ?_
      split <;> simp
    exact goesOn_passing mailed again
  | prompt | direct => exact leased _

theorem goesOn_route (q : Request) (token : Option Token) :
    GoesOn old (.route q token) (Routing.route q token) := by
  refine goesOn_passing (by simp) fun frame => ?_
  refine goesOn_passing (by simp [Routing.surroundings, SessionChanges.current, Engines.isStopped]) fun around => ?_
  refine goesOn_attempt (fun r stays => ?_) fun r => ?_
  · split
    · exact absurd rfl stays
    · rfl
  · split
    · refine goesOn_passing (by simp) fun phase => ?_
      split
      · trivial
      · exact ⟨fun _ _ _ returns => does_done returns, fun _ => trivial⟩
    · trivial

theorem does_phase {f : Phase → Code β} {h : Charge} (free : ∀ i, h.duty ≠ .waits i)
    (none : h.reach = none) (goesOn : ∀ phase, Does old h (f phase) post) :
    Does old h (Code.broker .phase >>= f) post := by
  refine does_act (.broker .phase) free trivial fun _ _ _ phase _ k _ noted => ?_
  have same : note old h (.broker .phase) phase = some h := by simp [note, noteBroker, none]
  cases same.symm.trans noted
  exact goesOn phase

theorem goesOn_execute (q : Request) (token : Option Token) :
    GoesOn old (.execute q token) (Routing.execute q token) := by
  have routed : GoesOn old (.execute q token) (do
      let r : Response ← Code.invoke (.route q token)
      Program.onlyIf q.options.interrupt do
        let phase : Phase ← Code.broker .phase
        if phase ≠ .disposed then Code.host .startLoop
      return r) := by
    refine ⟨?_, fun r => goesOn_rest (by simp)⟩
    rintro - r _ ⟨rfl, -⟩
    simp only [Program.done_bind]
    have restarted : Does old {} (Program.onlyIf q.options.interrupt do
        let phase : Phase ← Code.broker .phase
        if phase ≠ .disposed then Code.host .startLoop) fun _ k => k = {} := by
      unfold Program.onlyIf
      split
      · refine does_phase free_done rfl fun phase => ?_
        split
        · exact does_aside (by simp [aside, isAside]) free_done
        · exact does_done rfl
      · exact does_done rfl
    refine restarted.bind fun _ _ same => ?_
    subst same
    exact does_done rfl
  unfold Routing.execute
  refine goesOn_passing (by simp) fun phase => ?_
  split
  · trivial
  · refine goesOn_passing (by simp [SessionChanges.currentEngine, SessionChanges.current]) fun _ => ?_
    exact goesOn_passing (by simp) fun _ => routed

/-! ## The read loop -/

/-- There is nothing for the read loop to run. -/
theorem does_pump : Does old {} Reading.pump fun _ k => k = {} := by
  refine does_act (.idle .take) free_done trivial fun _ _ _ task _ k _ noted => ?_
  rcases task with _ | task
  · cases noted
    exact does_done rfl
  · cases noted

theorem does_hostRead (reader : Nat) : Does old {} (Reading.hostRead reader) fun _ k => k = {} := by
  refine does_act (.host (.poll reader)) free_done rfl fun _ _ _ event _ k _ noted => ?_
  rcases event with _ | _ | text | _
  case pump => cases noted
  all_goals
    cases noted
    exact does_done rfl

/-- A command that was behind the read loop has its response, and whoever waits for that is told. -/
theorem goesOn_work {task : IdleTask} {rest : Unit → Code Nat} (goesOn : Does old {} (rest ()) fun _ k => k = {})
    (more : ∀ u, GoesOn old .pump (rest u)) : GoesOn old .pump (Reading.work task >>= rest) := by
  obtain ⟨promise, work⟩ := task
  cases work with
  | command frame e q =>
    simp only [Reading.work, bind_flat]
    refine ⟨?_, fun r => goesOn_passing (p := Code.broker (.keep promise (.response r))) (by simp) more⟩
    rintro - r _ ⟨rfl, stays⟩
    refine Does.after (p := Code.broker (.keep promise (.response r))) ?_ free_done fun _ => goesOn
    simp [aside, isAside, answers_response stays]
  | action n =>
    refine goesOn_passing (Program.within_bind (by simp) fun taken => ?_) more
    cases taken <;> simp
  | rehearsal name inner v =>
    exact goesOn_passing (by simp [Reading.work, Rehearsal.begin]) more

theorem goesOn_pump : GoesOn old .pump Reading.pump := by
  refine goesOn_passing (by simp) fun task => ?_
  rcases task with _ | task
  · trivial
  · refine goesOn_passing (by simp) fun _ => goesOn_work ?_ fun _ => goesOn_passing (by simp) fun _ => ⟨?_, ?_⟩
    · refine Does.after (by simp [aside, isAside]) free_done fun _ => ?_
      exact does_call .pump rfl fun _ _ same => does_done same
    · rintro - n _ rfl
      exact does_done rfl
    · exact fun _ => trivial

theorem goesOn_hostRead (reader : Nat) : GoesOn old (.hostRead reader) (Reading.hostRead reader) := by
  refine ⟨?_, fun _ _ _ event _ _ => ?_⟩
  · rintro _ ⟨⟩
    exact does_hostRead reader
  rcases event with _ | _ | text | _
  case pump =>
    refine ⟨?_, fun ran => goesOn_passing (p := Code.host (.call (.pumped ran))) (by simp)
      fun _ => ⟨?_, fun _ => trivial⟩⟩
    · rintro - ran _ rfl
      refine Does.after (p := Code.host (.call (.pumped ran))) (by simp [aside, isAside]) free_done fun _ => ?_
      exact does_call (.hostRead reader) rfl fun _ _ same => does_done same
    · rintro - line _ rfl
      exact does_done rfl
  all_goals trivial

theorem goesOn_readLoop (frame : FrameRef) : GoesOn old (.readLoop frame) Reading.readLoop := by
  refine goesOn_passing (by simp) fun _ => goesOn_passing (by simp) fun reader => ?_
  refine goesOn_passing (by simp) fun _ => ⟨?_, fun line => goesOn_rest (by simp)⟩
  rintro - line _ rfl
  exact does_aside (by simp [aside, isAside]) free_done

theorem goesOn_readLine (token : Option Token) : GoesOn old (.readLine token) (Reading.readLine token) := by
  refine goesOn_passing (by simp) fun phase => ?_
  split
  · trivial
  · refine goesOn_passing (by simp) fun frame => goesOn_passing (by simp [Leases.acquire]) fun lease => ?_
    rcases lease with f | ⟨⟩
    · trivial
    · refine ⟨?_, fun line => goesOn_rest (by simp [Leases.release])⟩
      rintro - line _ rfl
      exact does_aside (by simp [Leases.release, aside, isAside]) free_done

theorem goesOn_restartLoop (frame : FrameRef) :
    GoesOn old (.restartLoop frame) (Debugging.restartLoop frame) := by
  refine ⟨?_, fun _ _ _ r _ _ => goesOn_rest (by simp)⟩
  rintro _ ⟨⟩
  refine does_act (.frames (.awaitFinish frame.id)) free_done ⟨⟨rfl, rfl⟩, by rintro _ ⟨⟩⟩
    fun _ _ _ _ _ k _ noted => ?_
  cases noted
  refine does_act (.broker .availabilityChanges) free_done trivial
    fun _ _ _ n _ k _ noted => ?_
  cases noted
  refine does_call (.awaitUsable n) rfl ?_
  rintro _ _ ⟨m, rfl⟩
  have free (i : Nat) : ({ seen := m } : Charge).duty ≠ .waits i := by rintro ⟨⟩
  refine does_phase free rfl fun phase => ?_
  refine (does_aside (h := { seen := m }) ?_ free).imp fun _ _ same => ⟨m, same⟩
  split <;> simp [aside, isAside]

/-- A client is told what the request came to. -/
def reported (name : String) (request : ClientRequest) (r : Report) : Code Unit := do
  Program.onlyIf (Clients.holdsBroker request) (Code.broker .letGo)
  Code.broker (.report name r)

theorem serve_eq (name : String) (request : ClientRequest) : Clients.serve name request = (do
    Program.onlyIf (Clients.holdsBroker request) (Code.broker .hold)
    let r ← Clients.handle request
    reported name request r) := by
  unfold Clients.serve reported Program.onlyIf
  cases Clients.holdsBroker request <;> rfl

theorem does_reported (name : String) (request : ClientRequest) (r : Report) {h : Charge}
    (free : ∀ i, h.duty ≠ .waits i) : Does old h (reported name request r) fun _ k => k = h :=
  does_aside (by simp [reported, aside, isAside]) free

theorem goesOn_reported (name : String) (request : ClientRequest) (r : Report) :
    GoesOn old (.serveClient name request) (reported name request r) :=
  goesOn_rest (by cases request <;> simp [reported])

theorem goesOn_serveClient (name : String) (request : ClientRequest) :
    GoesOn old (.serveClient name request) (Clients.serve name request) := by
  rw [serve_eq]
  cases request
  case execute c o token =>
    simp only [Clients.handle, Routing.submit, bind_flat]
    refine goesOn_passing (by simp) fun _ => goesOn_passing (by simp) fun call => ?_
    refine ⟨?_, fun r => goesOn_reported name _ _⟩
    rintro - r _ ⟨rfl, -⟩
    exact does_reported name _ _ free_done
  case executeBuffered c o buffer =>
    simp only [Clients.handle, Clients.executeBuffered, Routing.submit, bind_flat]
    refine goesOn_passing (by simp) fun _ => goesOn_passing (by simp) fun call => ?_
    refine ⟨?_, fun r => ?_⟩
    · rintro - (f | outcome) _ ⟨rfl, -⟩ <;> exact does_reported name _ _ free_done
    · cases r <;> exact goesOn_reported name _ _
  case engineStep e step =>
    simp only [Clients.handle, bind_flat]
    refine goesOn_passing (by simp) fun _ => ⟨?_, fun r => goesOn_reported name _ _⟩
    rintro - r _ rfl
    exact does_reported name _ _ free_done
  case invoke e c merge nested =>
    simp only [Clients.handle, Engines.through, bind_flat]
    refine goesOn_passing (by simp) fun _ => goesOn_passing (by simp) fun answer => ?_
    rcases answer with _ | output
    · refine ⟨?_, fun r => goesOn_reported name _ _⟩
      rintro - r _ ⟨rfl, -⟩
      exact does_reported name _ _ free_done
    · exact goesOn_reported name _ _
  case stop e event =>
    simp only [Clients.handle, Clients.raise, bind_flat]
    refine goesOn_passing (by simp) fun _ => goesOn_passing (by simp) fun hooks => ?_
    rcases hooks with _ | hooks
    · exact goesOn_reported name _ _
    · refine ⟨?_, fun r => goesOn_reported name _ _⟩
      rintro - r _ ⟨rfl, -⟩
      exact does_reported name _ _ free_done
  case enterNestedPrompt =>
    simp only [Clients.handle, Debugging.enterPrompt, bind_flat]
    refine goesOn_passing (by simp) fun _ => goesOn_passing (by simp) fun phase => ?_
    split
    · exact goesOn_reported name _ _
    · simp only [bind_flat]
      refine goesOn_passing (by simp [SessionChanges.current]) fun session => ?_
      refine goesOn_passing (by simp) fun frame => goesOn_passing (by simp) fun promise => ?_
      refine goesOn_passing (by simp) fun _ => goesOn_passing (by simp) fun _ => ?_
      refine ⟨?_, fun _ _ _ _ _ _ => goesOn_reported name _ _⟩
      rintro _ ⟨⟩
      refine does_act (.broker (.awaitPromise promise)) free_done rfl
        fun _ _ _ _ _ k _ noted => ?_
      simp only [note, noteBroker] at noted
      split at noted
      · cases noted
        exact does_reported name _ _ free_done
      · cases noted
  case readLine token =>
    simp only [Clients.handle, bind_flat]
    refine goesOn_passing (by simp) fun _ => ⟨?_, fun r => goesOn_reported name _ _⟩
    rintro - r _ rfl
    exact does_reported name _ _ free_done
  all_goals exact goesOn_rest ((Program.within_all _).mono (fun _ _ => rfl)
    (fun callee _ => by cases callee <;> rfl) fun _ _ => trivial)

/-- Whoever waits in the teardown minds the lore when it goes on. -/
theorem goesOn_body (proc : Proc) : GoesOn old proc (body proc) := by
  cases proc
  case serveClient name request => exact goesOn_serveClient name request
  case invoke e c merge nested => exact goesOn_invoke e c merge nested
  case debuggerStopped hooks e event => exact goesOn_debuggerStopped hooks e event
  case engineStep e step => exact goesOn_engineStep e step
  case execute q token => exact goesOn_execute q token
  case route q token => exact goesOn_route q token
  case runCommand frame e q route => exact goesOn_runCommand frame e q route
  case messageLoop frame => exact goesOn_messageLoop frame
  case serveNext frame => exact goesOn_serveNext frame
  case pump => exact goesOn_pump
  case hostRead reader => exact goesOn_hostRead reader
  case readLoop frame => exact goesOn_readLoop frame
  case readLine token => exact goesOn_readLine token
  case nestedPrompt frame promise => exact goesOn_nestedPrompt frame promise
  case restartLoop frame => exact goesOn_restartLoop frame
  all_goals exact goesOn_rest ((Program.within_all _).mono (fun _ _ => rfl)
    (fun callee _ => by cases callee <;> rfl) fun _ _ => trivial)

/-! ## Those who are charged -/

theorem does_awaitUsable (n : Nat) :
    Does old { seen := some n } (Debugging.awaitUsable n) fun _ k => ∃ n, k = { seen := n } := by
  have free (i : Nat) : ({ seen := some n } : Charge).duty ≠ .waits i := by rintro ⟨⟩
  refine does_currentEngine free fun e here => ?_
  refine Does.after (by simp [aside, isAside, here, mayWait, isDeed]) free fun availability => ?_
  split
  · exact does_done ⟨_, rfl⟩
  · refine does_act (.broker (.awaitAvailability n)) free rfl fun _ _ _ _ _ _ _ noted => ?_
    cases noted

/-- All procedures that are called by somebody who is charged mind the lore. -/
theorem bodies (fit : Fit old) : (lore old).Bodies brokerMachine where
  minds proc k may := by
    rcases k with _ | h
    · exact minds_none (body proc)
    · refine minds_iff.mpr ?_
      replace may : mayCall h proc := may h rfl
      cases proc
      case dispose =>
        obtain rfl : h = start := may
        exact does_dispose fit
      case popSessions =>
        obtain ⟨x, rfl, looked, early⟩ := may
        exact does_popAll looked early
      case awaitUsable n =>
        obtain rfl : h = { seen := some n } := may
        exact does_awaitUsable n
      case pump =>
        obtain rfl : h = {} := may
        exact does_pump
      case hostRead reader =>
        obtain rfl : h = {} := may
        exact does_hostRead reader
      all_goals exact may.elim
  fresh proc k starts := by
    rintro _ ⟨⟩

/-- The client who has the broker disposed. -/
theorem does_serveClient (name : String) :
    Does old start (Clients.serve name .dispose) (Returns start (.serveClient name .dispose)) := by
  rw [serve_eq]
  refine Does.after (by simp [aside, isAside]) on_free fun _ => ?_
  refine does_call .dispose rfl ?_
  rintro _ _ ⟨x, rfl, ended⟩
  exact (does_reported name .dispose .disposed on_free).imp fun _ _ same => ⟨x, same, ended⟩

end SessionBroker.Teardown
