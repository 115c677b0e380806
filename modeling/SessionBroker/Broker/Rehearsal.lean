import SessionBroker.Broker.Routing

/-!
# Rehearsals

Parts played by idle tasks and by the threads of frames whose only purpose is to show how the queue
and the mailboxes behave. What they do is noted down.
-/

namespace SessionBroker.Rehearsal

def begin (name : String) : Code Unit := do
  let active : Bool ← Code.idle .isActive
  let invoking : Bool ← Code.idle .isInvoking
  Code.broker (.trace (.taskBegan name active invoking (active && !invoking)))

/-- The steps of an idle task, each noted down. -/
def idleSteps (name : String) : List IdleStep → Code Unit
  | [] => return
  | .setActive active :: rest => do
    Code.idle (.setActive active)
    let invoking : Bool ← Code.idle .isInvoking
    Code.broker (.trace (.taskSet name invoking))
    idleSteps name rest
  | .pump :: rest => do
    let ran : Nat ← Code.invoke .pump
    let invoking : Bool ← Code.idle .isInvoking
    Code.broker (.trace (.taskPumped name ran invoking))
    idleSteps name rest
  | .schedule inner innerSteps :: rest => do
    let promise : Option Nat ← Code.idle (.schedule (.rehearsal inner innerSteps .null))
    let invoking : Bool ← Code.idle .isInvoking
    Code.broker (.trace (.taskScheduled name promise.isSome invoking))
    idleSteps name rest

def idleStep : IdleStep → Code Report
  | .setActive active => do
    Code.idle (.setActive active)
    return .nothing
  | .pump => do
    let ran : Nat ← Code.invoke .pump
    return .count ran
  | .schedule name inner => do
    let promise : Option Nat ← Code.idle (.schedule (.rehearsal name inner .null))
    return .truth promise.isSome

/-- Waits for an idle task; nothing if no loop runs it. -/
def idleExecute (name : String) (v : Json.Value) (inner : List IdleStep) :
    Code (Option Json.Value) := do
  let promise : Option Nat ← Code.idle (.schedule (.rehearsal name inner v))
  match promise with
  | none => return none
  | some p =>
    let payload : Option Payload ← Code.broker (.awaitPromise p)
    match payload with
    | some (.value v) => return v
    | _ => return none

/-- What the thread of a rehearsed frame does with a request, by the first word of its text. -/
inductive Part where
  | letGo
  | refuse (reason : String)
  | hold
  | exit (action : ResumeAction)
  | dispose
  | echo
  deriving DecidableEq, Repr

/-- The part that a text asks for: a word, and after a colon what goes with it. -/
def Part.ofText (text : String) : Part :=
  let word := String.ofList (text.toList.takeWhile (· ≠ ':'))
  let rest := String.ofList ((text.toList.dropWhile (· ≠ ':')).drop 1)
  if word = "drop" then .letGo
  else if word = "fail" then .refuse rest
  else if word = "hold" then .hold
  else if word = "exit" then .exit (ResumeAction.ofName rest)
  else if word = "dispose" then .dispose
  else .echo

/-- Plays a part in a frame. -/
def play (frame : Nat) (text : String) : Part → Code (Mailbox.Answer Response)
  | .letGo => return .refused
  | .refuse reason => return .served (.error (.misuse reason))
  | .hold => do
    Code.broker .awaitUnhold
    return .served (.ok (.ofOutput [.string text]))
  | .exit action => do
    let won : Bool ← Code.frames (.tryExit frame action)
    Code.broker (.trace (.exitTried won))
    return .served (.ok (.ofOutput [.string text]))
  | .dispose => do
    Code.frames (.dispose frame)
    return .served (.ok (.ofOutput [.string text]))
  | .echo => return .served (.ok (.ofOutput [.string text]))

/-- Serves the requests of a rehearsed frame until its exit is set. -/
def next (frame : Nat) : Code ResumeAction := do
  let next : Mailbox.Next Request ← Code.frames (.take frame)
  match next with
  | .exit action => return action
  | .request ticket q =>
    let own : Bool ← Code.frames (.isServer frame)
    Code.broker (.trace (.served q.command.text q.options.readsLine own))
    let answer ← play frame q.command.text (Part.ofText q.command.text)
    Code.frames (.answer frame ticket answer)
    Code.invoke (.rehearsedNext frame)

/-- The thread of a rehearsed frame. -/
def loop (frame : Nat) (pop : Bool) : Code Unit := do
  Code.frames (.attach frame)
  let action : ResumeAction ← Code.invoke (.rehearsedNext frame)
  Code.broker (.trace (.loopEnded action))
  if pop then Aborting.popFrame frame

/-- Waits until the current frame has exited, after an attempt to cause that. A frame without a
mailbox has no exit to wait for. -/
def awaitCurrentExit (trigger : Option ResumeAction) : Code (Option ResumeAction) := do
  let frame : FrameRef ← Code.frames .current
  if !frame.hasMailbox then return none
  Code.broker (.trace (.triggered frame.id))
  match trigger with
  | none => pure ()
  | some action =>
    let _ : Bool ← Code.frames (.tryExit frame.id action)
  let action : ResumeAction ← Code.frames (.awaitExit frame.id)
  Code.frames (.awaitFinish frame.id)
  return some action

end SessionBroker.Rehearsal
