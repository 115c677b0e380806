import SessionBroker.Broker.Routing

/-!
# The loop of the shell

The shell reads lines and runs them as commands. While a command runs, a stop of the debugger
switches to a prompt of its own, until the debugger is resumed.
-/

namespace SessionBroker.Shell

/-- What the shell shows before it reads a command. -/
def prompt : String := "PS> "

/-- What the shell shows while the debugger is stopped. -/
def debuggerPrompt : String := "[DBG]: PS> "

/-- A line without the blanks around it. -/
def trimmed (line : String) : String := String.ofList (Text.trim line.toList)

def complain (f : Failure) : Code Unit := Running.write .error ("error: " ++ f.message)

/-- What is shown of a stop. -/
def stopText (event : StopEvent) : String :=
  "Hit breakpoint at " ++ event.script.getD "<unknown>" ++ ":" ++ toString (event.line.getD 0)

/-- The first stop of the debugger among notices, and how many notices come before it. -/
def firstStop? : List Notice → Option (Nat × StopEvent)
  | [] => none
  | .debuggerStop event :: _ => some (0, event)
  | _ :: rest => (firstStop? rest).map fun (n, event) => (n + 1, event)

/-- Does what a line says while the debugger is stopped: it resumes the debugger or is a command. -/
def debuggerLine (line : String) : Code Unit := do
  if line.isEmpty then Code.invoke .shellDebugger
  else match ResumeAction.ofWord? line with
    | some action =>
      let _ : Bool ← Code.invoke (.resumeDebugger action true)
      return
    | none =>
      let r ← Routing.submit (.named line) .interactive none
      match r with
      | .error f => complain f
      | .ok _ => pure ()
      Code.invoke .shellDebugger

/-- Goes on with what was read while the debugger is stopped. -/
def debuggerRead : Except Failure (Option String) → Code Unit
  | .error .frameExited => return
  | .error f => complain f
  | .ok none => do
    let ended : Bool ← Code.host .isEnded
    if ended then
      let _ : Bool ← Code.invoke (.resumeDebugger .continue true)
      return
    Code.invoke .shellDebugger
  | .ok (some line) => debuggerLine (trimmed line)

/-- Reads and runs one line after the other while the debugger is stopped. -/
def debuggerLoop : Code Unit := do
  let stop : Option StopEvent ← Code.broker .stopEvent
  if stop.isNone then return
  let read : Except Failure (Option String) ← Code.invoke (.readLine none)
  debuggerRead read

/-- Waits for the end of a command and services stops of the debugger meanwhile; gives the position
up to which notices have been read. -/
def wait (request : String) (position : Nat) : Code Nat := do
  let news : News ← Code.broker (.awaitNews position request)
  match firstStop? news.notices with
  | some (before, event) =>
    Running.write .normal (stopText event)
    Code.host (.setPrompt debuggerPrompt)
    Code.invoke .shellDebugger
    Code.host (.setPrompt prompt)
    Code.invoke (.shellWait request (position + news.lost + before + 1))
  | none =>
    let position := position + news.lost + news.notices.length
    match news.report with
    | none => Code.invoke (.shellWait request position)
    | some (.response (.error f)) =>
      complain f
      return position
    | some _ => return position

/-- Reads and runs lines until the input ends or a line says to exit. Notices have been read up to a
position. -/
def loop (position : Nat) : Code (Except Failure Unit) := do
  let read : Except Failure (Option String) ← Code.invoke (.readLine none)
  match read with
  | .error f => return .error f
  | .ok none =>
    let ended : Bool ← Code.host .isEnded
    if ended then
      Code.invoke .dispose
      return .ok ()
    Code.invoke (.shellLoop position)
  | .ok (some line) =>
    let line := trimmed line
    if line.isEmpty then Code.invoke (.shellLoop position)
    else if line = "exit" then
      Code.invoke .dispose
      return .ok ()
    else
      let ticket : Nat ← Code.broker .ticket
      let request := "command " ++ toString ticket
      Code.start (.serveClient request (.execute (.script line) .interactive none))
      let position : Nat ← Code.invoke (.shellWait request position)
      Code.invoke (.shellLoop position)

end SessionBroker.Shell
