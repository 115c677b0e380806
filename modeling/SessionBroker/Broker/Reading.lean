import SessionBroker.Broker.Rehearsal
import SessionBroker.Broker.Routing

/-!
# Reading lines

The read loop of the host: it waits for a line and runs idle work meanwhile, on its own thread.
-/

namespace SessionBroker.Reading

/-- Does the work of an idle task and keeps its promise. -/
def work (task : IdleTask) : Code Unit := do
  match task.work with
  | .command frame e q =>
    let r : Response ← Code.invoke (.runCommand frame e q .idle)
    Code.broker (.keep task.promise (.response r))
  | .action n =>
    let taken : Option Json.Value ← Code.broker (.takeAction n)
    match taken with
    | none => Code.broker (.keep task.promise (.value none))
    | some v =>
      let v : Json.Value ← Code.invoke (.compute n v)
      Code.broker (.keep task.promise (.value (some v)))
  | .rehearsal name inner v =>
    Rehearsal.begin name
    Code.invoke (.idleSteps name inner)
    Code.broker (.keep task.promise (.value (some v)))

/-- Runs idle tasks until there are none; gives their number. -/
def pump : Code Nat := do
  let task : Option IdleTask ← Code.idle .take
  match task with
  | none => return 0
  | some t =>
    Code.idle (.setInvoking true)
    work t
    Code.idle (.setInvoking false)
    let more : Nat ← Code.invoke .pump
    return more + 1

/-- Waits for a line; nothing if the loop is stopped or the input has ended. -/
def hostRead (reader : Nat) : Code (Option String) := do
  let event : ReadEvent ← Code.host (.poll reader)
  match event with
  | .stopped => return none
  | .ended => return none
  | .line text => return some text
  | .pump =>
    let ran : Nat ← Code.invoke .pump
    Code.host (.call (.pumped ran))
    Code.invoke (.hostRead reader)

/-- Has the host read a line. Idle work is accepted meanwhile. -/
def readLoop : Code (Option String) := do
  Code.idle (.setActive true)
  let reader : Nat ← Code.broker .ticket
  Code.host (.beginRead reader)
  let line : Option String ← Code.invoke (.hostRead reader)
  Code.host (.endRead reader)
  Code.idle (.setActive false)
  return line

/-- Reads a line under the current frame's lease. -/
def readLine (token : Option Token) : Code (Except Failure (Option String)) := do
  let phase : Phase ← Code.broker .phase
  if phase = .disposed then return .error .disposed
  let frame : FrameRef ← Code.frames .current
  let lease ← Leases.acquire frame.id (.future token)
  match lease with
  | .error f => return .error f
  | .ok _ =>
    let line : Option String ← Code.invoke (.readLoop frame)
    Leases.release frame.id
    return .ok line

def compute (v : Json.Value) : Code Json.Value := return v

/-- Has an action run behind the read loop; nothing if no loop runs it. -/
def valueBehindLoop (n : Nat) : Code (Option Json.Value) := do
  let active : Bool ← Code.idle .isActive
  let invoking : Bool ← Code.idle .isInvoking
  if !active || invoking then return none
  let promise : Option Nat ← Code.idle (.schedule (.action n))
  match promise with
  | none => return none
  | some p =>
    let payload : Option Payload ← Code.broker (.awaitPromise p)
    match payload with
    | some (.value v) => return v
    | _ => return none

/-- Runs an action on the thread that owns the pipeline: behind the read loop if one is idle, else
under the current frame's lease. Tells which. -/
def onPipeline (n : Nat) : Code (Except Failure (Json.Value × Bool)) := do
  let phase : Phase ← Code.broker .phase
  if phase = .disposed then return .error .disposed
  let behind ← valueBehindLoop n
  match behind with
  | some v => return .ok (v, true)
  | none =>
    let taken : Option Json.Value ← Code.broker (.takeAction n)
    match taken with
    | none => return .error (.misuse "pipeline action already consumed")
    | some v =>
      let frame : FrameRef ← Code.frames .current
      let lease ← Leases.acquire frame.id (.future none)
      match lease with
      | .error f => return .error f
      | .ok _ =>
        let v : Json.Value ← Code.invoke (.compute n v)
        Leases.release frame.id
        return .ok (v, false)

/-- Has an action run on the thread that owns the pipeline. -/
def submit (v : Json.Value) : Code (Except Failure (Json.Value × Bool)) := do
  let action : Nat ← Code.broker (.offer v)
  Code.invoke (.onPipeline action)

end SessionBroker.Reading
