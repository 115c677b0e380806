import SessionBroker.Broker.Leases
import SessionBroker.Broker.Running

/-!
# Routing requests

How a request finds its way: straight to the engine under a lease, behind the read loop, to the
debugger's prompt, or to the thread that serves the current frame.
-/

namespace SessionBroker.Routing

/-- What the broker looks like around a frame. -/
def surroundings (frame : FrameRef) : Code Surroundings := do
  let session ← SessionChanges.current
  let debuggerStopped ← Engines.isStopped session.engine
  let loopActive : Bool ← Code.idle .isActive
  let loopBusy : Bool ← Code.idle .isInvoking
  let own : Bool ← Code.frames (.isServer frame.id)
  return {
    kind := frame.kind
    remote := frame.remote || session.isOutOfProcess
    debuggerStopped
    loopActive
    loopBusy
    servedElsewhere := frame.hasMailbox && !own }

/-- Runs a command under the frame's lease, on the engine that was current before the wait. -/
def leased (frame : FrameRef) (q : Request) (route : Route) (token : Option Token) :
    Code Response := do
  let e ← SessionChanges.currentEngine
  let lease ← Leases.acquire frame.id (.future token)
  match lease with
  | .error f => return .error f
  | .ok _ =>
    let r : Response ← Code.invoke (.runCommand frame e q route)
    Leases.release frame.id
    return r

/-- Runs a command behind the read loop; nothing if the loop ends first. -/
def behindLoop (frame : FrameRef) (q : Request) : Code (Option Response) := do
  let e ← SessionChanges.currentEngine
  let promise : Option Nat ← Code.idle (.schedule (.command frame e q))
  match promise with
  | none => return none
  | some p =>
    let payload : Option Payload ← Code.broker (.awaitPromise p)
    match payload with
    | some (.response r) => return some r
    | _ => return none

/-- The answer to a request, if it is not there yet once it has come. -/
def answered (frame ticket : Nat) :
    Option (Mailbox.Answer Response) → Code (Mailbox.Answer Response)
  | some a => return a
  | none => Code.invoke (.awaitAnswer frame ticket)

/-- Waits for the answer to a request in a mailbox. -/
def awaitAnswer (frame ticket : Nat) : Code (Mailbox.Answer Response) := do
  let answer : Option (Mailbox.Answer Response) ← Code.frames (.lookMail frame ticket)
  answered frame ticket answer

/-- Has a request served by the thread of a frame. -/
def ask (frame : Nat) (q : Request) : Code Response := do
  let ticket : Nat ← Code.broker .ticket
  let first : Option (Mailbox.Answer Response) ← Code.frames (.ask frame ticket q)
  let answer ← answered frame ticket first
  match answer with
  | .served r => return r
  | .refused => return .error .frameExited

/-- Sends a request to the thread that serves a frame; if the frame has exited, waits until it is
torn down. -/
def byMail (frame : FrameRef) (q : Request) : Code Response := do
  let r ← ask frame.id q
  match r with
  | .error .frameExited =>
    Code.frames (.awaitFinish frame.id)
    return r
  | _ => return r

/-- Makes one attempt along a route. -/
def attempt (frame : FrameRef) (q : Request) (token : Option Token) : Route → Code Response
  | .idle => do
    let r ← behindLoop frame q
    match r with
    | some r => return r
    | none => leased frame q .direct token
  | .mailbox => byMail frame q
  | .prompt => leased frame q .prompt token
  | .direct => leased frame q .direct token

/-- Finds a way for a request. If the frame goes away before the request is served, a new way is
sought from the frame that is current then. -/
def route (q : Request) (token : Option Token) : Code Response := do
  let frame : FrameRef ← Code.frames .current
  let around ← surroundings frame
  let r ← attempt frame q token (Route.choose q.options around)
  match r with
  | .error .frameExited =>
    let phase : Phase ← Code.broker .phase
    if phase = .disposed then return .error .disposed
    Code.invoke (.route q token)
  | _ => return r

/-- Runs a command. The history gets it first, and the read loop is stopped around it if it asks for
that. -/
def execute (q : Request) (token : Option Token) : Code Response := do
  let phase : Phase ← Code.broker .phase
  if phase = .disposed then return .error .disposed
  Program.onlyIf q.options.remember do
    let e ← SessionChanges.currentEngine
    Code.engine e (.remember q.command.text)
  Program.onlyIf q.options.interrupt (Code.host .stopLoop)
  let r : Response ← Code.invoke (.route q token)
  Program.onlyIf q.options.interrupt do
    let phase : Phase ← Code.broker .phase
    if phase ≠ .disposed then Code.host .startLoop
  return r

/-- Has a command run. Each such call has a number of its own. -/
def submit (c : Command) (o : RequestOptions) (token : Option Token) : Code Response := do
  let call : Nat ← Code.broker .ticket
  Code.invoke (.execute ⟨call, c, o⟩ token)

/-- Serves a request on the thread of its frame. -/
def serve (frame : FrameRef) (ticket : Nat) (q : Request) : Code Unit := do
  let e ← SessionChanges.currentEngine
  let lease ← Leases.acquire frame.id .thread
  match lease with
  | .error f => Code.frames (.answer frame.id ticket (.served (.error f)))
  | .ok _ =>
    let around ← surroundings frame
    let route := if Route.allowsPrompt q.options around then Route.prompt else .direct
    let r : Response ← Code.invoke (.runCommand frame e q route)
    Leases.release frame.id
    Code.frames (.answer frame.id ticket (.served r))

/-- Serves the requests of a frame until its exit is set. -/
def serveNext (frame : FrameRef) : Code ResumeAction := do
  let next : Mailbox.Next Request ← Code.frames (.take frame.id)
  match next with
  | .exit action => return action
  | .request ticket q =>
    Code.invoke (.serve frame ticket q)
    Code.invoke (.serveNext frame)

/-- Becomes the thread that serves a frame. A frame without a mailbox exits at once. -/
def messageLoop (frame : FrameRef) : Code ResumeAction := do
  if frame.hasMailbox then
    Code.frames (.attach frame.id)
    Code.invoke (.serveNext frame)
  else return .continue

end SessionBroker.Routing
