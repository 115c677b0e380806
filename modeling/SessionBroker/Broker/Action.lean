import SessionBroker.Broker.World

/-!
# Actions

The single steps that flows make on the shared state. Each part of the state has its own kind of
action; an action that has to wait gives `none`.
-/

namespace SessionBroker

/-! ## Engines -/

inductive EngineOp where
  /-- Note a command that is run through the engine; gives what answers it in the engine's stead. -/
  | arrive (command : Command) (merge nested : Bool)
  | enter
  | leave
  | takeProbeHold
  | beginWait
  | endBlock
  | endHold
  | identity
  | script (text : String)
  | hooks
  | lastHooks
  | enterStop
  | leaveStop
  | setIdentity (identity : Identity)
  | setAvailability (a : Availability)
  | availability
  | version
  | stop
  | remember (text : String)
  | register (h : Hooks)
  | unregister
  | close
  /-- Whether the debugger is stopped, and whether it is within reach at all. -/
  | debugger
  | wish (w : Engine.Wish)
  | release
  | holdNextProbe
  | setScript (text : String) (s : Script)
  | history

/-- What a step on an engine replies. -/
@[reducible] def EngineOp.Reply : EngineOp → Type
  | .arrive .. => Option (List Json.Value)
  | .enter => Except EngineFailure Unit
  | .takeProbeHold => Bool
  | .identity => Identity
  | .script _ => Option Script
  | .hooks => Option Hooks
  | .lastHooks => Option Hooks
  | .setAvailability _ => Option Hooks
  | .availability => Availability
  | .version => Version
  | .debugger => Bool × Bool
  | .history => List String
  | _ => Unit

namespace Endpoint

def map (p : Endpoint) (f : Engine → Engine) : Endpoint := { p with engine := f p.engine }

/-- A step on an engine; what is asked of the debugger of a foreign engine has no effect. -/
def perform (p : Endpoint) : (op : EngineOp) → Option (op.Reply × Endpoint)
  | .arrive command _ _ => some (if command.isProbe then p.probeOutput else none, p)
  | .enter =>
    match p.engine.enter with
    | .ok e => some (.ok (), { p with engine := e })
    | .error f => some (.error f, p)
  | .leave => some ((), p.map Engine.leave)
  | .takeProbeHold => some (p.engine.holdNextProbe, p.map ({ · with holdNextProbe := false }))
  | .beginWait => some ((), p.map Engine.beginWait)
  | .endBlock => p.engine.endBlock?.map fun e => ((), { p with engine := e })
  | .endHold => p.engine.endHold?.map fun e => ((), { p with engine := e })
  | .identity => some (p.engine.identity, p)
  | .script text => some (p.engine.script? text, p)
  | .hooks => some (p.engine.hooks, p)
  | .lastHooks => some (p.lastHooks, p)
  | .enterStop => some ((), p.map fun e => { e with stoppedDepth := e.stoppedDepth + 1 })
  | .leaveStop => some ((), p.map fun e => { e with stoppedDepth := e.stoppedDepth - 1 })
  | .setIdentity d => some ((), p.map ({ · with identity := d }))
  | .setAvailability a => some (p.engine.hooks, p.map ({ · with availability := a }))
  | .availability => some (p.engine.availability, p)
  | .version => some (p.engine.version, p)
  | .stop => some ((), p.map Engine.stop)
  | .remember text => some ((), p.map (·.remember text))
  | .register h => some ((), { p.map (·.register h) with lastHooks := some h })
  | .unregister => some ((), p.map Engine.unregister)
  | .close => some ((), p.map Engine.close)
  | .debugger => some ((!p.foreign && p.engine.isStopped, !p.foreign), p)
  | .wish w => some ((), if p.foreign then p else p.map (·.note w))
  | .release => some ((), p.map ({ · with released := true }))
  | .holdNextProbe => some ((), p.map ({ · with holdNextProbe := true }))
  | .setScript text s => some ((), p.map (·.setScript text s))
  | .history => some (p.engine.history, p)

end Endpoint

/-! ## Frames -/

inductive FrameOp where
  | current
  /-- The frames on the stack, the current one first. -/
  | live
  | push (kind : FrameKind) (remote : Bool)
  /-- Take a frame and those above it off the stack; gives them, the current one first. -/
  | remove (id : Nat)
  | dispose (id : Nat)
  | closeGate (id : Nat)
  | look (id ticket : Nat) (caller : Gate.Caller)
  | release (id : Nat)
  | ask (id ticket : Nat) (request : Request)
  | lookMail (id ticket : Nat)
  | attach (id : Nat)
  | take (id : Nat)
  | answer (id ticket : Nat) (answer : Mailbox.Answer Response)
  | tryExit (id : Nat) (action : ResumeAction)
  | hasExited (id : Nat)
  | hasServer (id : Nat)
  /-- Whether the flow that asks serves the frame. -/
  | isServer (id : Nat)
  | awaitExit (id : Nat)
  | awaitFinish (id : Nat)

/-- What a step on the frames replies. -/
@[reducible] def FrameOp.Reply : FrameOp → Type
  | .current => FrameRef
  | .live => List FrameRef
  | .push .. => FrameRef
  | .remove _ => List Nat
  | .look .. => Gate.Answer
  | .ask .. => Option (Mailbox.Answer Response)
  | .lookMail .. => Option (Mailbox.Answer Response)
  | .take _ => Mailbox.Next Request
  | .tryExit .. => Bool
  | .hasExited _ => Bool
  | .hasServer _ => Bool
  | .isServer _ => Bool
  | .awaitExit _ => ResumeAction
  | _ => Unit

namespace FrameStack

/-- A step of a flow on the frames. -/
def perform (s : FrameStack) (flow : Nat) (isCancelled : Option Token → Bool) (cancelFirst : Bool) :
    (op : FrameOp) → Option (op.Reply × FrameStack)
  | .current => some (s.ref s.currentId, s)
  | .live => some (s.live.map s.ref, s)
  | .push kind remote =>
    let (id, s) := s.push kind remote
    some (s.ref id, s)
  | .remove id => some (s.remove id)
  | .dispose id => some ((), s.modifyMailbox id Mailbox.dispose)
  | .closeGate id => some ((), s.modifyGate id Gate.close)
  | .look id ticket caller =>
    match s.get? id with
    | none => some (.exited, s)
    | some f =>
      if f.gate.mayLook ticket then
        let (answer, g) := f.gate.look ticket caller (isCancelled caller.token) cancelFirst
        some (answer, s.modifyGate id fun _ => g)
      else none
  | .release id => some ((), s.modifyGate id Gate.release)
  | .ask id ticket request =>
    match s.mailbox? id with
    | none => some (some .refused, s)
    | some m =>
      let (answer, m) := m.ask ticket request
      some (answer, s.modifyMailbox id fun _ => m)
  | .lookMail id ticket =>
    match s.mailbox? id with
    | none => some (some .refused, s)
    | some m =>
      if m.mayLook ticket then
        let (answer, m) := m.look ticket
        some (answer, s.modifyMailbox id fun _ => m)
      else none
  | .attach id => some ((), s.modifyMailbox id (·.attach flow))
  | .take id =>
    match s.mailbox? id with
    | none => some (.exit .continue, s)
    | some m => m.take?.map fun (next, m) => (next, s.modifyMailbox id fun _ => m)
  | .answer id ticket a => some ((), s.modifyMailbox id (·.answer ticket a))
  | .tryExit id action =>
    match s.mailbox? id with
    | none => some (false, s)
    | some m =>
      let (won, m) := m.tryExit action
      some (won, s.modifyMailbox id fun _ => m)
  | .hasExited id => some (((s.mailbox? id).bind (·.exit)).isSome, s)
  | .hasServer id => some (((s.mailbox? id).bind (·.server)).isSome, s)
  | .isServer id => some (decide ((s.mailbox? id).bind (·.server) = some flow), s)
  | .awaitExit id =>
    match s.mailbox? id with
    | none => some (.continue, s)
    | some m => m.exit.map fun a => (a, s)
  | .awaitFinish id =>
    match s.mailbox? id with
    | none => some ((), s)
    | some m => if m.finished then some ((), s) else none

end FrameStack

/-! ## Sessions -/

inductive SessionOp where
  | current
  | bottom
  | adjustments (probed : Identity) (stopped : Bool)
  /-- Push a session; gives the one that was current. -/
  | push (s : Session)
  /-- Push the session that a change of context creates. -/
  | derive (origin : Origin) (location : Location) (probed : Identity)
  /-- Pop the current session; gives it and the one that is current now. -/
  | pop
  | freshId
  /-- Begin with this session. -/
  | found (s : Session)

/-- What a step on the sessions replies. -/
@[reducible] def SessionOp.Reply : SessionOp → Type
  | .current => Session
  | .bottom => Session
  | .adjustments .. => List Adjustment
  | .push _ => Session
  | .derive .. => Session
  | .pop => Option (Session × Session)
  | .freshId => SessionId
  | .found _ => Unit

/-! ## Idle tasks -/

inductive IdleOp where
  | isActive
  | isInvoking
  /-- Say whether the read loop is active; tasks that are discarded break their promises. -/
  | setActive (active : Bool)
  /-- Schedule work; gives the promise that it keeps, unless it is refused. -/
  | schedule (work : IdleWork)
  | take
  | setInvoking (invoking : Bool)

/-- What a step on the idle queue replies. -/
@[reducible] def IdleOp.Reply : IdleOp → Type
  | .isActive => Bool
  | .isInvoking => Bool
  | .schedule _ => Option Nat
  | .take => Option IdleTask
  | _ => Unit

/-! ## The host -/

inductive HostOp where
  | call (c : HostCall)
  | startLoop
  | stopLoop
  | beginRead (reader : Nat)
  | poll (reader : Nat)
  | endRead (reader : Nat)
  | setPrompt (prompt : String)
  | isEnded

/-- What a step on the host replies. -/
@[reducible] def HostOp.Reply : HostOp → Type
  | .poll _ => ReadEvent
  | .isEnded => Bool
  | _ => Unit

def Host.perform (h : Host) : (op : HostOp) → Option (op.Reply × Host)
  | .call c => some ((), h.note c)
  | .startLoop => some ((), h.startLoop)
  | .stopLoop => some ((), h.stopLoop)
  | .beginRead reader => some ((), h.beginRead reader)
  | .poll reader => h.poll? reader
  | .endRead reader => some ((), h.endRead reader)
  | .setPrompt p => some ((), { h with prompt := some p })
  | .isEnded => some (h.ended && h.lines.isEmpty, h)

/-! ## The broker itself -/

/-- Steps on what is the broker's own. -/
inductive BrokerOp where
  | settings
  | phase
  /-- Go to a phase if that is allowed. -/
  | setPhase (target : Phase)
  /-- Begin to abort: gives the phase before, and whether a debugger stop is to be aborted; nothing
  if there is nothing to abort. -/
  | beginAbort (debug : Bool)
  /-- A command ends: gives the phase before. -/
  | endCommand
  | clearAbortReport
  | notify (n : Notice)
  | stopEvent
  | setStopEvent (e : Option StopEvent)
  | isAttached
  | setAttached (attached : Bool)
  /-- Take a place among those who resume the debugger. -/
  | queueResume (ticket : Nat)
  | awaitResume (ticket : Nat)
  | leaveResume (ticket : Nat)
  | availabilityChanged
  | availabilityChanges
  /-- Wait until the availability has changed since a count. -/
  | awaitAvailability (since : Nat)
  /-- Hold on to the broker, if anybody still does. -/
  | upgrade
  | hold
  | letGo
  | ticket
  | promise
  | keep (promise : Nat) (payload : Payload)
  | awaitPromise (promise : Nat)
  /-- Put down an action that gives a value. -/
  | offer (value : Json.Value)
  /-- Take an action, unless somebody has. -/
  | takeAction (action : Nat)
  | report (name : String) (r : Report)
  | trace (entry : TraceEntry)
  | nextPlan
  | addPlans (plans : List StopPlan)
  /-- Wait until one held request may go on. -/
  | awaitUnhold
  | listen
  /-- Wait for the notices after a position, or for the end of a client's request. -/
  | awaitNews (position : Nat) (request : String)

/-- What there is to hear for one who waits for the end of a request. -/
structure News where
  /-- How many notices were missed. -/
  lost : Nat
  notices : List Notice
  /-- What the request came to, if it has ended. -/
  report : Option Report

/-- What a step on the broker's own state replies. -/
@[reducible] def BrokerOp.Reply : BrokerOp → Type
  | .settings => BrokerSettings
  | .phase => Phase
  | .setPhase _ => Bool
  | .beginAbort _ => Option (Phase × Bool)
  | .endCommand => Phase
  | .clearAbortReport => Bool
  | .stopEvent => Option StopEvent
  | .isAttached => Bool
  | .availabilityChanges => Nat
  | .upgrade => Bool
  | .ticket => Nat
  | .promise => Nat
  | .offer _ => Nat
  | .takeAction _ => Option Json.Value
  | .awaitAvailability _ => Nat
  | .awaitPromise _ => Option Payload
  | .nextPlan => Option StopPlan
  | .listen => Nat
  | .awaitNews .. => News
  | _ => Unit

/-! ## All together -/

/-- A step on the shared state. -/
inductive Action where
  | engine (name : EngineName) (op : EngineOp)
  | frames (op : FrameOp)
  | sessions (op : SessionOp)
  | idle (op : IdleOp)
  | host (op : HostOp)
  | broker (op : BrokerOp)

@[reducible] def Action.Reply : Action → Type
  | .engine _ op => op.Reply
  | .frames op => op.Reply
  | .sessions op => op.Reply
  | .idle op => op.Reply
  | .host op => op.Reply
  | .broker op => op.Reply

namespace World

/-- A step on an engine, and the note of a command that is run through it. -/
def performEngine (w : World) (name : EngineName) (op : EngineOp) : Option (op.Reply × World) :=
  match w.endpoint? name with
  | none => none
  | some p => (p.perform op).map fun (reply, p) =>
    let w := w.modifyEndpoint name fun _ => p
    match op with
    | .arrive command merge nested =>
      (reply, { w with engineCalls := ⟨name, command, nested, merge⟩ :: w.engineCalls })
    | _ => (reply, w)

def performSessions (w : World) : (op : SessionOp) → Option (op.Reply × World)
  | .current => some (w.sessions.current, w)
  | .bottom => some (w.sessions.bottom, w)
  | .adjustments probed stopped => some (w.sessions.adjustments probed stopped, w)
  | .push s => some (w.sessions.current, { w with sessions := w.sessions.push s })
  | .derive origin location probed =>
    some (w.sessions.derive ⟨w.nextSession⟩ origin location probed,
      { w with nextSession := w.nextSession + 1 })
  | .pop =>
    match w.sessions.pop? with
    | none => some (none, w)
    | some (s, t) => some (some (s, t.current), { w with sessions := t })
  | .freshId => some (⟨w.nextSession⟩, { w with nextSession := w.nextSession + 1 })
  | .found s => some ((), { w with sessions := .ofBottom s })

def performIdle (w : World) : (op : IdleOp) → Option (op.Reply × World)
  | .isActive => some (w.idle.active, w)
  | .isInvoking => some (w.idle.invoking, w)
  | .setActive active =>
    let (gone, q) := w.idle.setActive active
    some ((), gone.foldl (fun w t => w.setPromise t.promise .broken) { w with idle := q })
  | .schedule work =>
    let promise := w.promises.length
    let (accepted, q) := w.idle.schedule ⟨promise, work⟩
    if accepted then some (some promise, { w with idle := q, promises := w.promises ++ [.open] })
    else some (none, w)
  | .take =>
    let (task, q) := w.idle.take
    some (task, { w with idle := q })
  | .setInvoking invoking => some ((), { w with idle := w.idle.setInvoking invoking })

/-- The phase and the flag after the beginning of an abort. -/
def beginAbort (w : World) (debug : Bool) : Option (Phase × Bool) × World :=
  if w.phase.ignoresAbort || w.phase = .notStarted then (none, w)
  else
    let debugger := debug && w.frames.containsDebug
    (some (w.phase, debugger),
      { w with
        phase := .aborting
        abortReported := w.abortReported || w.phase = .running || debugger })

/-- A step on the broker's own state. -/
def performBroker (w : World) : (op : BrokerOp) → Option (op.Reply × World)
  | .settings => some (w.settings, w)
  | .phase => some (w.phase, w)
  | .setPhase target =>
    some (w.phase = target || w.phase.canBecome target, { w with phase := w.phase.toward target })
  | .beginAbort debug => some (w.beginAbort debug)
  | .endCommand => some (w.phase, { w with phase := w.phase.toward .ready })
  | .clearAbortReport => some (w.abortReported, { w with abortReported := false })
  | .notify n => some ((), { w with channel := w.channel.send n })
  | .stopEvent => some (w.stopEvent, w)
  | .setStopEvent e => some ((), { w with stopEvent := e })
  | .isAttached => some (w.attached, w)
  | .setAttached a => some ((), { w with attached := a })
  | .queueResume ticket => some ((), { w with resumers := w.resumers ++ [ticket] })
  | .awaitResume ticket => if w.resumers.head? = some ticket then some ((), w) else none
  | .leaveResume ticket => some ((), { w with resumers := w.resumers.filter (· ≠ ticket) })
  | .availabilityChanged =>
    some ((), { w with availabilityChanges := w.availabilityChanges + 1 })
  | .availabilityChanges => some (w.availabilityChanges, w)
  | .awaitAvailability since =>
    if since < w.availabilityChanges then some (w.availabilityChanges, w) else none
  | .upgrade =>
    if w.holders = 0 then some (false, w) else some (true, { w with holders := w.holders + 1 })
  | .hold => some ((), { w with holders := w.holders + 1 })
  | .letGo => some ((), { w with holders := w.holders - 1 })
  | .ticket => some (w.nextTicket, { w with nextTicket := w.nextTicket + 1 })
  | .promise => some (w.promises.length, { w with promises := w.promises ++ [.open] })
  | .keep promise payload => some ((), w.setPromise promise (.kept payload))
  | .awaitPromise promise =>
    match w.promises[promise]? with
    | some (.kept payload) => some (some payload, w)
    | some .broken => some (none, w)
    | some .open => none
    | none => some (none, w)
  | .offer value => some (w.actions.length, { w with actions := w.actions ++ [some value] })
  | .takeAction action =>
    some ((w.actions[action]?).join, { w with actions := w.actions.set action none })
  | .report name r => some ((), { w with reports := (name, r) :: w.reports })
  | .trace entry => some ((), { w with trace := entry :: w.trace })
  | .nextPlan =>
    match w.plans with
    | [] => some (none, w)
    | p :: rest => some (some p, { w with plans := rest })
  | .addPlans plans => some ((), { w with plans := w.plans ++ plans })
  | .awaitUnhold =>
    if w.unholds = 0 then none else some ((), { w with unholds := w.unholds - 1 })
  | .listen => some (w.channel.position, w)
  | .awaitNews position request =>
    let report := (w.reports.find? (·.1 = request)).map (·.2)
    if position < w.channel.position || report.isSome then
      let (lost, notices) := w.channel.receive position
      some (⟨lost, notices, report⟩, w)
    else none

/-- A step of a flow on the shared state; `none` if it has to wait. -/
def perform (flow : Nat) (cancelFirst : Bool) :
    (action : Action) → World → Option (action.Reply × World)
  | .engine name op, w => w.performEngine name op
  | .frames op, w =>
    (w.frames.perform flow w.isCancelled cancelFirst op).map fun (r, s) =>
      (r, { w with frames := s })
  | .sessions op, w => w.performSessions op
  | .idle op, w => w.performIdle op
  | .host op, w => (w.host.perform op).map fun (r, h) => (r, { w with host := h })
  | .broker op, w => w.performBroker op

end World

end SessionBroker
