import SessionBroker.Scenario.IdleScenario

/-!
# Scenarios of a stack of frames

Steps on a stack of frames: leases are taken and given back, requests are put to mailboxes, and
threads serve them. After each step the serving threads run first; then the oldest of those who
wait looks again, and so on until all of them wait.
-/

namespace SessionBroker.Scenario

/-- A step on a stack of frames. -/
inductive FrameStep where
  | push (kind : FrameKind) (remote : Bool)
  | pop
  | popFrame (id : Nat)
  | lease (name : String) (frame : Nat) (readsLine : Bool)
  | awaitLease (name : String) (frame : Nat) (readsLine : Bool) (token : Option Token)
  | release (name : String)
  /-- Forget those who wait under a name. -/
  | dropPending (name : String)
  | cancel (token : Token)
  | exit (frame : Nat) (action : ResumeAction)
  | dispose (frame : Nat)
  | awaitExit (name : String) (frame : Nat)
  | awaitFinish (name : String) (frame : Nat)
  | awaitCurrent (name : String) (trigger : Option ResumeAction)
  | request (name : String) (frame : Nat) (text : String) (readsLine : Bool)
  /-- Start a thread that serves a frame. -/
  | runLoop (frame : Nat) (pop : Bool)
  /-- Let one request go that a thread holds. -/
  | unhold
  | setAvailability (a : Availability)

/-- A lease that the scenario holds. -/
structure HeldLease where
  name : String
  frame : Nat
  readsLine : Bool

def HeldLease.inspect (l : HeldLease) : String :=
  "RunspaceHandle \x7b frame: " ++ toString l.frame ++ ", is_read_line: "
    ++ (if l.readsLine then "true" else "false") ++ ", .. \x7d"

/-- What a step answers at once. -/
inductive FrameReply where
  | nothing
  | noFrame
  | noMailbox
  | wouldBlock
  | truth (b : Bool)
  | popped (id : Option Nat)
  | pushed (frame : FrameRef) (inspected : String)
  | leased (r : Except Failure HeldLease)

inductive WaitEnd where
  | leased (r : Except Failure HeldLease)
  | report (r : Report)

/-- What becomes of a wait that ended with a report; one for a lease may give it. -/
def WaitEnd.ofReport (wanted : Option HeldLease) : Report → WaitEnd
  | .lease (.ok _) => match wanted with
    | some l => .leased (.ok l)
    | none => .report (.lease (.ok ()))
  | .lease (.error f) => .leased (.error f)
  | r => .report r

/-- What is seen of a mailbox. -/
structure MailboxView where
  frame : Nat
  exit : Option ResumeAction
  finished : Bool
  served : Bool

/-- What is seen after a step on a stack of frames. -/
structure FrameObservation where
  reply : FrameReply
  ready : List (String × WaitEnd)
  pending : List String
  log : List TraceEntry
  frames : FrameStack
  leased : List Nat
  leases : List (HeldLease × Bool)
  mailboxes : List MailboxView

/-- One who waits, perhaps for a lease. -/
structure FrameWaiter where
  name : String
  flow : Nat
  lease : Option HeldLease

structure FrameStage where
  config : BrokerConfig
  waiters : List FrameWaiter
  /-- The leases held, in increasing order of their names. -/
  leases : List HeldLease
  /-- The waits that ended in the step under way, in the order in which they ended. -/
  ready : List (String × WaitEnd)

namespace FrameStage

/-- The one engine of a scenario. -/
def engine : EngineName := ""

/-- Puts the flow that was started last in front of all others. -/
def promote (c : BrokerConfig) : BrokerConfig :=
  { c with flows := c.flows.drop (c.flows.length - 1) ++ c.flows.take (c.flows.length - 1) }

def giveBack (frame : Nat) (w : World) : World :=
  { w with frames := w.frames.modifyGate frame Gate.release }

def onFrames (s : FrameStage) (f : FrameStack → FrameStack) : FrameStage :=
  { s with config := touch (fun w => { w with frames := f w.frames }) s.config }

/-- Keeps a lease; one that was held under the same name is given back. -/
def keep (s : FrameStage) (l : HeldLease) : FrameStage :=
  let old := s.leases.filter (·.name = l.name)
  let others := s.leases.filter (·.name ≠ l.name)
  { s with
    config := old.foldl (fun c o => touch (giveBack o.frame) c) s.config
    leases := others.filter (·.name < l.name) ++ [l] ++ others.filter fun o => !(o.name < l.name) }

/-- What a step on a known frame does, or that there is no such frame. -/
def known (s : FrameStage) (frame : Nat) (f : Frame → FrameReply × FrameStage) :
    FrameReply × FrameStage :=
  match s.config.shared.frames.get? frame with
  | none => (.noFrame, s)
  | some fr => f fr

/-- What a step on a frame's mailbox does, or that there is none. -/
def mailed (s : FrameStage) (frame : Nat)
    (f : Mailbox Request Response → FrameReply × FrameStage) : FrameReply × FrameStage :=
  s.known frame fun fr =>
    match fr.mailbox with
    | none => (.noMailbox, s)
    | some m => f m

def await (s : FrameStage) (name : String) (lease : Option HeldLease) (request : ClientRequest) :
    FrameReply × FrameStage :=
  let flow := s.config.next
  (.nothing, { s with
    config := s.config.spawn brokerMachine (.serveClient (toString flow) request)
    waiters := s.waiters ++ [⟨name, flow, lease⟩] })

def takeLease (s : FrameStage) (l : HeldLease) (f : Frame) : FrameReply × FrameStage :=
  if s.config.shared.frames.live.contains l.frame && f.gate.held then (.wouldBlock, s)
  else
    let w := s.config.shared
    let (answer, gate) := f.gate.look w.nextTicket .thread false false
    let s := { s with config := { s.config with shared := { w with
      nextTicket := w.nextTicket + 1
      frames := w.frames.modifyGate l.frame fun _ => gate } } }
    match answer with
    | .granted => (.leased (.ok l), s.keep l)
    | _ => (.leased (.error .frameExited), s)

/-- Forgets a flow that waits, at its gate or mailbox too. -/
def forget (c : BrokerConfig) (flow : Nat) : BrokerConfig :=
  let place := (c.find? flow).bind fun f => f.procs.head?
  touch (fun w => match place with
    | some (.awaitLease frame ticket _) =>
      { w with frames := w.frames.modifyGate frame (·.drop ticket) }
    | some (.awaitAnswer frame ticket) =>
      { w with frames := w.frames.modifyMailbox frame (·.drop ticket) }
    | _ => w) (c.remove flow)

def act (s : FrameStage) : FrameStep → FrameReply × FrameStage
  | .push kind remote =>
    let (id, frames) := s.config.shared.frames.push kind remote
    (.pushed (frames.ref id) (((frames.get? id).map Frame.inspect).getD ""),
      s.onFrames fun _ => frames)
  | .pop =>
    let (id, frames) := s.config.shared.frames.pop
    (.popped id, s.onFrames fun _ => frames)
  | .popFrame id =>
    let (popped, frames) := s.config.shared.frames.popFrame id
    (.truth popped, s.onFrames fun _ => frames)
  | .lease name frame readsLine => s.known frame (s.takeLease ⟨name, frame, readsLine⟩)
  | .awaitLease name frame readsLine token =>
    s.known frame fun _ => s.await name (some ⟨name, frame, readsLine⟩) (.lease frame token)
  | .release name =>
    let held := s.leases.filter (·.name = name)
    (.truth !held.isEmpty, { s with
      config := held.foldl (fun c l => touch (giveBack l.frame) c) s.config
      leases := s.leases.filter (·.name ≠ name) })
  | .dropPending name =>
    let gone := s.waiters.filter (·.name = name)
    (.truth !gone.isEmpty, { s with
      config := gone.foldl (fun c t => forget c t.flow) s.config
      waiters := s.waiters.filter (·.name ≠ name) })
  | .cancel token => (.nothing, { s with config := touch (·.cancel token) s.config })
  | .exit frame action => s.mailed frame fun m =>
    let (won, m) := m.tryExit action
    (.truth won, s.onFrames (·.modifyMailbox frame fun _ => m))
  | .dispose frame => s.mailed frame fun _ =>
    (.nothing, s.onFrames (·.modifyMailbox frame Mailbox.dispose))
  | .awaitExit name frame => s.mailed frame fun _ => s.await name none (.awaitExit frame)
  | .awaitFinish name frame => s.mailed frame fun _ => s.await name none (.awaitFinish frame)
  | .awaitCurrent name trigger => s.await name none (.awaitCurrentExit trigger)
  | .request name frame text readsLine => s.mailed frame fun _ =>
    s.await name none (.request frame (.named text)
      { RequestOptions.standard with readsLine := readsLine })
  | .runLoop frame pop => s.mailed frame fun _ =>
    (.nothing,
      { s with config := promote (s.config.spawn brokerMachine (.rehearsedLoop frame pop)) })
  | .unhold =>
    (.nothing, { s with config := touch (fun w => { w with unholds := w.unholds + 1 }) s.config })
  | .setAvailability a =>
    let f (w : World) : World := w.modifyEngine engine fun e => { e with availability := a }
    (.nothing, { s with config := touch f s.config })

/-- Notes a wait that ended; a lease that it gave is kept. -/
def finish (s : FrameStage) (t : FrameWaiter) (r : Report) : FrameStage :=
  let e := WaitEnd.ofReport t.lease r
  let s := { s with
    waiters := s.waiters.filter (·.flow ≠ t.flow)
    ready := s.ready ++ [(t.name, e)] }
  match e with
  | .leased (.ok l) => s.keep l
  | _ => s

def collect (s : FrameStage) : FrameStage :=
  s.waiters.foldl (fun s t => match reportOf? s.config.shared t.flow with
    | some r => s.finish t r
    | none => s) s

/-- Lets all flows run, each as far as it gets. What a wait gave is noted before any other flow goes
on, so that a lease given back in its stead can be had by those who wait. -/
def settle (s : FrameStage) : Nat → FrameStage
  | 0 => s
  | rounds + 1 =>
    match brokerMachine.advanceFirst plenty s.config s.config.flows with
    | some c => settle { s with config := c }.collect rounds
    | none => s

/-- Loops end side by side: the notes of it come after all others, by the names of the actions. -/
def endsLast (log : List TraceEntry) : List TraceEntry :=
  let ended : List ResumeAction := log.filterMap fun
    | .loopEnded a => some a
    | _ => none
  let others := log.filter fun
    | .loopEnded _ => false
    | _ => true
  others ++ (ended.mergeSort fun a b => decide (a.name ≤ b.name)).map .loopEnded

/-- What is seen of the mailbox of a frame. -/
def mailboxView? (f : Frame) : Option MailboxView :=
  f.mailbox.map fun m => ⟨f.id, m.exit, m.finished, m.server.isSome⟩

/-- Lets all flows run and observes. -/
def observe (s : FrameStage) (reply : FrameReply) : FrameObservation × FrameStage :=
  let s := { s with ready := [] }.settle plenty
  let w := s.config.shared
  let usable := ((w.endpoint? engine).map (·.engine.availability.isUsable)).getD false
  ({ reply
     ready := s.ready
     pending := s.waiters.map (·.name)
     log := endsLast w.trace.reverse
     frames := w.frames
     leased := (w.frames.frames.filter (·.gate.held)).map (·.id)
     leases := s.leases.map fun l => (l, usable)
     mailboxes := w.frames.frames.filterMap mailboxView? },
    { s with config := touch ({ · with reports := [], trace := [] }) s.config })

def play (s : FrameStage) : List FrameStep → List FrameObservation
  | [] => []
  | step :: rest =>
    let (reply, s) := s.act step
    let (o, s) := s.observe reply
    o :: play s rest

end FrameStage

/-- Takes a stack of frames through a scenario. -/
def performFrames (steps : List FrameStep) : List FrameObservation :=
  let engine := Engine.new ⟨7, 4⟩ ⟨0, "", ""⟩ []
  let w := World.new .standard [(FrameStage.engine, ⟨engine, false, none, none⟩)]
    FrameStage.engine .new
  FrameStage.play ⟨still w, [], [], []⟩ steps

end SessionBroker.Scenario
