import SessionBroker.Proofs.Shell.Leading
import SessionBroker.Shell.Program

/-!
# Scenes

While the shell runs a line, two flows are at work: the one that reads lines and the one that runs the line
as a command. A scene is what both of them see of the shared state. What only the reader changes stands on
its desk, what only the runner changes is kept backstage, and some counts nobody looks at; so whatever one of
them does in a scene, the other one's things do not matter to it.
-/

namespace SessionBroker.Shell

/-- The frame of a stop of the debugger, as far as it changes. -/
structure Stop where
  held : Bool
  exit : Option ResumeAction
  onStack : Bool
  /-- The mailbox has been disposed. -/
  torn : Bool

/-- What the reader and the runner both see. -/
structure Scene where
  /-- What the host did, the last call first. -/
  calls : List HostCall
  lines : List String
  readers : List Nat
  /-- A read loop is active. -/
  reading : Bool
  history : List String
  /-- How many stops of the debugger are being serviced. -/
  depth : Nat
  phase : Phase
  /-- How many stops were left. -/
  past : Nat
  /-- The lease of the top level is out. -/
  held : Bool
  stop : Option Stop
  sent : List Notice
  event : Option StopEvent
  holders : Nat
  tickets : Nat
  reports : List (String × Report)

/-- What the reader alone changes. -/
structure Desk where
  prompt : String
  resumers : List Nat

/-- What the runner alone changes: the frames of stops that were left, and who serves the current one. -/
structure Backstage where
  left : List Frame
  server : Option Nat

/-- What nobody looks at. -/
structure Counts where
  calls : List EngineCall
  active : Nat
  tally : Tally

def identity : Identity := ⟨1, "loopback-0", "localhost"⟩

def session : Session := .ofHost ⟨0⟩ engineName ⟨7, 4⟩ identity true

/-- The top level as its holders know it. -/
def top : FrameRef := ⟨0, .topLevel, false, false⟩

/-- The frame of a stop as its holders know it. -/
def stopRef (past : Nat) : FrameRef := ⟨past + 1, .debug, false, true⟩

namespace Stop

/-- The frame of a stop that has just begun. -/
def fresh : Stop := ⟨false, none, true, false⟩

def mailbox (s : Stop) (server : Option Nat) : Mailbox Request Response :=
  ⟨none, s.exit, s.torn, server, s.torn, none, [], []⟩

def frame (s : Stop) (id : Nat) (server : Option Nat) : Frame :=
  ⟨id, .debug, false, ⟨s.held, false, []⟩, some (s.mailbox server)⟩

end Stop

namespace Scene

def endpoint (x : Scene) (j : Counts) : Endpoint :=
  ⟨{ demoEngine with
      hooks := some .broker
      history := x.history
      active := j.active
      stoppedDepth := x.depth
      tally := j.tally },
    false, none, some .broker⟩

def frames (x : Scene) (b : Backstage) : FrameStack where
  frames := ⟨0, .topLevel, false, ⟨x.held, false, []⟩, none⟩ ::
    (b.left ++ (x.stop.map fun s => s.frame (x.past + 1) b.server).toList)
  above := if x.stop.any (·.onStack) then [x.past + 1] else []

def world (x : Scene) (d : Desk) (b : Backstage) (j : Counts) : World where
  settings := .standard
  endpoints := [(engineName, x.endpoint j)]
  engineCalls := j.calls
  phase := x.phase
  frames := x.frames b
  sessions := .ofBottom session
  nextSession := 1
  idle := ⟨x.reading, false, []⟩
  channel := ⟨256, x.sent⟩
  host := ⟨x.calls, x.readers, x.lines, 0, false, true, some d.prompt⟩
  resumers := d.resumers
  stopEvent := x.event
  attached := true
  abortReported := false
  availabilityChanges := 0
  holders := x.holders
  cancelled := []
  promises := []
  actions := []
  nextTicket := x.tickets
  reports := x.reports
  plans := []
  unholds := 0
  trace := []

/-- The frames backstage are those of the stops that were left; all of them are torn down. -/
structure Fits (x : Scene) (b : Backstage) : Prop where
  count : b.left.length = x.past
  torn : ∀ f ∈ b.left, ∀ m, f.mailbox = some m → m.finished

/-- The debugger is stopped and nobody has resumed it yet. -/
def isOpen (x : Scene) : Bool := x.stop.any fun s => s.exit.isNone && !s.torn

/-- Nothing has been reported, and no stop of the debugger announced. -/
structure Quiet (x y : Scene) : Prop where
  reports : y.reports = x.reports
  sent : ∃ new, y.sent = x.sent ++ new ∧ firstStop? new = none

theorem Quiet.of_eq {x y : Scene} (reports : y.reports = x.reports) (sent : y.sent = x.sent) :
    x.Quiet y :=
  ⟨reports, [], by rw [sent, List.append_nil], rfl⟩

/-- An action that either of the two may perform, whatever stands on the desk and is kept backstage. -/
structure Acts (flow : Nat) (action : Action) (x : Scene) (r : action.Reply) (y : Scene) : Prop where
  past : y.past = x.past
  isOpen : y.isOpen = x.isOpen
  quiet : x.Quiet y
  performs : ∀ d b j, x.Fits b → ∃ k, ∀ pick,
    World.perform flow pick action (x.world d b j) = some (r, y.world d b k)

variable {x y : Scene} {flow : Nat} {action : Action} {r : action.Reply}

theorem Acts.plain (past : y.past = x.past) (isOpen : y.isOpen = x.isOpen) (reports : y.reports = x.reports)
    (sent : y.sent = x.sent) (performs : ∀ d b j pick,
      World.perform flow pick action (x.world d b j) = some (r, y.world d b j)) :
    Acts flow action x r y :=
  ⟨past, isOpen, .of_eq reports sent, fun d b j _ => ⟨j, performs d b j⟩⟩

/-! ## The broker's own state -/

theorem acts_settings : Acts flow (.broker .settings) x BrokerSettings.standard x :=
  .plain rfl rfl rfl rfl fun _ _ _ _ => rfl

theorem acts_phase {p : Phase} (h : x.phase = p) : Acts flow (.broker .phase) x p x :=
  .plain rfl rfl rfl rfl fun _ _ _ _ => by subst h; rfl

/-- The broker waits for a command or runs one. -/
def Usable (p : Phase) : Prop := p = .ready ∨ p = .running

theorem acts_setRunning (h : Usable x.phase) :
    Acts flow (.broker (.setPhase .running)) x true { x with phase := .running } := by
  have allowed : (decide (x.phase = .running) || x.phase.canBecome .running) = true := by
    rcases h with h | h <;> rw [h] <;> rfl
  have after : x.phase.toward .running = .running := by
    rcases h with h | h <;> rw [h] <;> rfl
  refine .plain rfl rfl rfl rfl fun d b j _ => ?_
  change some (decide (x.phase = .running) || x.phase.canBecome .running,
    { x.world d b j with phase := x.phase.toward .running }) = _
  rw [allowed, after]
  rfl

theorem acts_endCommand (h : Usable x.phase) :
    Acts flow (.broker .endCommand) x x.phase { x with phase := .ready } := by
  have after : x.phase.toward .ready = .ready := by
    rcases h with h | h <;> rw [h] <;> rfl
  refine .plain rfl rfl rfl rfl fun d b j _ => ?_
  change some (x.phase, { x.world d b j with phase := x.phase.toward .ready }) = _
  rw [after]
  rfl

theorem acts_notify {n : Notice} (h : firstStop? [n] = none) :
    Acts flow (.broker (.notify n)) x () { x with sent := x.sent ++ [n] } :=
  ⟨rfl, rfl, ⟨rfl, [n], rfl, h⟩, fun _ _ j _ => ⟨j, fun _ => rfl⟩⟩

theorem acts_stopEvent : Acts flow (.broker .stopEvent) x x.event x :=
  .plain rfl rfl rfl rfl fun _ _ _ _ => rfl

theorem acts_setStopEvent (e : Option StopEvent) :
    Acts flow (.broker (.setStopEvent e)) x () { x with event := e } :=
  .plain rfl rfl rfl rfl fun _ _ _ _ => rfl

theorem acts_isAttached : Acts flow (.broker .isAttached) x true x :=
  .plain rfl rfl rfl rfl fun _ _ _ _ => rfl

theorem acts_upgrade (h : x.holders ≠ 0) :
    Acts flow (.broker .upgrade) x true { x with holders := x.holders + 1 } :=
  .plain rfl rfl rfl rfl fun _ _ _ _ => if_neg h

theorem acts_hold : Acts flow (.broker .hold) x () { x with holders := x.holders + 1 } :=
  .plain rfl rfl rfl rfl fun _ _ _ _ => rfl

theorem acts_letGo : Acts flow (.broker .letGo) x () { x with holders := x.holders - 1 } :=
  .plain rfl rfl rfl rfl fun _ _ _ _ => rfl

theorem acts_ticket : Acts flow (.broker .ticket) x x.tickets { x with tickets := x.tickets + 1 } :=
  .plain rfl rfl rfl rfl fun _ _ _ _ => rfl

theorem acts_listen : Acts flow (.broker .listen) x x.sent.length x :=
  .plain rfl rfl rfl rfl fun _ _ _ _ => rfl

theorem acts_clearAbortReport : Acts flow (.broker .clearAbortReport) x false x :=
  .plain rfl rfl rfl rfl fun _ _ _ _ => rfl

/-! ## Sessions, idle work and the host -/

theorem acts_session : Acts flow (.sessions .current) x session x :=
  .plain rfl rfl rfl rfl fun _ _ _ _ => rfl

theorem acts_adjustments (stopped : Bool) : Acts flow (.sessions (.adjustments identity stopped)) x [] x := by
  have none : (SessionStack.ofBottom session).adjustments identity stopped = [] := by
    simp [SessionStack.adjustments, SessionStack.ofBottom, SessionStack.missing, session, Session.ofHost,
      Identity.isSame, Identity.sameMachine]
  exact .plain rfl rfl rfl rfl fun _ _ _ _ => by rw [← none]; rfl

theorem acts_isActive {active : Bool} (h : x.reading = active) : Acts flow (.idle .isActive) x active x :=
  .plain rfl rfl rfl rfl fun _ _ _ _ => by subst h; rfl

theorem acts_isInvoking : Acts flow (.idle .isInvoking) x false x :=
  .plain rfl rfl rfl rfl fun _ _ _ _ => rfl

theorem acts_setActive (active : Bool) :
    Acts flow (.idle (.setActive active)) x () { x with reading := active } :=
  .plain rfl rfl rfl rfl fun _ _ _ _ => by cases active <;> rfl

theorem acts_call (c : HostCall) : Acts flow (.host (.call c)) x () { x with calls := c :: x.calls } :=
  .plain rfl rfl rfl rfl fun _ _ _ _ => rfl

theorem acts_line {reader : Nat} {line : String} {rest : List String} (hr : x.readers = [reader])
    (hl : x.lines = line :: rest) :
    Acts flow (.host (.poll reader)) x (.line line) { x with lines := rest } := by
  refine .plain rfl rfl rfl rfl fun _ _ _ _ => ?_
  simp [World.perform, Host.perform, Host.poll?, world, hr, hl]
  exact ⟨rfl, rfl⟩

theorem acts_lineless {reader : Nat} (hr : x.readers = [reader]) (hl : x.lines = []) :
    Acts flow (.host (.poll reader)) x .ended { x with lines := [] } := by
  refine .plain rfl rfl rfl rfl fun _ _ _ _ => ?_
  simp [World.perform, Host.perform, Host.poll?, world, hr, hl]
  exact ⟨rfl, rfl⟩

theorem acts_endRead {reader : Nat} (hr : x.readers = [reader]) :
    Acts flow (.host (.endRead reader)) x () { x with readers := [] } := by
  refine .plain rfl rfl rfl rfl fun _ _ _ _ => ?_
  simp [World.perform, Host.perform, Host.endRead, world, hr]
  exact ⟨rfl, rfl⟩

theorem acts_isEnded : Acts flow (.host .isEnded) x x.lines.isEmpty x :=
  .plain rfl rfl rfl rfl fun _ _ _ _ => rfl

/-! ## The engine -/

/-- The note of a command that comes to the engine. -/
def noted : EngineOp → List EngineCall → List EngineCall
  | .arrive command merge nested, calls => ⟨engineName, command, nested, merge⟩ :: calls
  | _, calls => calls

theorem performEngine_world (d : Desk) (b : Backstage) (j : Counts) (op : EngineOp) :
    (x.world d b j).performEngine engineName op = ((x.endpoint j).perform op).map fun (r, p) =>
      (r, { x.world d b j with endpoints := [(engineName, p)], engineCalls := noted op j.calls }) := by
  have found : (x.world d b j).endpoint? engineName = some (x.endpoint j) := by
    simp [World.endpoint?, world]
  unfold World.performEngine
  rw [found]
  simp only
  congr 1
  funext ⟨r, p⟩
  cases op <;> simp [World.modifyEndpoint, world, noted]

/-- What the engine does is what its endpoint does. -/
theorem acts_engine {op : EngineOp} {r : op.Reply} {history : List String} {depth : Nat}
    (performs : ∀ j, ∃ a t, (x.endpoint j).perform op =
      some (r, endpoint { x with history := history, depth := depth } ⟨noted op j.calls, a, t⟩)) :
    Acts flow (.engine engineName op) x r { x with history := history, depth := depth } := by
  refine ⟨rfl, rfl, .of_eq rfl rfl, fun d b j _ => ?_⟩
  obtain ⟨a, t, hp⟩ := performs j
  refine ⟨⟨noted op j.calls, a, t⟩, fun pick => ?_⟩
  change (x.world d b j).performEngine engineName op = _
  rw [performEngine_world, hp]
  rfl

theorem acts_arrive (c : Command) (merge nested : Bool) :
    Acts flow (.engine engineName (.arrive c merge nested)) x none x :=
  acts_engine fun j => ⟨_, _, by
    change some (if c.isProbe then none else none, x.endpoint j) = _
    rw [ite_self]
    rfl⟩

theorem acts_enter : Acts flow (.engine engineName .enter) x (.ok ()) x :=
  acts_engine fun _ => ⟨_, _, rfl⟩

theorem acts_leave : Acts flow (.engine engineName .leave) x () x :=
  acts_engine fun _ => ⟨_, _, rfl⟩

theorem acts_takeProbeHold : Acts flow (.engine engineName .takeProbeHold) x false x :=
  acts_engine fun _ => ⟨_, _, rfl⟩

theorem acts_identity : Acts flow (.engine engineName .identity) x identity x :=
  acts_engine fun _ => ⟨_, _, rfl⟩

theorem acts_script (text : String) :
    Acts flow (.engine engineName (.script text)) x (demoEngine.script? text) x :=
  acts_engine fun _ => ⟨_, _, rfl⟩

theorem acts_hooks : Acts flow (.engine engineName .hooks) x (some Hooks.broker) x :=
  acts_engine fun _ => ⟨_, _, rfl⟩

theorem acts_enterStop : Acts flow (.engine engineName .enterStop) x () { x with depth := x.depth + 1 } :=
  acts_engine fun _ => ⟨_, _, rfl⟩

theorem acts_leaveStop : Acts flow (.engine engineName .leaveStop) x () { x with depth := x.depth - 1 } :=
  acts_engine fun _ => ⟨_, _, rfl⟩

theorem acts_availability : Acts flow (.engine engineName .availability) x Availability.available x :=
  acts_engine fun _ => ⟨_, _, rfl⟩

theorem acts_remember (text : String) :
    Acts flow (.engine engineName (.remember text)) x () { x with history := x.history ++ [text] } :=
  acts_engine fun _ => ⟨_, _, rfl⟩

theorem acts_debugger {depth : Nat} (h : x.depth = depth) :
    Acts flow (.engine engineName .debugger) x (decide (depth ≠ 0), true) x := by
  subst h
  exact acts_engine fun _ => ⟨_, _, rfl⟩

/-! ## The frames -/

theorem perform_frames {op : FrameOp} {r : op.Reply} {d : Desk} {b : Backstage} {j : Counts} {pick : Bool} {s : FrameStack}
    (h : (x.frames b).perform flow (x.world d b j).isCancelled pick op = some (r, s)) :
    World.perform flow pick (.frames op) (x.world d b j) = some (r, { x.world d b j with frames := s }) := by
  change ((x.frames b).perform flow (x.world d b j).isCancelled pick op).map _ = _
  rw [h]
  rfl

theorem ref_top (b : Backstage) : (x.frames b).ref 0 = top := rfl

variable {s : Stop} {b : Backstage} {n : Nat}

theorem get?_stop (h : x.stop = some s) (fits : x.Fits b) :
    (x.frames b).get? (x.past + 1) = some (s.frame (x.past + 1) b.server) := by
  simp only [FrameStack.get?, frames, h, List.getElem?_cons_succ, ← fits.count]
  simp

theorem mailbox?_stop (h : x.stop = some s) (fits : x.Fits b) :
    (x.frames b).mailbox? (x.past + 1) = some (s.mailbox b.server) := by
  rw [FrameStack.mailbox?, get?_stop h fits]
  rfl

theorem ref_stop (h : x.stop = some s) (fits : x.Fits b) :
    (x.frames b).ref (x.past + 1) = stopRef x.past := by
  rw [FrameStack.ref, get?_stop h fits]
  rfl

theorem modify_length_append {α : Type} (f : α → α) (l : List α) (a : α) :
    (l ++ [a]).modify l.length f = l ++ [f a] := by
  induction l with
  | nil => rfl
  | cons c l ih => simp [ih]

/-- The frame of the stop changes, and no other one. -/
theorem modify_stop {f : Frame → Frame} (h : x.stop = some s) (fits : x.Fits b) (t : Stop)
    (server : Option Nat) (stays : t.onStack = s.onStack)
    (hf : f (s.frame (x.past + 1) b.server) = t.frame (x.past + 1) server) :
    (x.frames b).modify (x.past + 1) f = frames { x with stop := some t } ⟨b.left, server⟩ := by
  rw [← fits.count] at hf
  simp [FrameStack.modify, frames, h, stays, ← fits.count, modify_length_append, hf]

theorem acts_currentTop (h : x.stop = none) : Acts flow (.frames .current) x top x :=
  .plain rfl rfl rfl rfl fun _ b _ _ => perform_frames (by
    have current : (x.frames b).currentId = 0 := by simp [FrameStack.currentId, frames, h]
    rw [FrameStack.perform, current, ref_top])

theorem acts_currentStop (h : x.stop = some s) (on : s.onStack = true) :
    Acts flow (.frames .current) x (stopRef x.past) x := by
  refine ⟨rfl, rfl, .of_eq rfl rfl, fun d b j fits => ⟨j, fun _ => perform_frames ?_⟩⟩
  have current : (x.frames b).currentId = x.past + 1 := by simp [FrameStack.currentId, frames, h, on]
  rw [FrameStack.perform, current, ref_stop h fits]

theorem acts_live (h : x.stop = some s) (on : s.onStack = true) :
    Acts flow (.frames .live) x [stopRef x.past, top] x := by
  refine ⟨rfl, rfl, .of_eq rfl rfl, fun d b j fits => ⟨j, fun _ => perform_frames ?_⟩⟩
  have live : (x.frames b).live = [x.past + 1, 0] := by simp [FrameStack.live, frames, h, on]
  rw [FrameStack.perform, live, List.map_cons, ref_stop h fits]
  rfl

theorem look_free (ticket : Nat) (caller : Gate.Caller) (cancelFirst : Bool) :
    (⟨false, false, []⟩ : Gate).look ticket caller false cancelFirst = (.granted, ⟨true, false, []⟩) := by
  simp [Gate.look, Gate.enroll, Gate.tryTake, Gate.drop]

theorem acts_lookTop {ticket : Nat} {caller : Gate.Caller} (h : x.held = false) (free : caller.token = none) :
    Acts flow (.frames (.look 0 ticket caller)) x .granted { x with held := true } := by
  refine .plain rfl rfl rfl rfl fun d b j pick => perform_frames ?_
  have found : (x.frames b).get? 0 = some ⟨0, .topLevel, false, ⟨x.held, false, []⟩, none⟩ := rfl
  rw [FrameStack.perform, found, free]
  simp only [World.isCancelled, h, look_free]
  rfl

theorem acts_lookStop {ticket : Nat} {caller : Gate.Caller} (h : x.stop = some s) (here : x.past = n) (unheld : s.held = false)
    (free : caller.token = none) :
    Acts flow (.frames (.look (n + 1) ticket caller)) x .granted
      { x with stop := some { s with held := true } } := by
  subst here
  refine ⟨rfl, by simp [isOpen, h], .of_eq rfl rfl, fun d b j fits => ⟨j, fun pick => perform_frames ?_⟩⟩
  rw [FrameStack.perform, get?_stop h fits, free]
  simp only [World.isCancelled, Stop.frame, unheld, look_free, FrameStack.modifyGate]
  rw [modify_stop h fits { s with held := true } b.server rfl rfl]
  rfl

theorem acts_releaseTop (h : x.held = true) :
    Acts flow (.frames (.release 0)) x () { x with held := false } := by
  refine .plain rfl rfl rfl rfl fun d b j pick => perform_frames ?_
  simp [FrameStack.perform, FrameStack.modifyGate, FrameStack.modify, frames, h, Gate.release]
  rfl

theorem acts_releaseStop (h : x.stop = some s) (here : x.past = n) (out : s.held = true) :
    Acts flow (.frames (.release (n + 1))) x () { x with stop := some { s with held := false } } := by
  subst here
  refine ⟨rfl, by simp [isOpen, h], .of_eq rfl rfl, fun d b j fits => ⟨j, fun pick => perform_frames ?_⟩⟩
  rw [FrameStack.perform, FrameStack.modifyGate,
    modify_stop h fits { s with held := false } b.server rfl (by rw [Stop.frame, out]; rfl)]

theorem acts_isServerTop : Acts flow (.frames (.isServer 0)) x false x :=
  .plain rfl rfl rfl rfl fun _ _ _ _ => perform_frames (by
    simp [FrameStack.perform, FrameStack.mailbox?, FrameStack.get?, frames])

theorem acts_hasExitedTop : Acts flow (.frames (.hasExited 0)) x false x :=
  .plain rfl rfl rfl rfl fun _ _ _ _ => perform_frames rfl

theorem acts_hasExitedStop (h : x.stop = some s) (here : x.past = n) (stays : s.exit = none) :
    Acts flow (.frames (.hasExited (n + 1))) x false x := by
  subst here
  refine ⟨rfl, rfl, .of_eq rfl rfl, fun d b j fits => ⟨j, fun pick => perform_frames ?_⟩⟩
  rw [FrameStack.perform, mailbox?_stop h fits]
  simp [Stop.mailbox, stays]

/-- The first one to resume the debugger sets the exit of the stop. -/
theorem performs_tryExit {a : ResumeAction} {d : Desk} {j : Counts} (h : x.stop = some s) (fits : x.Fits b)
    (stays : s.exit = none) (whole : s.torn = false) (pick : Bool) :
    World.perform flow pick (.frames (.tryExit (x.past + 1) a)) (x.world d b j) =
      some (true, Scene.world { x with stop := some { s with exit := some a } } d b j) := by
  refine perform_frames ?_
  have first : (s.mailbox b.server).tryExit a = (true, Stop.mailbox { s with exit := some a } b.server) := by
    rw [Stop.mailbox, Mailbox.tryExit, stays, whole]
    rfl
  rw [FrameStack.perform, mailbox?_stop h fits]
  simp only [first, FrameStack.modifyMailbox]
  rw [modify_stop h fits { s with exit := some a } b.server rfl rfl]

/-- Who waits for a frame to be torn down goes on if its stop was left. -/
theorem acts_awaitFinish {id : Nat} (pos : 0 < id) (le : id ≤ x.past) :
    Acts flow (.frames (.awaitFinish id)) x () x := by
  refine ⟨rfl, rfl, .of_eq rfl rfl, fun d b j fits => ⟨j, fun pick => perform_frames ?_⟩⟩
  obtain ⟨i, rfl⟩ := Nat.exists_eq_add_of_lt pos
  have within : 0 + i < b.left.length := by rw [fits.count]; omega
  have found : (x.frames b).get? (0 + i + 1) = b.left[0 + i]? := by
    simp only [FrameStack.get?, frames, List.getElem?_cons_succ, List.getElem?_append_left within]
  simp only [FrameStack.perform, FrameStack.mailbox?, found]
  rw [List.getElem?_eq_getElem within]
  simp only [Option.bind_some]
  split
  · rfl
  · next m hm => rw [fits.torn _ (List.getElem_mem within) m hm]; rfl

end Scene

/-! ## What the reader does at its desk -/

/-- An action that the reader may perform, whatever is kept backstage. -/
structure Desk.Acts (flow : Nat) (action : Action) (v : Scene × Desk) (r : action.Reply) (w : Scene × Desk) :
    Prop where
  past : w.1.past = v.1.past
  isOpen : w.1.isOpen = v.1.isOpen
  performs : ∀ b j, v.1.Fits b → b.server ≠ some flow → ∃ k, ∀ pick,
    World.perform flow pick action (v.1.world v.2 b j) = some (r, w.1.world w.2 b k)

namespace Desk

variable {x y : Scene} {d : Desk} {flow n : Nat} {action : Action} {r : action.Reply}

/-- What either of the two may do the reader may do. -/
theorem Acts.of_scene (h : Scene.Acts flow action x r y) : Acts flow action (x, d) r (y, d) :=
  ⟨h.past, h.isOpen, fun b j fits _ => h.performs d b j fits⟩

theorem acts_isServer {s : Stop} (h : x.stop = some s) (here : x.past = n) :
    Acts flow (.frames (.isServer (n + 1))) (x, d) false (x, d) := by
  subst here
  refine ⟨rfl, rfl, fun b j fits other => ⟨j, fun pick => Scene.perform_frames ?_⟩⟩
  rw [FrameStack.perform, Scene.mailbox?_stop h fits]
  simp only [Option.bind_some, Stop.mailbox, other, decide_false]

theorem acts_beginRead {reader : Nat} (h : x.readers = []) :
    Acts flow (.host (.beginRead reader)) (x, d) ()
      ({ x with calls := .write .normal d.prompt false :: x.calls, readers := [reader] }, d) := by
  refine ⟨rfl, rfl, fun b j _ _ => ⟨j, fun pick => ?_⟩⟩
  simp [World.perform, Host.perform, Host.beginRead, Host.note, Scene.world, h]
  exact ⟨rfl, rfl⟩

theorem acts_setPrompt (prompt : String) :
    Acts flow (.host (.setPrompt prompt)) (x, d) () (x, { d with prompt := prompt }) :=
  ⟨rfl, rfl, fun _ j _ _ => ⟨j, fun _ => rfl⟩⟩

theorem acts_queueResume (ticket : Nat) :
    Acts flow (.broker (.queueResume ticket)) (x, d) () (x, { d with resumers := d.resumers ++ [ticket] }) :=
  ⟨rfl, rfl, fun _ j _ _ => ⟨j, fun _ => rfl⟩⟩

theorem acts_awaitResume {ticket : Nat} (h : d.resumers.head? = some ticket) :
    Acts flow (.broker (.awaitResume ticket)) (x, d) () (x, d) :=
  ⟨rfl, rfl, fun _ j _ _ => ⟨j, fun _ => if_pos h⟩⟩

theorem acts_leaveResume (ticket : Nat) :
    Acts flow (.broker (.leaveResume ticket)) (x, d) ()
      (x, { d with resumers := d.resumers.filter (· ≠ ticket) }) :=
  ⟨rfl, rfl, fun _ j _ _ => ⟨j, fun _ => rfl⟩⟩

theorem acts_awaitNews {position : Nat} {request : String} {report : Option Report}
    (h : (x.reports.find? (·.1 = request)).map (·.2) = report)
    (news : position < x.sent.length ∨ report.isSome) :
    Acts flow (.broker (.awaitNews position request)) (x, d)
      ⟨max position (x.sent.length - 256) - position, x.sent.drop (max position (x.sent.length - 256)), report⟩
      (x, d) := by
  refine ⟨rfl, rfl, fun b j _ _ => ⟨j, fun _ => ?_⟩⟩
  subst h
  have heard : (decide (position < x.sent.length) ||
      ((x.reports.find? (·.1 = request)).map (·.2)).isSome) = true := by simpa using news
  exact if_pos heard

end Desk

/-! ## What the runner does backstage -/

/-- An action that the runner may perform, whatever stands on the desk; `reader` is the other flow. -/
structure Backstage.Acts (flow reader : Nat) (action : Action) (x : Scene) (r : action.Reply) (y : Scene) :
    Prop where
  quiet : x.Quiet y
  performs : ∀ d b j, x.Fits b → b.server ≠ some reader → ∃ c k, y.Fits c ∧ c.server ≠ some reader ∧
    ∀ pick, World.perform flow pick action (x.world d b j) = some (r, y.world d c k)

namespace Backstage

variable {x y : Scene} {s : Stop} {flow reader n : Nat} {action : Action} {r : action.Reply}

/-- What either of the two may do the runner may do. -/
theorem Acts.of_scene (h : Scene.Acts flow action x r y) : Acts flow reader action x r y := by
  refine ⟨h.quiet, fun d b j fits other => ?_⟩
  obtain ⟨k, hk⟩ := h.performs d b j fits
  exact ⟨b, k, ⟨by rw [fits.count, h.past], fits.torn⟩, other, hk⟩

theorem acts_push (h : x.stop = none) :
    Acts flow reader (.frames (.push .debug false)) x (stopRef x.past)
      { x with stop := some .fresh } := by
  refine ⟨.of_eq rfl rfl, fun d b j fits _ =>
    ⟨⟨b.left, none⟩, j, ⟨fits.count, fits.torn⟩, by simp, fun pick => Scene.perform_frames ?_⟩⟩
  have pushed : (x.frames b).push .debug false =
      (x.past + 1, Scene.frames { x with stop := some .fresh } ⟨b.left, none⟩) := by
    simp [FrameStack.push, Scene.frames, h, fits.count, Stop.fresh, Stop.frame, Stop.mailbox, Frame.new, Gate.new,
      Mailbox.new]
  have ref := Scene.ref_stop (x := { x with stop := some .fresh })
    (b := ⟨b.left, none⟩) rfl ⟨fits.count, fits.torn⟩
  simp only [FrameStack.perform, pushed]
  rw [ref]

theorem acts_attach (h : x.stop = some s) (here : x.past = n) (other : flow ≠ reader) :
    Acts flow reader (.frames (.attach (n + 1))) x () x := by
  subst here
  refine ⟨.of_eq rfl rfl, fun d b j fits _ => ⟨⟨b.left, some flow⟩, j, ⟨fits.count, fits.torn⟩, by simpa using other,
    fun pick => Scene.perform_frames ?_⟩⟩
  rw [FrameStack.perform, FrameStack.modifyMailbox, Scene.modify_stop h fits s (some flow) rfl rfl, ← h]

theorem acts_take {a : ResumeAction} (h : x.stop = some s) (here : x.past = n) (exit : s.exit = some a) :
    Acts flow reader (.frames (.take (n + 1))) x (.exit a) x := by
  subst here
  refine ⟨.of_eq rfl rfl, fun d b j fits other => ⟨b, j, fits, other, fun pick => Scene.perform_frames ?_⟩⟩
  have taken : (s.mailbox b.server).take? = some (.exit a, s.mailbox b.server) := by
    rw [Stop.mailbox, exit]
    rfl
  rw [FrameStack.perform, Scene.mailbox?_stop h fits]
  simp only [taken, Option.map_some, FrameStack.modifyMailbox]
  rw [Scene.modify_stop h fits s b.server rfl rfl, ← h]

theorem acts_remove (h : x.stop = some s) (here : x.past = n) (on : s.onStack = true) :
    Acts flow reader (.frames (.remove (n + 1))) x [n + 1]
      { x with stop := some { s with onStack := false } } := by
  subst here
  refine ⟨.of_eq rfl rfl, fun d b j fits other => ⟨b, j, ⟨fits.count, fits.torn⟩, other,
    fun pick => Scene.perform_frames ?_⟩⟩
  simp [FrameStack.perform, FrameStack.remove, Scene.frames, h, on]
  rfl

theorem acts_dispose {a : ResumeAction} (h : x.stop = some s) (here : x.past = n) (exit : s.exit = some a) (whole : s.torn = false) :
    Acts flow reader (.frames (.dispose (n + 1))) x () { x with stop := some { s with torn := true } } := by
  subst here
  refine ⟨.of_eq rfl rfl, fun d b j fits other => ⟨b, j, ⟨fits.count, fits.torn⟩, other,
    fun pick => Scene.perform_frames ?_⟩⟩
  rw [FrameStack.perform, FrameStack.modifyMailbox, Scene.modify_stop h fits { s with torn := true } b.server rfl ?_]
  rw [Stop.frame, Stop.mailbox, whole, exit]
  rfl

/-- With its gate closed the frame of a stop is one of those that were left. -/
theorem acts_closeGate (h : x.stop = some s) (here : x.past = n) (off : s.onStack = false) (torn : s.torn = true) :
    Acts flow reader (.frames (.closeGate (n + 1))) x () { x with past := n + 1, stop := none } := by
  subst here
  refine ⟨.of_eq rfl rfl, fun d b j fits other =>
    ⟨⟨b.left ++ [{ s.frame (x.past + 1) b.server with gate := ⟨s.held, true, []⟩ }], b.server⟩, j, ⟨?_, ?_⟩, other,
      fun pick => Scene.perform_frames ?_⟩⟩
  · simp [fits.count]
  · intro f hf m hm
    rcases List.mem_append.mp hf with hf | hf
    · exact fits.torn f hf m hm
    · rw [List.mem_singleton.mp hf] at hm
      cases hm
      exact torn
  · have closed : (x.frames b).modifyGate (x.past + 1) Gate.close = Scene.frames { x with past := x.past + 1, stop := none }
        ⟨b.left ++ [{ s.frame (x.past + 1) b.server with gate := ⟨s.held, true, []⟩ }], b.server⟩ := by
      simp [FrameStack.modifyGate, FrameStack.modify, Scene.frames, h, off, ← fits.count, Scene.modify_length_append]
      rfl
    rw [FrameStack.perform, closed]

end Backstage

end SessionBroker.Shell
