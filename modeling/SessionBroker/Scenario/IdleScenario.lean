import SessionBroker.Scenario.Flows

/-!
# Scenarios of an idle queue

Steps on an idle queue: tasks are scheduled and run, and some have somebody who waits for them.
-/

namespace SessionBroker.Scenario

/-- A step on an idle queue. -/
inductive QueueStep where
  | step (s : IdleStep)
  /-- Have a task run and wait for its value. -/
  | execute (name : String) (value : Json.Value) (inner : List IdleStep)
  /-- Forget those who wait under a name. -/
  | dropPending (name : String)

/-- One who waits for a flow. -/
structure Waiter where
  name : String
  flow : Nat

/-- What is seen after a step on an idle queue. -/
structure QueueObservation where
  reply : Report
  /-- Those whose wait ended, and the value unless the task was discarded. -/
  ready : List (String × Option Json.Value)
  pending : List String
  log : List TraceEntry
  active : Bool
  invoking : Bool
  canRun : Bool

/-- What the flow with a number reported. -/
def reportOf? (w : World) (flow : Nat) : Option Report :=
  (w.reports.find? (·.1 = toString flow)).map (·.2)

/-- Starts a client's flow, which reports under its own number. -/
def launchClient (request : ClientRequest) (c : BrokerConfig) : BrokerConfig :=
  launch (.serveClient (toString c.next) request) c

/-- Takes one step on an idle queue. -/
def actQueue (c : BrokerConfig) (waiters : List Waiter) :
    QueueStep → Report × BrokerConfig × List Waiter
  | .step s =>
    let d := launchClient (.idleStep s) c
    ((reportOf? d.shared c.next).getD .nothing, d, waiters)
  | .execute name value inner =>
    (.nothing, launchClient (.idleExecute name value inner) c, waiters ++ [⟨name, c.next⟩])
  | .dropPending name =>
    let gone := waiters.filter (·.name = name)
    (.truth !gone.isEmpty, gone.foldl (fun c t => c.remove t.flow) c,
      waiters.filter (·.name ≠ name))

/-- Takes steps on an idle queue one after the other. -/
def playQueue : BrokerConfig → List Waiter → List QueueStep → List QueueObservation
  | _, _, [] => []
  | c, waiters, step :: rest =>
    let (reply, c, waiters) := actQueue c waiters step
    let w := c.shared
    let ready := waiters.filterMap fun t =>
      match reportOf? w t.flow with
      | some (.idleValue v) => some (t.name, v)
      | _ => none
    let waiters := waiters.filter fun t => (reportOf? w t.flow).isNone
    let o : QueueObservation :=
      ⟨reply, ready, waiters.map (·.name), w.trace.reverse, w.idle.active, w.idle.invoking,
        w.idle.canRun⟩
    o :: playQueue (touch ({ · with reports := [], trace := [] }) c) waiters rest

/-- Takes an idle queue through a scenario. -/
def performQueue (steps : List QueueStep) : List QueueObservation :=
  playQueue (still (World.new .standard [] "" .new)) [] steps

end SessionBroker.Scenario
