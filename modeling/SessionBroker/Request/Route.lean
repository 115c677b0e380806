import SessionBroker.Request.Options
import SessionBroker.Frame.Kind

/-!
# Routes

Where a request runs, decided from its options and from what the broker looks like at the moment.
-/

namespace SessionBroker

/-- Where a request runs. -/
inductive Route where
  /-- On a thread of its own, under the frame's lease. -/
  | direct
  /-- On the read loop's thread, while that waits for input. -/
  | idle
  /-- At the prompt of the stopped debugger, under the frame's lease. -/
  | prompt
  /-- On the thread that serves the frame. -/
  | mailbox
  deriving DecidableEq, Repr

/-- What the broker looks like when a request is routed. -/
structure Surroundings where
  kind : FrameKind
  /-- The frame or the session is out of the host's process. -/
  remote : Bool
  debuggerStopped : Bool
  loopActive : Bool
  /-- The read loop runs idle work at the moment. -/
  loopBusy : Bool
  /-- The frame has a mailbox that another thread serves. -/
  servedElsewhere : Bool
  deriving DecidableEq, Repr

namespace Route

/-- Whether the request may run behind the read loop. -/
def allowsIdle (o : RequestOptions) (s : Surroundings) : Bool :=
  s.loopActive && !s.loopBusy && !s.remote && !o.demandsForeground

/-- Whether the request may run at the debugger's prompt. -/
def allowsPrompt (o : RequestOptions) (s : Surroundings) : Bool :=
  s.debuggerStopped && s.kind = .debug && !(o.readsLine && s.remote)

/-- The route of a request: the debugger's prompt first, then the read loop, then the thread that
serves the frame. -/
def choose (o : RequestOptions) (s : Surroundings) : Route :=
  if allowsPrompt o s then .prompt
  else if allowsIdle o s then .idle
  else if s.servedElsewhere then .mailbox
  else .direct

end Route

end SessionBroker
