import SessionBroker.Broker.Procedure

/-!
# Leases

How a flow waits for the lease of a frame.
-/

namespace SessionBroker.Leases

/-- Takes a frame's lease once it is free; fails if the frame exits or the caller is cancelled
first. -/
def acquire (frame : Nat) (caller : Gate.Caller) : Code (Except Failure Unit) := do
  let ticket : Nat ← Code.broker .ticket
  Code.invoke (.awaitLease frame ticket caller)

/-- Looks at the gate until it does not say to wait. -/
def await (frame ticket : Nat) (caller : Gate.Caller) : Code (Except Failure Unit) := do
  let answer : Gate.Answer ← Code.frames (.look frame ticket caller)
  match answer with
  | .granted => return .ok ()
  | .exited => return .error .frameExited
  | .cancelled => return .error .cancelled
  | .waiting => Code.invoke (.awaitLease frame ticket caller)

def release (frame : Nat) : Code Unit := Code.frames (.release frame)

end SessionBroker.Leases
