/-!
# Phases of a broker

A broker is ready, runs a command, or is aborting one; once disposed it stays so.
-/

namespace SessionBroker

/-- The phase a broker is in. -/
inductive Phase where
  | notStarted
  | ready
  | running
  | aborting
  | disposed
  /-- The engine reported something that fits no other phase. -/
  | unknown
  deriving DecidableEq, Repr

namespace Phase

def all : List Phase := [.notStarted, .ready, .running, .aborting, .disposed, .unknown]

def name : Phase → String
  | .notStarted => "NotStarted"
  | .ready => "Ready"
  | .running => "Running"
  | .aborting => "Aborting"
  | .disposed => "Disposed"
  | .unknown => "Unknown"

/-- Whether a broker may go from one phase to another. Nothing leaves `disposed`, everything else
may reach it, and no phase leads to itself otherwise. -/
def canBecome : Phase → Phase → Bool
  | .disposed, _ => false
  | _, .disposed => true
  | .notStarted, .ready => true
  | .ready, .running => true
  | .running, .ready => true
  | .ready, .aborting => true
  | .running, .aborting => true
  | .aborting, .ready => true
  | .ready, .unknown => true
  | .running, .unknown => true
  | .aborting, .unknown => true
  | .unknown, .ready => true
  | .unknown, .running => true
  | .unknown, .aborting => true
  | _, _ => false

/-- Whether nothing follows. -/
def isFinal : Phase → Bool
  | .disposed => true
  | _ => false

/-- Whether a request to abort has no effect. -/
def ignoresAbort : Phase → Bool
  | .aborting => true
  | .disposed => true
  | _ => false

/-- The phase after an attempt to go to `target`: the attempt has no effect if it is not allowed. -/
def toward (p target : Phase) : Phase := if p.canBecome target then target else p

end Phase

end SessionBroker
