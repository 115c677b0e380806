import SessionBroker.Engine.Version
import SessionBroker.Broker.Phase

/-!
# Failures

Why a request to an engine or to a broker fails, and the wording of each cause.
-/

namespace SessionBroker

/-- How an engine fails to run a command. -/
inductive EngineFailure where
  /-- The command failed; the session goes on. -/
  | runtime (reason : String)
  | stopped
  | fatal (reason : String)
  deriving DecidableEq, Repr

namespace EngineFailure

def message : EngineFailure → String
  | .runtime reason => s!"runtime error: {reason}"
  | .stopped => "pipeline stopped"
  | .fatal reason => s!"engine failure: {reason}"

end EngineFailure

/-- How a broker fails to serve a request. -/
inductive Failure where
  | unsupportedVersion (found minimum : Version)
  | sessionUnavailable (reason : String)
  | badTransition (source target : Phase)
  | misuse (reason : String)
  | frameExited
  | cancelled
  | disposed
  | engine (failure : EngineFailure)
  | probe (reason : String)
  | worker (reason : String)
  | io (reason : String)
  deriving DecidableEq, Repr

namespace Failure

def message : Failure → String
  | .unsupportedVersion found minimum =>
    "unsupported engine version " ++ found.text ++ ": " ++ minimum.text ++ " or newer is required"
  | .sessionUnavailable reason => s!"session unavailable: {reason}"
  | .badTransition source target =>
    "invalid state transition from " ++ source.name ++ " to " ++ target.name
  | .misuse reason => s!"misuse: {reason}"
  | .frameExited => "frame exited before the request was serviced"
  | .cancelled => "operation cancelled"
  | .disposed => "coordinator disposed"
  | .engine failure => failure.message
  | .probe reason => s!"identity probe failed: {reason}"
  | .worker reason => s!"worker failed: {reason}"
  | .io reason => s!"I/O error: {reason}"

end Failure

/-- Goes from one phase to another, or says that it is not allowed. -/
def Phase.become (p target : Phase) : Except Failure Phase :=
  if p.canBecome target then .ok target else .error (.badTransition p target)

end SessionBroker
