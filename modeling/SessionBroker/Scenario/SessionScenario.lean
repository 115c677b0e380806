import SessionBroker.Session.Stack

/-!
# Scenarios of a stack of sessions
-/

namespace SessionBroker.Scenario

/-- A session as a scenario describes it. -/
structure SessionSetup where
  id : Nat
  location : Location
  origin : Origin
  version : Version
  connection : String
  identity : Identity
  owns : Bool

/-- The session that is described. A remote one owns its engine; a local one has no connection. -/
def SessionSetup.session (s : SessionSetup) : Session :=
  match s.location with
  | .near => { Session.ofHost ⟨s.id⟩ "" s.version s.identity s.owns with origin := s.origin }
  | .remote =>
    { Session.ofRemote ⟨s.id⟩ "" s.version s.identity s.connection with origin := s.origin }

/-- A step on a stack of sessions. -/
inductive SessionStep where
  | push (s : SessionSetup)
  | pop
  | inspect
  /-- Work out the changes that a probe calls for. -/
  | plan (probed : Identity) (stopped : Bool)

inductive SessionReply where
  | session (s : Option Session)
  | text (s : String)
  | plan (changes : List Adjustment)

def actSessions (t : SessionStack) : SessionStep → SessionReply × SessionStack
  | .push s => (.session (some s.session), t.push s.session)
  | .pop =>
    match t.pop? with
    | none => (.session none, t)
    | some (s, t) => (.session (some s), t)
  | .inspect => (.text t.current.inspect, t)
  | .plan probed stopped => (.plan (t.adjustments probed stopped), t)

/-- Takes steps one after the other; gives each answer and the stack after it. -/
def playSessions : SessionStack → List SessionStep → List (SessionReply × SessionStack)
  | _, [] => []
  | t, step :: rest =>
    let (reply, t) := actSessions t step
    (reply, t) :: playSessions t rest

end SessionBroker.Scenario
