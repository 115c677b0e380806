import SessionBroker.Session.Session

/-!
# The stack of sessions

The bottom session is the host's own and stays. `adjustments` works out which pops and pushes bring
the stack in line with who is answering now.
-/

namespace SessionBroker

/-- A stack of sessions, the current one first; `bottom` is never popped. -/
structure SessionStack where
  /-- The sessions above the bottom one, the current one first. -/
  above : List Session
  bottom : Session
  deriving DecidableEq, Repr

inductive Adjustment where
  | pop
  | push (origin : Origin) (location : Location)
  deriving DecidableEq, Repr

namespace SessionStack

/-- A stack with nothing but its bottom session. -/
def ofBottom (s : Session) : SessionStack := ⟨[], s⟩

def current (t : SessionStack) : Session := t.above.headD t.bottom

/-- The sessions from the current one down. -/
def toList (t : SessionStack) : List Session := t.above ++ [t.bottom]

def depth (t : SessionStack) : Nat := t.above.length + 1

def push (t : SessionStack) (s : Session) : SessionStack := { t with above := s :: t.above }

/-- Takes the current session off, unless it is the bottom one. -/
def pop? (t : SessionStack) : Option (Session × SessionStack) :=
  match t.above with
  | [] => none
  | s :: rest => some (s, { t with above := rest })

/-- Whether a session came about by a change of context that no longer holds. -/
def isStale (probed : Identity) (s : Session) : Bool :=
  s.origin ≠ .host && !s.identity.isSame probed

/-- The push, if any, that makes a stack with `top` current match the probed identity. -/
def missing (t : SessionStack) (top : Session) (probed : Identity) (stopped : Bool) :
    List Adjustment :=
  if top.identity.isSame probed then []
  else if probed.process ≠ top.identity.process && top.identity.sameMachine probed then
    [.push .enteredProcess top.location]
  else if stopped then
    [.push .debugged (if t.bottom.identity.sameMachine probed then .near else .remote)]
  else []

/-- The changes that bring the stack in line with the probed identity: stale sessions go first,
then at most one session comes. -/
def adjustments (t : SessionStack) (probed : Identity) (stopped : Bool) : List Adjustment :=
  let stale := t.above.takeWhile (isStale probed)
  let top := (t.above.drop stale.length).headD t.bottom
  List.replicate stale.length .pop ++ t.missing top probed stopped

/-- The session that a push creates: the current session's engine under the probed identity. -/
def derive (t : SessionStack) (id : SessionId) (origin : Origin) (location : Location)
    (probed : Identity) : Session :=
  ⟨id, location, origin, t.current.version, t.current.connection, probed, t.current.engine, false⟩

@[simp] theorem current_ofBottom (s : Session) : (ofBottom s).current = s := rfl

@[simp] theorem current_push (t : SessionStack) (s : Session) : (t.push s).current = s := rfl

@[simp] theorem depth_push (t : SessionStack) (s : Session) : (t.push s).depth = t.depth + 1 := rfl

@[simp] theorem pop?_push (t : SessionStack) (s : Session) : (t.push s).pop? = some (s, t) := rfl

/-- To pop a session is to take a push back. -/
theorem pop?_eq_some {t u : SessionStack} {s : Session} : t.pop? = some (s, u) ↔ t = u.push s := by
  obtain ⟨above, bottom⟩ := t
  obtain ⟨above', bottom'⟩ := u
  cases above with
  | nil => simp [pop?, push]
  | cons first rest =>
    simp only [pop?, push, Option.some.injEq, Prod.mk.injEq, mk.injEq, List.cons.injEq, and_assoc]

@[simp] theorem toList_push (t : SessionStack) (s : Session) :
    (t.push s).toList = s :: t.toList := rfl

end SessionStack

end SessionBroker
