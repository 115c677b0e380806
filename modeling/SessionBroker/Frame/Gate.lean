/-!
# Lease gates

A gate hands out one lease at a time. Threads that block and futures that are polled wait for it side
by side. They are marked when something happened that may let them go on, and look again only when
marked; every release and every closing mark both kinds, and a future's own cancellation marks it.
-/

namespace SessionBroker

abbrev Token := String

inductive Gate.Caller where
  /-- A thread, which blocks until it is let in. -/
  | thread
  /-- A future, which is polled; a token may cancel it. -/
  | future (token : Option Token)
  deriving DecidableEq, Repr

/-- The token that may cancel a caller. -/
def Gate.Caller.token : Gate.Caller → Option Token
  | .thread => none
  | .future token => token

/-- One who waits for a lease. -/
structure Gate.Waiter where
  id : Nat
  caller : Gate.Caller
  woken : Bool
  deriving DecidableEq, Repr

/-- The gate of a frame. -/
structure Gate where
  held : Bool
  /-- No lease is given out any more. -/
  closed : Bool
  waiters : List Gate.Waiter
  deriving DecidableEq, Repr

namespace Gate

/-- An open gate with no lease out. -/
def new : Gate := ⟨false, false, []⟩

/-- What one who looks at a gate finds. -/
inductive Answer where
  | granted
  | exited
  | cancelled
  | waiting
  deriving DecidableEq, Repr

def drop (g : Gate) (id : Nat) : Gate := { g with waiters := g.waiters.filter (·.id ≠ id) }

/-- Puts a waiter down, unmarked; one that waits already keeps its place. -/
def enroll (g : Gate) (id : Nat) (caller : Caller) : Gate :=
  if g.waiters.any (·.id = id) then
    { g with waiters := g.waiters.map fun w => if w.id = id then { w with woken := false } else w }
  else { g with waiters := g.waiters ++ [⟨id, caller, false⟩] }

/-- Tries to take the lease: a closed gate refuses, a free one gives its lease, at a held one the
caller has to wait. -/
def tryTake (g : Gate) : Answer × Gate :=
  if g.closed then (.exited, g)
  else if g.held then (.waiting, g)
  else (.granted, { g with held := true })

/-- Looks at the gate. The caller is put down before it tries to take the lease, so that no release
escapes it, and gives up if it would have to wait but is cancelled. A caller that waited already and
finds itself both let in and cancelled may take either; `cancelFirst` says which. -/
def look (g : Gate) (id : Nat) (caller : Caller) (cancelled cancelFirst : Bool) :
    Answer × Gate :=
  if cancelFirst && cancelled && g.waiters.any (·.id = id) then (.cancelled, g.drop id)
  else
    match (g.enroll id caller).tryTake with
    | (.waiting, g) => if cancelled then (.cancelled, g.drop id) else (.waiting, g)
    | (answer, g) => (answer, g.drop id)

/-- Marks the waiters that satisfy a condition. -/
def wake (g : Gate) (p : Waiter → Bool) : Gate :=
  { g with waiters := g.waiters.map fun w => if p w then { w with woken := true } else w }

def wakeThreads (g : Gate) : Gate := g.wake (·.caller = .thread)

def wakeFutures (g : Gate) : Gate := g.wake (·.caller ≠ .thread)

/-- The lease is free again; nobody has been told yet. -/
def unlock (g : Gate) : Gate := { g with held := false }

/-- Takes the lease back; without one out nothing happens. -/
def release (g : Gate) : Gate := if g.held then g.unlock.wakeThreads.wakeFutures else g

/-- The gate is closed; nobody has been told yet. -/
def shut (g : Gate) : Gate := { g with closed := true }

/-- Closes the gate for good. A lease that is out stays out. -/
def close (g : Gate) : Gate := g.shut.wakeThreads.wakeFutures

/-- Marks the waiters of a token that is cancelled. -/
def wakeToken (g : Gate) (token : Token) : Gate := g.wake fun w => w.caller.token = some token

/-- Whether one may look: it does not wait yet, or it is marked. -/
def mayLook (g : Gate) (id : Nat) : Bool := g.waiters.all fun w => w.id ≠ id || w.woken

end Gate

end SessionBroker
