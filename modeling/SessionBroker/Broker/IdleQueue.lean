/-!
# Idle queues

Work that waits for a read loop to be idle. Work is accepted only while the loop is active, and
what has not begun is discarded when the loop ends.
-/

namespace SessionBroker

/-- A queue of tasks `τ` for the read loop. -/
structure IdleQueue (τ : Type) where
  /-- A read loop owns the thread. -/
  active : Bool
  /-- The read loop runs a task. -/
  invoking : Bool
  /-- The tasks that wait, the first one first. -/
  tasks : List τ
  deriving Repr

namespace IdleQueue

variable {τ : Type}

def new : IdleQueue τ := ⟨false, false, []⟩

/-- Whether a task accepted now would run on the read loop. -/
def canRun (q : IdleQueue τ) : Bool := q.active && !q.invoking

/-- Says whether the read loop is active; gives the tasks that are discarded because it is not. -/
def setActive (q : IdleQueue τ) (active : Bool) : List τ × IdleQueue τ :=
  if active then ([], { q with active := true })
  else (q.tasks, { q with active := false, tasks := [] })

/-- Accepts a task if a read loop is active. -/
def schedule (q : IdleQueue τ) (task : τ) : Bool × IdleQueue τ :=
  if q.active then (true, { q with tasks := q.tasks ++ [task] }) else (false, q)

def take (q : IdleQueue τ) : Option τ × IdleQueue τ :=
  match q.tasks with
  | [] => (none, q)
  | t :: rest => (some t, { q with tasks := rest })

def setInvoking (q : IdleQueue τ) (invoking : Bool) : IdleQueue τ := { q with invoking := invoking }

end IdleQueue

end SessionBroker
