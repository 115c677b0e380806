import SessionBroker.Engine.Event

/-!
# Mailboxes

A mailbox hands requests, one at a time, to the thread that serves a frame. It has one slot. A
caller first waits for its turn, in order of arrival, then for the slot, then for the answer. Once
the exit is set no request is handed over any more; once the mailbox is disposed a request left in
the slot is refused. Callers look again only when marked.
-/

namespace SessionBroker

inductive Mailbox.Answer (α : Type) where
  | served (a : α)
  /-- The frame went away first, or the serving thread let the request go. -/
  | refused
  deriving Repr

/-- How far a caller has come. -/
inductive Mailbox.Stage (α : Type) where
  /-- Waits for its turn or, on its turn, for the slot. -/
  | waiting
  /-- Its request is in the slot. -/
  | posted
  | handedOver
  | answered (answer : Mailbox.Answer α)
  deriving Repr

/-- One who asks for something to be served. -/
structure Mailbox.Caller (ρ α : Type) where
  id : Nat
  request : ρ
  stage : Mailbox.Stage α
  woken : Bool

/-- A mailbox for requests `ρ` with answers `α`. -/
structure Mailbox (ρ α : Type) where
  slot : Option (Nat × ρ)
  exit : Option ResumeAction
  closed : Bool
  /-- The thread that serves the mailbox, once there is one. -/
  server : Option Nat
  /-- The frame has been torn down. -/
  finished : Bool
  /-- The caller whose turn it is to fill the slot. -/
  turn : Option Nat
  /-- The callers who wait for their turn, the first one first. -/
  queue : List Nat
  callers : List (Mailbox.Caller ρ α)

namespace Mailbox

variable {ρ α : Type}

/-- An empty mailbox that nobody serves yet. -/
def new : Mailbox ρ α := ⟨none, none, false, none, false, none, [], []⟩

/-- Whether requests are turned away. -/
def isOver (m : Mailbox ρ α) : Bool := m.exit.isSome || m.closed

def modify (m : Mailbox ρ α) (id : Nat) (f : Caller ρ α → Caller ρ α) : Mailbox ρ α :=
  { m with callers := m.callers.map fun c => if c.id = id then f c else c }

def wake (m : Mailbox ρ α) (id : Nat) : Mailbox ρ α := m.modify id ({ · with woken := true })

/-- Gives the turn to the first of the queue. -/
def passTurn (m : Mailbox ρ α) : Mailbox ρ α :=
  match m.queue with
  | [] => { m with turn := none }
  | next :: rest => ({ m with turn := some next, queue := rest }).wake next

/-- Forgets a caller; a turn it had goes on to the next. A request of it that is in the slot or
handed over stays where it is. -/
def drop (m : Mailbox ρ α) (id : Nat) : Mailbox ρ α :=
  let m := { m with
    callers := m.callers.filter (·.id ≠ id)
    queue := m.queue.filter (· ≠ id) }
  if m.turn = some id then m.passTurn else m

/-- On its turn, a caller fills the slot if that is empty and passes the turn on. -/
def fill (m : Mailbox ρ α) (id : Nat) (request : ρ) : Mailbox ρ α :=
  match m.slot with
  | some _ => m.modify id ({ · with woken := false })
  | none =>
    ({ m with slot := some (id, request) }.modify id
      ({ · with stage := .posted, woken := false })).passTurn

/-- A caller arrives. Turned away, it is not noted down. -/
def ask (m : Mailbox ρ α) (id : Nat) (request : ρ) : Option (Answer α) × Mailbox ρ α :=
  if m.isOver then (some .refused, m)
  else
    let caller : Caller ρ α := ⟨id, request, .waiting, false⟩
    let m := { m with callers := m.callers ++ [caller] }
    if m.turn.isNone then (none, ({ m with turn := some id }).fill id request)
    else (none, { m with queue := m.queue ++ [id] })

def look (m : Mailbox ρ α) (id : Nat) : Option (Answer α) × Mailbox ρ α :=
  match m.callers.find? (·.id = id) with
  | none => (some .refused, m)
  | some c =>
    match c.stage with
    | .answered answer => (some answer, m.drop id)
    | .waiting =>
      if m.isOver then (some .refused, m.drop id)
      else if m.turn = some id then (none, m.fill id c.request)
      else (none, m.modify id ({ · with woken := false }))
    | _ => (none, m.modify id ({ · with woken := false }))

/-- Whether a caller may look: it is not noted down, or it is marked. -/
def mayLook (m : Mailbox ρ α) (id : Nat) : Bool := m.callers.all fun c => c.id ≠ id || c.woken

/-- The request in the slot goes to the serving thread; the caller that has the turn is marked. -/
def handOver (m : Mailbox ρ α) (id : Nat) : Mailbox ρ α :=
  let n := { m with slot := none }.modify id ({ · with stage := .handedOver })
  match m.turn with
  | some caller => n.wake caller
  | none => n

inductive Next (ρ : Type) where
  | exit (action : ResumeAction)
  | request (id : Nat) (request : ρ)

/-- The serving thread takes what is next; the exit comes before a request in the slot. With
neither it has to wait. -/
def take? (m : Mailbox ρ α) : Option (Next ρ × Mailbox ρ α) :=
  match m.exit with
  | some action => some (.exit action, m)
  | none =>
    if m.closed then some (.exit .continue, m)
    else match m.slot with
      | none => none
      | some (id, request) => some (.request id request, m.handOver id)

/-- Gives a caller its answer; nobody may be there to take it. -/
def answer (m : Mailbox ρ α) (id : Nat) (a : Answer α) : Mailbox ρ α :=
  m.modify id ({ · with stage := .answered a, woken := true })

/-- Marks everyone who waits for a turn or for the slot. -/
def wakeWaiting (m : Mailbox ρ α) : Mailbox ρ α :=
  { m with callers := m.callers.map fun c =>
      match c.stage with
      | .waiting => { c with woken := true }
      | _ => c }

/-- Sets the exit, unless it is set already. -/
def tryExit (m : Mailbox ρ α) (action : ResumeAction) : Bool × Mailbox ρ α :=
  if m.isOver then (false, m) else (true, { m with exit := some action }.wakeWaiting)

/-- Tears the mailbox down: the exit is set if it was not, and a request in the slot is refused. -/
def dispose (m : Mailbox ρ α) : Mailbox ρ α :=
  if m.closed then m
  else
    let n := { m with closed := true, exit := some (m.exit.getD .continue), finished := true }
    match m.slot with
    | some (id, _) => ({ n with slot := none }.answer id .refused).wakeWaiting
    | none => n.wakeWaiting

/-- A thread begins to serve the mailbox. -/
def attach (m : Mailbox ρ α) (server : Nat) : Mailbox ρ α := { m with server := some server }

end Mailbox

end SessionBroker
