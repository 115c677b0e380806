/-!
# Hosts

The host shows what the broker writes and reads lines for its interactive loop. Several reads may be
in progress; the newest one gets what comes in.
-/

namespace SessionBroker

/-- How the host shows a text. -/
inductive TextKind where
  | normal
  | error
  deriving DecidableEq, Repr

/-- What a host did, seen from outside. -/
inductive HostCall where
  | write (kind : TextKind) (text : String) (newline : Bool)
  /-- The read loop was told to start. -/
  | startLoop
  /-- The read loop was told to stop. -/
  | stopLoop
  /-- A waiting read ran this many idle tasks. -/
  | pumped (count : Nat)
  deriving DecidableEq, Repr

structure Host where
  /-- What it did, the last call first. -/
  calls : List HostCall
  /-- The reads in progress, the newest one first. -/
  readers : List Nat
  /-- Lines that nobody has read yet. -/
  lines : List String
  /-- How many times a read is still to run the idle tasks. -/
  pumps : Nat
  /-- A read was asked to stop. -/
  stopAsked : Bool
  /-- No further line will come. -/
  ended : Bool
  /-- What a read shows before it waits. -/
  prompt : Option String
  deriving Repr

inductive ReadEvent where
  | stopped
  | pump
  | line (text : String)
  | ended
  deriving DecidableEq, Repr

namespace Host

def new : Host := ⟨[], [], [], 0, false, false, none⟩

def note (h : Host) (c : HostCall) : Host := { h with calls := c :: h.calls }

def beginRead (h : Host) (reader : Nat) : Host :=
  let h := { h with readers := reader :: h.readers }
  match h.prompt with
  | some p => { h.note (.write .normal p false) with stopAsked := false }
  | none => h

def endRead (h : Host) (reader : Nat) : Host :=
  { h with readers := h.readers.filter (· ≠ reader) }

/-- Tells the read loop to start. A host that shows prompts forgets a request to stop then. -/
def startLoop (h : Host) : Host :=
  { h.note .startLoop with stopAsked := h.stopAsked && h.prompt.isNone }

/-- Asks the read loop to stop; remembered only while a read is in progress. -/
def stopLoop (h : Host) : Host :=
  { h.note .stopLoop with stopAsked := h.stopAsked || !h.readers.isEmpty }

/-- What a read finds: a request to stop comes before idle tasks, those before a line, and a line
before the end. Only the newest read finds anything. -/
def poll? (h : Host) (reader : Nat) : Option (ReadEvent × Host) :=
  if h.readers.head? ≠ some reader then none
  else if h.stopAsked then some (.stopped, { h with stopAsked := false })
  else if 0 < h.pumps then some (.pump, { h with pumps := h.pumps - 1 })
  else match h.lines with
    | line :: rest => some (.line line, { h with lines := rest })
    | [] => if h.ended then some (.ended, h) else none

/-- Asks for idle tasks to be run; refused while no read is in progress. -/
def askPump (h : Host) : Bool × Host :=
  if h.readers.isEmpty then (false, h) else (true, { h with pumps := h.pumps + 1 })

end Host

end SessionBroker
