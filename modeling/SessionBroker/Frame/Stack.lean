import SessionBroker.Frame.Gate
import SessionBroker.Frame.Kind
import SessionBroker.Frame.Mailbox
import SessionBroker.Failure
import SessionBroker.Request.Command
import SessionBroker.Request.Options
import SessionBroker.Request.Outcome

/-!
# The stack of frames

Every context in which the interpreter stands is a frame: the top level at the bottom, then nested
prompts and debugger stops. A frame stays known after it has left the stack, since its holders and
callers still refer to it, but it is torn down then: its mailbox is disposed and its gate closed.
-/

namespace SessionBroker

/-- What is asked of the thread that serves a frame. -/
structure Request where
  /-- The number of the call that makes the request; a request that is made again keeps it. -/
  call : Nat
  command : Command
  options : RequestOptions
  deriving Repr

abbrev Response := Except Failure Outcome

/-- One frame. -/
structure Frame where
  id : Nat
  kind : FrameKind
  /-- The frame works on a session out of the host's process. -/
  remote : Bool
  gate : Gate
  mailbox : Option (Mailbox Request Response)

namespace Frame

def new (id : Nat) (kind : FrameKind) (remote withMailbox : Bool) : Frame :=
  ⟨id, kind, remote, .new, if withMailbox then some .new else none⟩

/-- Disposes the mailbox and closes the gate. -/
def tearDown (f : Frame) : Frame :=
  { f with mailbox := f.mailbox.map Mailbox.dispose, gate := f.gate.close }

def inspect (f : Frame) : String :=
  let truth (b : Bool) : String := if b then "true" else "false"
  "Frame \x7b id: " ++ toString f.id ++ ", kind: " ++ f.kind.name ++ ", remote: " ++ truth f.remote
    ++ ", has_controller: " ++ truth f.mailbox.isSome ++ " \x7d"

end Frame

/-- What a holder of a frame knows without looking at the shared state. -/
structure FrameRef where
  id : Nat
  kind : FrameKind
  remote : Bool
  hasMailbox : Bool
  deriving DecidableEq, Repr

/-- All frames there ever were, by number, and the numbers of those on the stack. -/
structure FrameStack where
  frames : List Frame
  /-- The frames above the bottom one, the current one first. -/
  above : List Nat

namespace FrameStack

/-- A stack with the top-level frame, which has no mailbox. -/
def new : FrameStack := ⟨[Frame.new 0 .topLevel false false], []⟩

def currentId (s : FrameStack) : Nat := s.above.headD 0

/-- The frames on the stack, the current one first. -/
def live (s : FrameStack) : List Nat := s.above ++ [0]

def get? (s : FrameStack) (id : Nat) : Option Frame := s.frames[id]?

def mailbox? (s : FrameStack) (id : Nat) : Option (Mailbox Request Response) :=
  (s.get? id).bind (·.mailbox)

def kind (s : FrameStack) (id : Nat) : FrameKind := ((s.get? id).map (·.kind)).getD .topLevel

/-- What a holder of a frame knows. -/
def ref (s : FrameStack) (id : Nat) : FrameRef :=
  match s.get? id with
  | some f => ⟨f.id, f.kind, f.remote, f.mailbox.isSome⟩
  | none => ⟨id, .topLevel, false, false⟩

def modify (s : FrameStack) (id : Nat) (f : Frame → Frame) : FrameStack :=
  { s with frames := s.frames.modify id f }

def modifyGate (s : FrameStack) (id : Nat) (f : Gate → Gate) : FrameStack :=
  s.modify id fun fr => { fr with gate := f fr.gate }

def modifyMailbox (s : FrameStack) (id : Nat)
    (f : Mailbox Request Response → Mailbox Request Response) : FrameStack :=
  s.modify id fun fr => { fr with mailbox := fr.mailbox.map f }

/-- Pushes a frame. It gets a mailbox unless it is a top-level frame over frames without one. -/
def push (s : FrameStack) (kind : FrameKind) (remote : Bool) : Nat × FrameStack :=
  let id := s.frames.length
  let withMailbox := kind ≠ .topLevel || s.live.any fun i => (s.mailbox? i).isSome
  (id, ⟨s.frames ++ [Frame.new id kind remote withMailbox], id :: s.above⟩)

/-- Takes a frame and those above it off the stack, without tearing them down; gives their
numbers, the current one first. The bottom frame stays. -/
def remove (s : FrameStack) (id : Nat) : List Nat × FrameStack :=
  if s.above.contains id then
    let kept := (s.above.dropWhile (· ≠ id)).drop 1
    (s.above.take (s.above.length - kept.length), { s with above := kept })
  else ([], s)

def tearDown (s : FrameStack) (id : Nat) : FrameStack := s.modify id Frame.tearDown

/-- Takes a frame and those above it off the stack and tears them down, the current one first. -/
def popFrame (s : FrameStack) (id : Nat) : Bool × FrameStack :=
  let (gone, s) := s.remove id
  (!gone.isEmpty, gone.foldl tearDown s)

/-- Takes the current frame off the stack and tears it down. -/
def pop (s : FrameStack) : Option Nat × FrameStack :=
  match s.above with
  | [] => (none, s)
  | id :: _ => (some id, (s.popFrame id).2)

/-- How many frames are on the stack. -/
def depth (s : FrameStack) : Nat := s.above.length + 1

/-- How many nested prompts are on the stack. -/
def nestedPromptLevel (s : FrameStack) : Nat :=
  s.live.countP fun i => s.kind i = .nestedPrompt

/-- Whether some frame is a debugger stop. -/
def containsDebug (s : FrameStack) : Bool := s.live.any fun i => s.kind i = .debug

/-- Whether the current frame is a debugger stop. -/
def isInDebugger (s : FrameStack) : Bool := s.kind s.currentId = .debug

/-- Whether the current frame is a nested prompt. -/
def isInNestedPrompt (s : FrameStack) : Bool := s.kind s.currentId = .nestedPrompt

end FrameStack

end SessionBroker
