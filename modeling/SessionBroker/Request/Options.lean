/-!
# Request options

How a command is to be run, as opposed to what it is.
-/

namespace SessionBroker

/-- How a command is run and what the host sees of it. -/
structure RequestOptions where
  /-- Write each line of output to the host. -/
  showOutput : Bool
  showErrors : Bool
  /-- Write the command itself to the host first. -/
  showInput : Bool
  /-- Add the command to the session's history. -/
  remember : Bool
  /-- Stop the host's read loop for the command and start it again afterwards. -/
  interrupt : Bool
  /-- The command reads a line for the interactive loop. -/
  readsLine : Bool
  /-- Give errors as part of the output. -/
  mergeErrors : Bool
  deriving DecidableEq, Repr

namespace RequestOptions

/-- Errors are shown, nothing else is asked for. -/
def standard : RequestOptions := ⟨false, true, false, false, false, false, false⟩

/-- For a command that a user typed. -/
def interactive : RequestOptions := ⟨true, true, false, true, false, false, false⟩

/-- For a command nobody watches. -/
def background : RequestOptions := ⟨false, false, false, false, false, false, false⟩

/-- Whether the request cannot run behind a read loop. -/
def demandsForeground (o : RequestOptions) : Bool := o.showOutput || o.interrupt || o.readsLine

end RequestOptions

end SessionBroker
