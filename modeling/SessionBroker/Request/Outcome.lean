import SessionBroker.ErrorRecord
import SessionBroker.Json.Writer

/-!
# Outcomes of commands

What a command gave: its output, the errors it reported with their texts, and whether it was
stopped.
-/

namespace SessionBroker

/-- A value as a line of output: a string as it is, nothing for null, else its compact JSON. -/
def renderValue : Json.Value → String
  | .string s => s
  | .null => ""
  | v => v.compress

/-- Adds a text to a buffer of lines: on a line of its own, and not at all if it is empty. -/
def appendLine (buffer text : String) : String :=
  if text.isEmpty then buffer
  else if buffer.isEmpty || buffer.toList.getLast? = some '\n' then buffer ++ text
  else buffer ++ "\n" ++ text

/-- What a command gave. -/
structure Outcome where
  output : List Json.Value
  errors : List ErrorRecord
  errorText : String
  hadErrors : Bool
  aborted : Bool
  deriving Repr

namespace Outcome

def empty : Outcome := ⟨[], [], "", false, false⟩

def ofOutput (output : List Json.Value) : Outcome := { empty with output := output }

/-- The outcome of a command that was stopped. -/
def stopped : Outcome := { empty with aborted := true }

/-- Adds the text of an error; an empty text leaves the outcome as it is. -/
def addErrorText (o : Outcome) (text : String) : Outcome :=
  if text.isEmpty then o
  else { o with errorText := appendLine o.errorText text, hadErrors := true }

def success (o : Outcome) : Bool := !o.hadErrors && !o.aborted

/-- The output as lines. -/
def lines (o : Outcome) : List String := o.output.map renderValue

end Outcome

end SessionBroker
