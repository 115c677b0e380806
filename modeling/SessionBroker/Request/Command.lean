import SessionBroker.Session.Identity

/-!
# Commands

A command is a text for the engine, a script or the name of something to call, and named
parameters.
-/

namespace SessionBroker

/-- What an engine is asked to run. -/
structure Command where
  text : String
  isScript : Bool
  /-- The parameters, in increasing order of their names. -/
  parameters : List (String × Json.Value)
  deriving Repr

namespace Command

/-- The call of something by its name. -/
def named (text : String) : Command := ⟨text, false, []⟩

def script (text : String) : Command := ⟨text, true, []⟩

def probe : Command := script Identity.probeText

/-- Whether the command is the identity probe. -/
def isProbe (c : Command) : Bool := c.isScript && c.text = Identity.probeText

def withParameter (c : Command) (name : String) (value : Json.Value) : Command :=
  { c with parameters := Json.insertMember name value c.parameters }

end Command

end SessionBroker
