/-!
# Kinds of frames
-/

namespace SessionBroker

/-- A context in which the interpreter can stand. -/
inductive FrameKind where
  | topLevel
  | nestedPrompt
  | debug
  deriving DecidableEq, Repr

def FrameKind.name : FrameKind → String
  | .topLevel => "TopLevel"
  | .nestedPrompt => "NestedPrompt"
  | .debug => "Debug"

end SessionBroker
