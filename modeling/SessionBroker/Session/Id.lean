import SessionBroker.Text.Unsigned

/-!
# Session numbers

Sessions are numbered with 64-bit numbers; the text of number 7 is `session-7`.
-/

namespace SessionBroker

structure SessionId where
  val : Nat
  deriving DecidableEq, Repr

namespace SessionId

/-- What comes before the number. -/
def label : List Char := "session-".toList

def dropFront? : List Char → List Char → Option (List Char)
  | [], s => some s
  | c :: cs, d :: s => if c = d then dropFront? cs s else none
  | _ :: _, [] => none

def parse? (s : String) : Option SessionId := do
  return ⟨← Text.Unsigned.parse? UInt64.size (← dropFront? label s.toList)⟩

def text (i : SessionId) : String := String.ofList (label ++ Text.Unsigned.render i.val)

/-- What is said of a text that is no session number. -/
def invalidText (s : String) : String := s!"invalid session id: '{s}'"

end SessionId

end SessionBroker
