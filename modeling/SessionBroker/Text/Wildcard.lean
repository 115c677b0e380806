import SessionBroker.Text.Blank

/-!
# Wildcard escaping

A pattern reads `[`, `]`, `*` and `?` as wildcards and takes the character after an escape mark
literally. `escape` marks every character that would not stand for itself, `unescape` takes the
marks away again, and `Scan` reads a pattern the way its reader does.
-/

namespace SessionBroker.Text.Wildcard

/-- The escape mark, a backtick. -/
def mark : Char := '\x60'

/-- Characters that do not stand for themselves in a pattern, the mark among them. -/
def isSpecial (c : Char) : Bool :=
  c == '[' || c == ']' || c == '*' || c == '?' || c == mark

/-- Whether `c` is to be marked; blanks only when `blanks` asks for it. -/
def needsMark (blanks : Bool) (c : Char) : Bool :=
  isSpecial c || (blanks && isBlank c)

/-- Puts a mark before every character that needs one. -/
def escape (blanks : Bool) : List Char → List Char
  | [] => []
  | c :: rest =>
    if needsMark blanks c then mark :: c :: escape blanks rest else c :: escape blanks rest

/-- Takes each mark away and keeps the character after it; a mark that ends the text stays. -/
def unescape : List Char → List Char
  | [] => []
  | [c] => [c]
  | c :: d :: rest => if c == mark then d :: unescape rest else c :: unescape (d :: rest)

/-- A character of a pattern as its reader meets it. -/
inductive Token where
  | literal (c : Char)
  | plain (c : Char)
  /-- A mark with nothing after it. -/
  | dangling
  deriving DecidableEq, Repr

def scan : List Char → List Token
  | [] => []
  | [c] => if c == mark then [.dangling] else [.plain c]
  | c :: d :: rest => if c == mark then .literal d :: scan rest else .plain c :: scan (d :: rest)

def Token.char : Token → Char
  | .literal c => c
  | .plain c => c
  | .dangling => mark

end SessionBroker.Text.Wildcard
