import SessionBroker.Text.Blank

/-!
# Modes of a pattern

Letters in a group switch the ways in which a pattern is read on and off, up to the end of the group
around them. Three of the ways decide what is well-formed.
-/

namespace SessionBroker.Pattern

/-- A way in which a pattern is read. -/
inductive Mode where
  | ignoreCase
  | manyLines
  | dotIsAny
  | lazyFirst
  | unicode
  | carriageReturns
  | ignoreBlanks
  deriving DecidableEq, Repr

/-- The mode that a letter stands for. -/
def Mode.ofLetter? : Char → Option Mode
  | 'i' => some .ignoreCase
  | 'm' => some .manyLines
  | 's' => some .dotIsAny
  | 'U' => some .lazyFirst
  | 'u' => some .unicode
  | 'R' => some .carriageReturns
  | 'x' => some .ignoreBlanks
  | _ => none

/-- Modes to be switched on and modes to be switched off. -/
structure Switch where
  on : List Mode
  off : List Mode
  deriving DecidableEq, Repr

namespace Switch

def none : Switch := ⟨[], []⟩

def isNone (s : Switch) : Bool := s.on.isEmpty && s.off.isEmpty

def set (s : Switch) (m : Mode) (before : Bool) : Bool :=
  if m ∈ s.on then true else if m ∈ s.off then false else before

/-- Reads letters up to a colon or a closing parenthesis, which comes back too. Letters behind a
minus sign switch off. No letter stands twice, there is one minus sign at most and it is not the
last character: `minus` says whether there was one, `last` whether it came last. -/
def read? (s : Switch) (minus last : Bool) : List Char → Option (Switch × Char × List Char)
  | [] => .none
  | c :: rest =>
    if c = ':' || c = ')' then if last then .none else some (s, c, rest)
    else if c = '-' then if minus then .none else read? s true true rest
    else
      match Mode.ofLetter? c with
      | .none => .none
      | some m =>
        if m ∈ s.on || m ∈ s.off then .none
        else if minus then read? { s with off := m :: s.off } minus false rest
        else read? { s with on := m :: s.on } minus false rest

end Switch

/-- The modes that decide what is well-formed. -/
structure Modes where
  ignoreCase : Bool
  unicode : Bool
  ignoreBlanks : Bool
  deriving DecidableEq, Repr

namespace Modes

/-- How a pattern is read at first. -/
def standard : Modes := ⟨false, true, false⟩

def apply (m : Modes) (s : Switch) : Modes where
  ignoreCase := s.set .ignoreCase m.ignoreCase
  unicode := s.set .unicode m.unicode
  ignoreBlanks := s.set .ignoreBlanks m.ignoreBlanks

/-- Drops blanks and comments; a comment goes from a number sign to the end of its line. -/
def dropBlanks (comment : Bool) : List Char → List Char
  | [] => []
  | c :: rest =>
    if comment then dropBlanks (c ≠ '\n') rest
    else if Text.isBlank c then dropBlanks false rest
    else if c = '#' then dropBlanks true rest
    else c :: rest

/-- Skips what is ignored at the start. -/
def skip (m : Modes) (s : List Char) : List Char :=
  if m.ignoreBlanks then dropBlanks false s else s

/-- The character to come: where blanks are ignored, the next one but for blanks and for one number
sign among them. -/
def peek? (m : Modes) (s : List Char) : Option Char :=
  if m.ignoreBlanks then
    match s.dropWhile Text.isBlank with
    | '#' :: rest => (rest.dropWhile Text.isBlank).head?
    | rest => rest.head?
  else s.head?

/-- The characters up to a closing brace, less what is ignored, and what follows the brace. -/
def braced (m : Modes) (comment : Bool) : List Char → Option (List Char × List Char)
  | [] => none
  | c :: rest =>
    if comment then braced m (c ≠ '\n') rest
    else if c = '\x7d' then some ([], rest)
    else if m.ignoreBlanks && Text.isBlank c then braced m false rest
    else if m.ignoreBlanks && c = '#' then braced m true rest
    else (braced m false rest).map fun (cs, rest) => (c :: cs, rest)

end Modes

end SessionBroker.Pattern
