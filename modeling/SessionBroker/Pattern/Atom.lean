import SessionBroker.Pattern.Modes

/-!
# Atoms of a pattern

An atom is a character or an escape. Of the characters of all scripts a pattern knows neither the
cases nor the classes, so that an atom which needs them is refused; and where the scripts are
switched off, one that might match a part of a character is refused.
-/

namespace SessionBroker.Pattern

/-- What a character or an escape stands for. -/
inductive Atom where
  /-- A character; `byte` if it was given as a byte, by two digits. -/
  | char (c : Char) (byte : Bool)
  | any
  /-- A digit, a blank or a character of a word, or any character but those. -/
  | kind (negated : Bool)
  /-- A place between characters, perhaps one that the words around it tell. -/
  | place (ofWord : Bool)
  deriving DecidableEq, Repr

namespace Atom

/-- Whether an atom may stand in a sequence. -/
def fits (m : Modes) : Atom → Bool
  | .char c byte => if m.unicode then !m.ignoreCase else !byte || c.toNat < 0x80
  | .any => m.unicode
  | .kind negated => !m.unicode && !negated
  | .place ofWord => !m.unicode || !ofWord

/-- Whether an atom may stand in a set. -/
def fitsSet (m : Modes) : Atom → Bool
  | .char c _ => if m.unicode then !m.ignoreCase else c.toNat < 0x80
  | .kind negated => !m.unicode && !negated
  | .any | .place _ => false

end Atom

namespace Escape

/-- The value of a hexadecimal digit of either case. -/
def hexDigit? (c : Char) : Option Nat :=
  if '0' ≤ c && c ≤ '9' then some (c.toNat - 48)
  else if 'a' ≤ c && c ≤ 'f' then some (c.toNat - 87)
  else if 'A' ≤ c && c ≤ 'F' then some (c.toNat - 55)
  else none

/-- The character whose number some hexadecimal digits give. -/
def charOfHex? (digits : List Char) : Option Char := do
  let values ← digits.mapM hexDigit?
  let n := values.foldl (fun n d => n * 16 + d) 0
  if digits.isEmpty || 0x110000 ≤ n || (0xD800 ≤ n && n < 0xE000) then none
  else some (Char.ofNat n)

/-- The next characters, without what is ignored between them. -/
def next? (m : Modes) : Nat → List Char → Option (List Char × List Char)
  | 0, s => some ([], s)
  | n + 1, s =>
    match m.skip s with
    | [] => none
    | c :: rest => (next? m n rest).map fun (cs, rest) => (c :: cs, rest)

/-- A character by its number: in braces, or of a fixed number of digits. -/
def hex? (m : Modes) (count : Nat) (s : List Char) : Option (Atom × List Char) :=
  match m.skip s with
  | '\x7b' :: rest => do
    let (digits, rest) ← m.braced false rest
    return (.char (← charOfHex? digits) false, rest)
  | s => do
    let (digits, rest) ← next? m count s
    return (.char (← charOfHex? digits) (count = 2), rest)

/-- The names of places in braces. -/
def edges : List String := ["start", "end", "start-half", "end-half"]

/-- A place at the edge of a word; a name in braces may say at which. -/
def edge? (m : Modes) : List Char → Option (Atom × List Char)
  | '\x7b' :: rest =>
    match m.skip rest with
    | [] => none
    | c :: _ =>
      if c.isAlpha || c = '-' then do
        let (name, after) ← m.braced false rest
        if String.ofList name ∈ edges then return (.place true, after) else none
      else some (.place true, '\x7b' :: rest)
  | s => some (.place true, s)

/-- Whether an escaped character stands for itself: one of ASCII that is no letter, digit or angle
bracket. -/
def isPlain (c : Char) : Bool :=
  c.toNat < 0x80 && !c.isAlphanum && c ≠ '<' && c ≠ '>'

def read? (m : Modes) : List Char → Option (Atom × List Char)
  | [] => none
  | c :: rest =>
    if isPlain c then some (.char c false, rest)
    else match c with
    | 'x' => hex? m 2 rest
    | 'u' => hex? m 4 rest
    | 'U' => hex? m 8 rest
    | 'd' | 's' | 'w' => some (.kind false, rest)
    | 'D' | 'S' | 'W' => some (.kind true, rest)
    | 'a' => some (.char '\x07' false, rest)
    | 'f' => some (.char '\x0c' false, rest)
    | 't' => some (.char '\t' false, rest)
    | 'n' => some (.char '\n' false, rest)
    | 'r' => some (.char '\r' false, rest)
    | 'v' => some (.char '\x0b' false, rest)
    | 'A' | 'z' => some (.place false, rest)
    | 'b' => edge? m rest
    | 'B' | '<' | '>' => some (.place true, rest)
    | _ => none

end Escape

end SessionBroker.Pattern
