import SessionBroker.Json.Value

/-!
# Scanning JSON

Reading the leaves of a document from its characters: blanks, words, numbers, strings, and whole
values whose content does not matter. Every scanner gives the characters that follow what it read,
or the fault that it met. A fault says no more than what kind it is: the text breaks the grammar,
it ends too early, or it is well formed and not of the wanted shape.
-/

namespace SessionBroker.Json

/-- What is wrong with a document. -/
inductive Fault where
  /-- The text breaks the grammar. -/
  | malformed
  /-- The text ends before the document does. -/
  | truncated
  /-- A value has the wrong type, is out of range, is missing or is given twice. -/
  | mistyped
  deriving DecidableEq, Repr

/-- A scanner reads a front of the text. -/
abbrev Scan (α : Type) := List Char → Except Fault (α × List Char)

namespace Scan

/-- The four blanks of the grammar. -/
def isSpace (c : Char) : Bool := c == ' ' || c == '\n' || c == '\t' || c == '\r'

def skipSpace (s : List Char) : List Char := s.dropWhile isSpace

/-- Reads the rest of a word; a text that ends inside it is truncated. -/
def word : List Char → Scan Unit
  | [], s => .ok ((), s)
  | _ :: _, [] => .error .truncated
  | w :: ws, c :: s => if c = w then word ws s else .error .malformed

/-- The first of the digits at the front, up to where a 64-bit number would overflow: the number
so far, how many digits it took, and the rest. -/
def digits64 : Nat → Nat → List Char → Nat × Nat × List Char
  | n, taken, [] => (n, taken, [])
  | n, taken, c :: s =>
    if Text.Unsigned.isDigit c && n * 10 + Text.Unsigned.digit c < UInt64.size then
      digits64 (n * 10 + Text.Unsigned.digit c) (taken + 1) s
    else (n, taken, c :: s)

/-- The power of ten as a double, for exponents up to 308. -/
def powerOfTen (n : Nat) : Float := Float.ofScientific 1 false n

/-- Scales a double by a power of ten; the result must be finite. -/
def scale : Nat → Float → Int → Except Fault Float
  | 0, x, _ => .ok x
  | fuel + 1, x, ten =>
    if ten.natAbs ≤ 308 then
      if 0 ≤ ten then
        let y := x * powerOfTen ten.natAbs
        if y.isInf then .error .malformed else .ok y
      else .ok (x / powerOfTen ten.natAbs)
    else if x == 0 then .ok x
    else if 0 ≤ ten then .error .malformed
    else scale fuel (x / powerOfTen 308) (ten + 308)

/-- The double for a significand and an exponent of ten: one rounding for the significand and one
for the scaling. -/
def double (positive : Bool) (significand : Nat) (ten : Int) : Except Fault Number := do
  let x ← scale 4 significand.toUInt64.toFloat ten
  return .double (if positive then x else -x).toBits

def skipDigits (s : List Char) : List Char := s.dropWhile Text.Unsigned.isDigit

/-- The digits of an exponent, up to where a 32-bit number would overflow. -/
def digits31 : Nat → List Char → Nat × List Char
  | n, [] => (n, [])
  | n, c :: s =>
    if Text.Unsigned.isDigit c && n * 10 + Text.Unsigned.digit c < Nat.pow 2 31 then
      digits31 (n * 10 + Text.Unsigned.digit c) s
    else (n, c :: s)

/-- Reads an exponent after its letter. -/
def exponent (positive : Bool) (significand : Nat) (ten : Int) (s : List Char) :
    Except Fault (Number × List Char) :=
  let (up, s) := match s with
    | '+' :: rest => (true, rest)
    | '-' :: rest => (false, rest)
    | _ => (true, s)
  match s with
  | [] => .error .truncated
  | c :: _ =>
    if !Text.Unsigned.isDigit c then .error .malformed
    else
      let (n, rest) := digits31 0 s
      match rest with
      | d :: _ =>
        if Text.Unsigned.isDigit d then
          if significand ≠ 0 && up then .error .malformed
          else .ok (.double (if positive then (0 : Float) else -0).toBits, skipDigits rest)
        else do return (← double positive significand (if up then ten + n else ten - n), rest)
      | [] => do return (← double positive significand (if up then ten + n else ten - n), rest)

/-- Reads what may follow the digits of a number that is no integer any more. -/
def afterDigits (positive : Bool) (significand : Nat) (ten : Int) (s : List Char) :
    Except Fault (Number × List Char) :=
  match s with
  | 'e' :: rest => exponent positive significand ten rest
  | 'E' :: rest => exponent positive significand ten rest
  | _ => do return (← double positive significand ten, s)

/-- Reads the digits after a point; at least one must follow. -/
def fraction (positive : Bool) (significand : Nat) (ten : Int) (s : List Char) :
    Except Fault (Number × List Char) :=
  let (n, taken, rest) := digits64 significand 0 s
  match rest with
  | c :: _ =>
    if Text.Unsigned.isDigit c then afterDigits positive n (ten - taken) (skipDigits rest)
    else if taken = 0 then .error .malformed
    else afterDigits positive n (ten - taken) rest
  | [] => if taken = 0 then .error .truncated else afterDigits positive n (ten - taken) rest

/-- Reads a number after its sign. -/
def number (positive : Bool) (s : List Char) : Except Fault (Number × List Char) :=
  match s with
  | [] => .error .truncated
  | c :: after =>
    if !Text.Unsigned.isDigit c then .error .malformed
    else
      let (n, _, rest) := if c = '0' then (0, 1, after) else digits64 0 0 s
      match rest with
      | '.' :: more => fraction positive n 0 more
      | 'e' :: more => exponent positive n 0 more
      | 'E' :: more => exponent positive n 0 more
      | d :: _ =>
        if Text.Unsigned.isDigit d then
          if c = '0' then .error .malformed
          else
            let more := skipDigits rest
            let ten : Int := rest.length - more.length
            match more with
            | '.' :: more => fraction positive n ten more
            | _ => afterDigits positive n ten more
        else .ok (whole n, rest)
      | [] => .ok (whole n, rest)
where
  /-- An integer; a negative one out of range, or minus zero, is a double. -/
  whole (n : Nat) : Number :=
    if positive then .natural n
    else if n = 0 || Nat.pow 2 63 < n then .double (-n.toUInt64.toFloat).toBits
    else .negative n

def hexValue? (c : Char) : Option Nat :=
  if '0' ≤ c && c ≤ '9' then some (c.toNat - 48)
  else if 'a' ≤ c && c ≤ 'f' then some (c.toNat - 87)
  else if 'A' ≤ c && c ≤ 'F' then some (c.toNat - 55)
  else none

/-- Reads four hexadecimal digits; with fewer than four bytes left the text is truncated. -/
def hex4 (s : List Char) : Except Fault (Nat × List Char) :=
  if (s.take 4).foldl (fun n c => n + c.utf8Size) 0 < 4 then .error .truncated
  else match (s.take 4).mapM hexValue? with
    | some [a, b, c, d] => .ok (((a * 16 + b) * 16 + c) * 16 + d, s.drop 4)
    | _ => .error .malformed

/-- Reads the rest of an escape `\u`; a high surrogate needs a low one in an escape of its own. -/
def unicode (s : List Char) : Except Fault (Char × List Char) := do
  let (n, s) ← hex4 s
  if 0xDC00 ≤ n && n ≤ 0xDFFF then throw .malformed
  if n < 0xD800 || 0xDBFF < n then return (Char.ofNat n, s)
  match s with
  | [] => throw .truncated
  | '\\' :: [] => throw .truncated
  | '\\' :: 'u' :: s =>
    let (m, s) ← hex4 s
    if m < 0xDC00 || 0xDFFF < m then throw .malformed
    return (Char.ofNat (0x10000 + (n - 0xD800) * 0x400 + (m - 0xDC00)), s)
  | _ => throw .malformed

def simpleEscape? (c : Char) : Option Char :=
  if c = '"' || c = '\\' || c = '/' then some c
  else if c = 'b' then some (Char.ofNat 8)
  else if c = 'f' then some (Char.ofNat 12)
  else if c = 'n' then some '\n'
  else if c = 'r' then some '\r'
  else if c = 't' then some '\t'
  else none

/-- Reads an escape after its backslash. -/
def escape : Scan Char
  | [] => .error .truncated
  | c :: s =>
    if c = 'u' then unicode s
    else match simpleEscape? c with
      | some d => .ok (d, s)
      | none => .error .malformed

/-- Reads a string after its opening quote; `fuel` bounds the number of characters. -/
def stringBody : Nat → List Char → Scan (List Char)
  | 0, _, _ => .error .truncated
  | _ + 1, _, [] => .error .truncated
  | fuel + 1, read, c :: s =>
    if c = '"' then .ok (read.reverse, s)
    else if c = '\\' then
      match escape s with
      | .ok (d, s) => stringBody fuel (d :: read) s
      | .error e => .error e
    else if c.toNat < 0x20 then .error .malformed
    else stringBody fuel (c :: read) s

/-- Reads a string after its opening quote. -/
def string (s : List Char) : Except Fault (String × List Char) := do
  let (chars, rest) ← stringBody (s.length + 1) [] s
  return (String.ofList chars, rest)

/-- Passes over a string after its opening quote. Surrogates need not pair up. -/
def skipString : Nat → Scan Unit
  | 0, _ => .error .truncated
  | _ + 1, [] => .error .truncated
  | fuel + 1, c :: s =>
    if c = '"' then .ok ((), s)
    else if c = '\\' then
      match s with
      | [] => .error .truncated
      | 'u' :: s =>
        match hex4 s with
        | .ok (_, s) => skipString fuel s
        | .error e => .error e
      | d :: s => if (simpleEscape? d).isSome then skipString fuel s else .error .malformed
    else if c.toNat < 0x20 then .error .malformed
    else skipString fuel s

/-- Passes over an exponent after its letter. -/
def skipExponent (s : List Char) : Except Fault (Unit × List Char) :=
  let s := match s with
    | '+' :: rest => rest
    | '-' :: rest => rest
    | _ => s
  match s with
  | c :: _ => if Text.Unsigned.isDigit c then .ok ((), skipDigits s) else .error .malformed
  | [] => .error .malformed

/-- Passes over a number after its sign. A number that the end of the text cuts off is malformed
here, since nobody asks for its value. -/
def skipNumber (s : List Char) : Except Fault (Unit × List Char) :=
  match s with
  | [] => .error .malformed
  | c :: after =>
    if !Text.Unsigned.isDigit c then .error .malformed
    else
      let rest := if c = '0' then after else skipDigits s
      match rest with
      | '.' :: more =>
        if (more.head?.map Text.Unsigned.isDigit).getD false then
          match skipDigits more with
          | 'e' :: more => skipExponent more
          | 'E' :: more => skipExponent more
          | more => .ok ((), more)
        else .error .malformed
      | 'e' :: more => skipExponent more
      | 'E' :: more => skipExponent more
      | d :: _ => if c = '0' && Text.Unsigned.isDigit d then .error .malformed else .ok ((), rest)
      | [] => .ok ((), rest)

/-- What encloses the place that a passing scan has reached. -/
inductive Enclosure where
  | list
  | members
  deriving DecidableEq, Repr

/-- Passes over the name of a member and its colon. -/
def skipName (s : List Char) : Except Fault (Unit × List Char) :=
  match skipSpace s with
  | '"' :: s => do
    let (_, s) ← skipString (s.length + 1) s
    match skipSpace s with
    | ':' :: s => return ((), s)
    | [] => throw .truncated
    | _ => throw .malformed
  | [] => .error .truncated
  | _ => .error .malformed

/-- Where a passing scan stands: before a value, or after one. -/
inductive Place where
  | beforeValue
  | afterValue

/-- Passes over one value of any depth. -/
def skipFrom : Nat → Place → List Enclosure → Scan Unit
  | 0, _, _, _ => .error .truncated
  | fuel + 1, .beforeValue, open_, s =>
    let leaf (r : Except Fault (Unit × List Char)) : Except Fault (Unit × List Char) := do
      let (_, s) ← r
      skipFrom fuel .afterValue open_ s
    match skipSpace s with
    | [] => .error .truncated
    | 'n' :: s => leaf (word ['u', 'l', 'l'] s)
    | 't' :: s => leaf (word ['r', 'u', 'e'] s)
    | 'f' :: s => leaf (word ['a', 'l', 's', 'e'] s)
    | '-' :: s => leaf (skipNumber s)
    | '"' :: s => leaf (skipString (s.length + 1) s)
    | '[' :: s =>
      match skipSpace s with
      | [] => .error .truncated
      | ']' :: s => skipFrom fuel .afterValue open_ s
      | s => skipFrom fuel .beforeValue (.list :: open_) s
    | '\x7b' :: s =>
      match skipSpace s with
      | [] => .error .truncated
      | '\x7d' :: s => skipFrom fuel .afterValue open_ s
      | s => do
        let (_, s) ← skipName s
        skipFrom fuel .beforeValue (.members :: open_) s
    | c :: s => if Text.Unsigned.isDigit c then leaf (skipNumber (c :: s)) else .error .malformed
  | fuel + 1, .afterValue, open_, s =>
    match open_ with
    | [] => .ok ((), s)
    | .list :: outer =>
      match skipSpace s with
      | [] => .error .truncated
      | ',' :: s => skipFrom fuel .beforeValue open_ s
      | ']' :: s => skipFrom fuel .afterValue outer s
      | _ => .error .malformed
    | .members :: outer =>
      match skipSpace s with
      | [] => .error .truncated
      | ',' :: s => do
        let (_, s) ← skipName s
        skipFrom fuel .beforeValue open_ s
      | '\x7d' :: s => skipFrom fuel .afterValue outer s
      | _ => .error .malformed

def skipValue (s : List Char) : Except Fault (Unit × List Char) :=
  skipFrom (2 * s.length + 2) .beforeValue [] s

end Scan

end SessionBroker.Json
