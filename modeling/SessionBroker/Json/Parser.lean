import SessionBroker.Json.Scan

/-!
# Reading JSON values

A document is one value with blanks around it. Lists and objects may nest 127 deep.
-/

namespace SessionBroker.Json

namespace Scan

/-- What may stand between two items: a comma, or the closing character. A comma must be followed
by an item. -/
def separator (close : Char) (first : Bool) (s : List Char) : Except Fault (Bool × List Char) :=
  match skipSpace s with
  | [] => .error .truncated
  | c :: rest =>
    if c = close then .ok (false, rest)
    else if first then .ok (true, c :: rest)
    else if c = ',' then
      match skipSpace rest with
      | [] => .error .truncated
      | d :: rest => if d = close then .error .malformed else .ok (true, d :: rest)
    else .error .malformed

/-- Reads the name of a member and its colon. -/
def name (s : List Char) : Except Fault (String × List Char) :=
  match skipSpace s with
  | '"' :: s => do
    let (n, s) ← string s
    match skipSpace s with
    | ':' :: s => return (n, s)
    | [] => throw .truncated
    | _ => throw .malformed
  | [] => .error .truncated
  | _ => .error .malformed

/-- Reads items up to the closing bracket; `fuel` bounds their number. -/
def items (item : Scan Value) : Nat → Bool → List Value → Scan (List Value)
  | 0, _, _, _ => .error .truncated
  | fuel + 1, first, read, s => do
    let (more, s) ← separator ']' first s
    if !more then return (read.reverse, s)
    let (v, s) ← item s
    items item fuel false (v :: read) s

/-- Reads members up to the closing brace; `fuel` bounds their number. -/
def members (item : Scan Value) : Nat → Bool → List (String × Value) → Scan (List (String × Value))
  | 0, _, _, _ => .error .truncated
  | fuel + 1, first, read, s => do
    let (more, s) ← separator '\x7d' first s
    if !more then return (read, s)
    let (n, s) ← name s
    let (v, s) ← item s
    members item fuel false (insertMember n v read) s

/-- Reads a value whose lists and objects nest less than `depth` deep. -/
def value : Nat → Scan Value
  | 0, _ => .error .malformed
  | depth + 1, s =>
    match skipSpace s with
    | [] => .error .truncated
    | 'n' :: s => do return (.null, (← word ['u', 'l', 'l'] s).2)
    | 't' :: s => do return (.bool true, (← word ['r', 'u', 'e'] s).2)
    | 'f' :: s => do return (.bool false, (← word ['a', 'l', 's', 'e'] s).2)
    | '-' :: s => do
      let (n, s) ← number false s
      return (.number n, s)
    | '"' :: s => do
      let (t, s) ← string s
      return (.string t, s)
    | '[' :: s =>
      if depth = 0 then .error .malformed
      else do
        let (vs, s) ← items (value depth) (s.length + 1) true [] s
        return (.array vs, s)
    | '\x7b' :: s =>
      if depth = 0 then .error .malformed
      else do
        let (ms, s) ← members (value depth) (s.length + 1) true [] s
        return (.object ms, s)
    | c :: s =>
      if Text.Unsigned.isDigit c then do
        let (n, s) ← number true (c :: s)
        return (.number n, s)
      else .error .malformed

/-- Accepts what a scanner reads if only blanks follow. -/
def whole {α : Type} (scan : Scan α) (s : List Char) : Except Fault α := do
  let (a, rest) ← scan s
  match skipSpace rest with
  | [] => return a
  | _ => throw .malformed

end Scan

def Value.parse (s : String) : Except Fault Value := Scan.whole (Scan.value 128) s.toList

end SessionBroker.Json
