import SessionBroker.Json.Parser

/-!
# Reading records

A record is an object with known members, or a list of their values in order. Members may come in
any order and unknown ones are passed over; a known member given twice is a fault. Faults are found
in reading order, so that a wrong value counts before a later break of the grammar.
-/

namespace SessionBroker.Json

namespace Scan

/-- The fault of a value that is not of the wanted type: its own first, if it is malformed. -/
def wrongType {α : Type} (s : List Char) : Except Fault α :=
  let after (r : Except Fault (Unit × List Char)) : Except Fault α :=
    match r with
    | .error e => .error e
    | .ok _ => .error .mistyped
  match skipSpace s with
  | [] => .error .truncated
  | 'n' :: s => after (word ['u', 'l', 'l'] s)
  | 't' :: s => after (word ['r', 'u', 'e'] s)
  | 'f' :: s => after (word ['a', 'l', 's', 'e'] s)
  | '-' :: s => after ((number false s).map fun (_, r) => ((), r))
  | '"' :: s => after ((string s).map fun (_, r) => ((), r))
  | '[' :: _ => .error .mistyped
  | '\x7b' :: _ => .error .mistyped
  | c :: s =>
    if Text.Unsigned.isDigit c then after ((number true (c :: s)).map fun (_, r) => ((), r))
    else .error .malformed

def text : Scan String := fun s =>
  match skipSpace s with
  | '"' :: rest => string rest
  | _ => wrongType s

def truth : Scan Bool := fun s =>
  match skipSpace s with
  | 't' :: rest => do return (true, (← word ['r', 'u', 'e'] rest).2)
  | 'f' :: rest => do return (false, (← word ['a', 'l', 's', 'e'] rest).2)
  | _ => wrongType s

def natural (bound : Nat) : Scan Nat := fun s =>
  let check (r : Except Fault (Number × List Char)) : Except Fault (Nat × List Char) := do
    match ← r with
    | (.natural n, rest) => if n < bound then return (n, rest) else throw .mistyped
    | _ => throw .mistyped
  match skipSpace s with
  | '-' :: rest => check (number false rest)
  | c :: rest => if Text.Unsigned.isDigit c then check (number true (c :: rest)) else wrongType s
  | [] => .error .truncated

/-- How a record of type `σ` is read. -/
structure Fields (σ : Type) where
  /-- The names of the members, in the order of the list form. -/
  names : List String
  /-- Whether every member must be given. -/
  required : Bool
  /-- Reads the value of the member with the given name into the record. -/
  read : String → σ → Scan σ

/-- Reads values in order up to the closing bracket. -/
def positional {σ : Type} (f : Fields σ) : List String → Bool → σ → Scan σ
  | [], _, r, s =>
    match skipSpace s with
    | [] => .error .truncated
    | ']' :: rest => .ok (r, rest)
    | _ => .error .malformed
  | n :: names, first, r, s => do
    let (more, s) ← separator ']' first s
    if !more then
      if f.required then throw .mistyped else return (r, s)
    let (r, s) ← f.read n r s
    positional f names false r s

/-- Reads the colon after a name. -/
def colon (s : List Char) : Except Fault (Unit × List Char) :=
  match skipSpace s with
  | ':' :: rest => .ok ((), rest)
  | [] => .error .truncated
  | _ => .error .malformed

/-- Reads members up to the closing brace; `seen` holds the known names met so far. -/
def named {σ : Type} (f : Fields σ) : Nat → Bool → List String → σ → Scan σ
  | 0, _, _, _, _ => .error .truncated
  | fuel + 1, first, seen, r, s => do
    let (more, s) ← separator '\x7d' first s
    if !more then
      if f.required && !f.names.all seen.contains then throw .mistyped else return (r, s)
    match s with
    | '"' :: s =>
      let (n, s) ← string s
      if f.names.contains n then
        if seen.contains n then throw .mistyped
        let (_, s) ← colon s
        let (r, s) ← f.read n r s
        named f fuel false (n :: seen) r s
      else
        let (_, s) ← colon s
        let (_, s) ← skipValue s
        named f fuel false seen r s
    | _ => throw .malformed

def record {σ : Type} (f : Fields σ) (initial : σ) : Scan σ := fun s =>
  match skipSpace s with
  | '[' :: rest => positional f f.names true initial rest
  | '\x7b' :: rest => named f (rest.length + 1) true [] initial rest
  | _ => wrongType s

end Scan

end SessionBroker.Json
