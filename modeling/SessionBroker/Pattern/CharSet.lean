import SessionBroker.Pattern.Atom

/-!
# Sets of characters

A set stands in brackets: characters, ranges, named kinds of ASCII characters and further sets,
perhaps with operators between them. How deep it nests is read along.
-/

namespace SessionBroker.Pattern.CharSet

/-- How deep parts nest that are taken together: a single one adds nothing. -/
def depthOf : List Nat → Nat
  | [] => 0
  | [d] => d
  | ds => ds.foldl max 0 + 1

structure Open where
  negated : Bool
  /-- How deep the members since the last operator nest. -/
  members : List Nat
  /-- How deep that which stands before the last operator nests, if there is one. -/
  left : Option Nat
  deriving DecidableEq, Repr

namespace Open

def add (o : Open) (depth : Nat) : Open := { o with members := depth :: o.members }

/-- How deep all up to here nests. -/
def depth (o : Open) : Nat :=
  match o.left with
  | none => depthOf o.members
  | some l => depthOf [l, depthOf o.members]

def operate (o : Open) : Open := { o with members := [], left := some o.depth }

end Open

/-- The named kinds of ASCII characters. -/
def kinds : List String :=
  ["alnum", "alpha", "ascii", "blank", "cntrl", "digit", "graph", "lower", "print", "punct",
    "space", "upper", "word", "xdigit"]

/-- Reads a named kind behind its opening bracket, `:alpha:]` or `:^alpha:]`. -/
def kind? : List Char → Option (Bool × List Char)
  | ':' :: s =>
    let (negated, s) := match s with
      | '^' :: s => (true, s)
      | s => (false, s)
    match s.dropWhile (· ≠ ':') with
    | ':' :: ']' :: rest =>
      if String.ofList (s.takeWhile (· ≠ ':')) ∈ kinds then some (negated, rest) else none
    | _ => none
  | _ => none

/-- Whether a named kind may stand in a set. -/
def kindFits (m : Modes) (negated : Bool) : Bool :=
  if m.unicode then !m.ignoreCase else !negated

/-- Whether a set may be negated. -/
def negationFits (m : Modes) (nested : Bool) : Bool :=
  m.unicode && !(nested && m.ignoreCase)

/-- Hyphens at the start of a set, each of them a member. -/
def hyphens (m : Modes) : Nat → Open → List Char → Open × List Char
  | 0, o, s => (o, s)
  | fuel + 1, o, s =>
    match m.skip s with
    | '-' :: rest => hyphens m fuel (o.add 0) rest
    | s => (o, s)

/-- Reads the start of a set behind its opening bracket: a sign that negates it, hyphens, or a
closing bracket that is its first member. -/
def start? (m : Modes) (s : List Char) : Option (Open × List Char) :=
  let (negated, s) := match m.skip s with
    | '^' :: s => (true, s)
    | s => (false, s)
  let (o, s) := hyphens m s.length ⟨negated, [], none⟩ s
  let (o, s) := match o.members, s with
    | [], ']' :: rest => (o.add 0, rest)
    | _, s => (o, s)
  if o.members.isEmpty || (Atom.char '-' false).fitsSet m then some (o, s) else none

def atom? (m : Modes) : List Char → Option (Atom × List Char)
  | [] => none
  | '\\' :: rest => Escape.read? m rest
  | c :: rest => some (.char c false, rest)

/-- Reads a single member or a range; the start of a range is not behind its end. -/
def member? (m : Modes) (s : List Char) : Option (List Char) := do
  let (a, s) ← atom? m s
  if !a.fitsSet m then none
  match m.skip s with
  | [] => none
  | '-' :: rest =>
    if m.peek? rest = some ']' || m.peek? rest = some '-' then return '-' :: rest
    let (b, after) ← atom? m (m.skip rest)
    match a, b with
    | .char c _, .char d _ => if b.fitsSet m && c ≤ d then return after else none
    | _, _ => none
  | s => return s

/-- Reads a set from somewhere inside it to its end: how deep it nests, and what follows it. The
sets around the innermost one are `outer`. -/
def read? (m : Modes) : Nat → List Open → Open → List Char → Option (Nat × List Char)
  | 0, _, _, _ => none
  | fuel + 1, outer, o, s =>
    match m.skip s with
    | [] => none
    | '[' :: rest =>
      match kind? rest with
      | some (negated, rest) =>
        if kindFits m negated then read? m fuel outer (o.add 0) rest else none
      | none =>
        match start? m rest with
        | some (inner, rest) => read? m fuel (o :: outer) inner rest
        | none => none
    | ']' :: rest =>
      if o.negated && !negationFits m !outer.isEmpty then none
      else match outer with
      | [] => some (o.depth + 1, rest)
      | around :: outer => read? m fuel outer (around.add (o.depth + 1)) rest
    | '&' :: '&' :: rest => read? m fuel outer o.operate rest
    | '-' :: '-' :: rest => read? m fuel outer o.operate rest
    | '~' :: '~' :: rest => read? m fuel outer o.operate rest
    | s =>
      match member? m s with
      | some rest => read? m fuel outer (o.add 0) rest
      | none => none

end SessionBroker.Pattern.CharSet
