import SessionBroker.Pattern.CharSet
import SessionBroker.Text.Alphanumeric
import SessionBroker.Text.Unsigned

/-!
# Reading patterns

A pattern describes texts: atoms and sets one after the other, repeated, in groups, or as
alternatives. `isWellFormed` says whether a text is a pattern; nothing else about it matters here.
-/

namespace SessionBroker.Pattern

/-- What stands in a sequence. -/
inductive Item where
  /-- A switch of modes, which cannot be repeated. -/
  | switch
  /-- Something that can; how deep it nests. -/
  | part (depth : Nat)
  deriving DecidableEq, Repr

/-- How deep an item nests. -/
def Item.depth : Item → Nat
  | .switch => 0
  | .part d => d

structure Group where
  /-- How deep the alternatives before the last one nest. -/
  alternatives : List Nat
  /-- The items of the last alternative, the newest first. -/
  items : List Item
  /-- How the pattern is read once the group ends. -/
  after : Modes
  deriving DecidableEq, Repr

namespace Group

def new (after : Modes) : Group := ⟨[], [], after⟩

def add (g : Group) (i : Item) : Group := { g with items := i :: g.items }

def repeat? (g : Group) : Option Group :=
  match g.items with
  | .part d :: rest => some { g with items := .part (d + 1) :: rest }
  | _ => none

/-- How deep the last alternative nests. -/
def lastDepth (g : Group) : Nat := CharSet.depthOf (g.items.map Item.depth)

/-- How deep all alternatives nest. -/
def depth (g : Group) : Nat := CharSet.depthOf (g.lastDepth :: g.alternatives)

/-- Begins a further alternative. -/
def alternate (g : Group) : Group :=
  { g with alternatives := g.lastDepth :: g.alternatives, items := [] }

end Group

structure Reader where
  modes : Modes
  /-- The names of groups so far. -/
  names : List (List Char)
  group : Group
  outer : List Group

namespace Reader

def start : Reader := ⟨.standard, [], .new .standard, []⟩

/-- Adds an item to the group under way. -/
def add (r : Reader) (i : Item) : Reader := { r with group := r.group.add i }

/-- Begins a group inside, which is read in some modes. -/
def enter (r : Reader) (modes : Modes) : Reader :=
  { r with modes, group := .new r.modes, outer := r.group :: r.outer }

def leave? (r : Reader) : Option Reader :=
  match r.outer with
  | [] => none
  | around :: outer =>
    some { r with
      modes := r.group.after, group := around.add (.part (r.group.depth + 1)), outer }

/-- Whether a character may stand in the name of a group. -/
def isOfName (first : Bool) (c : Char) : Bool :=
  if first then c = '_' || Text.isAlphabetic c
  else c = '_' || c = '.' || c = '[' || c = ']' || Text.isAlphanumeric c

/-- Begins a group with a name; no two groups have the same one. -/
def enterNamed? (r : Reader) (s : List Char) : Option (Reader × List Char) :=
  let name := s.takeWhile (· ≠ '>')
  match s.dropWhile (· ≠ '>') with
  | _ :: rest =>
    if (name.take 1).any (isOfName true) && (name.drop 1).all (isOfName false)
        && !r.names.contains name then
      some ({ r with names := name :: r.names }.enter r.modes, rest)
    else none
  | [] => none

/-- Begins a group with a switch of modes; without a group the switch holds from here on. -/
def switch? (r : Reader) (s : List Char) : Option (Reader × List Char) := do
  let (change, last, rest) ← Switch.none.read? false false s
  let modes := r.modes.apply change
  if last = ':' then return (r.enter modes, rest)
  if change.isNone then none
  return ({ r with modes }.add .switch, rest)

/-- Reads what follows an opening parenthesis. Groups that look ahead or back are refused. -/
def open? (r : Reader) (s : List Char) : Option (Reader × List Char) :=
  match r.modes.skip s with
  | '?' :: '=' :: _ | '?' :: '!' :: _ | '?' :: '<' :: '=' :: _ | '?' :: '<' :: '!' :: _ => none
  | '?' :: 'P' :: '<' :: rest => r.enterNamed? rest
  | '?' :: '<' :: rest => r.enterNamed? rest
  | '?' :: rest => r.switch? rest
  | s => some (r.enter r.modes, s)

/-- Reads a number of repetitions, with blanks around it. -/
def count? (s : List Char) : Option Nat :=
  let digits := Text.trim s
  if digits.head? = some '+' then none else Text.Unsigned.parse? UInt32.size digits

/-- Whether braces hold a number of repetitions or bounds for it; there may be no upper bound. -/
def isCount (s : List Char) : Bool :=
  let least := count? (s.takeWhile (· ≠ ','))
  match s.dropWhile (· ≠ ',') with
  | [] | [','] => least.isSome
  | _ :: most =>
    match least, count? most with
    | some a, some b => a ≤ b
    | _, _ => false

/-- Repeats the last item; a question mark behind a repetition belongs to it. -/
def repeat? (r : Reader) (s : List Char) : Option (Reader × List Char) := do
  let group ← r.group.repeat?
  let rest := match s with
    | '?' :: rest => rest
    | s => s
  return ({ r with group }, rest)

def atom? (r : Reader) (a : Atom) : Option Reader :=
  if a.fits r.modes then some (r.add (.part 0)) else none

/-- Goes on with the character `c`; `s` follows it. -/
def step? (r : Reader) (c : Char) (s : List Char) : Option (Reader × List Char) :=
  match c with
  | '(' => r.open? s
  | ')' => do return (← r.leave?, s)
  | '|' => some ({ r with group := r.group.alternate }, s)
  | '[' => do
    let (o, rest) ← CharSet.start? r.modes s
    let (depth, rest) ← CharSet.read? r.modes (s.length + 1) [] o rest
    return (r.add (.part depth), rest)
  | '?' | '*' | '+' => r.repeat? s
  | '\x7b' => do
    let (count, rest) ← r.modes.braced false s
    if isCount count then r.repeat? (r.modes.skip rest) else none
  | '\\' => do
    let (a, rest) ← Escape.read? r.modes s
    return (← r.atom? a, rest)
  | '.' => do return (← r.atom? .any, s)
  | '^' | '$' => do return (← r.atom? (.place false), s)
  | c => do return (← r.atom? (.char c false), s)

def read? : Nat → Reader → List Char → Option Reader
  | 0, _, _ => none
  | fuel + 1, r, s =>
    match r.modes.skip s with
    | [] => some r
    | c :: rest =>
      match r.step? c rest with
      | some (r, rest) => read? fuel r rest
      | none => none

end Reader

/-- How deep patterns may nest. -/
def depthLimit : Nat := 250

/-- Whether a text is a pattern: all its groups and sets are closed, everything in it is known and
fits the modes, and it does not nest too deep. -/
def isWellFormed (s : List Char) : Bool :=
  match Reader.start.read? (s.length + 1) s with
  | some r => r.outer.isEmpty && r.group.depth ≤ depthLimit
  | none => false

end SessionBroker.Pattern
