import SessionBroker.Logging.FieldValue

/-!
# Log filters

A filter is a list of directives between commas. A directive names a target, a level, or both with
an equals sign between them; a span and fields may stand in brackets behind the target. Of the
directives whose target begins the name of a module, the most specific one decides which levels are
written.
-/

namespace SessionBroker.Logging

/-- How much is written, each level with all that come before it. -/
inductive Level where
  | off
  | error
  | warn
  | info
  | debug
  | trace
  deriving DecidableEq, Repr

namespace Level

def all : List Level := [.off, .error, .warn, .info, .debug, .trace]

/-- The place of a level in the order. -/
def rank : Level → Nat
  | .off => 0
  | .error => 1
  | .warn => 2
  | .info => 3
  | .debug => 4
  | .trace => 5

def name : Level → String
  | .off => "off"
  | .error => "error"
  | .warn => "warn"
  | .info => "info"
  | .debug => "debug"
  | .trace => "trace"

/-- Reads a level: its place in the order or its name in letters of either case. -/
def parse? (s : List Char) : Option Level :=
  match (Text.Unsigned.parse? UInt64.size s).bind fun n => all[n]? with
  | some l => some l
  | none =>
    if s.isEmpty then some .error
    else all.find? fun l => l.name.toList = s.map Char.toLower

end Level

inductive Fault where
  /-- It is not written as one. -/
  | malformed
  /-- A part of it, as places are counted, begins or ends within a character. -/
  | torn
  deriving DecidableEq, Repr

structure Directive where
  target : Option String
  span : Option String
  /-- The names of fields, each perhaps with a value. -/
  fields : List (String × Option String)
  level : Level
  deriving DecidableEq, Repr

namespace Directive

/-- Where a reader of a directive stands; numbers are places at which a part begins. -/
inductive Place where
  | start
  | word (first : Nat)
  | span (first : Nat)
  | field (first : Nat)
  | fields
  | target
  | level (first : Nat)

/-- The characters from a place on; none if that lies within a character. -/
def cut? : Nat → List Char → Option (List Char)
  | 0, s => some s
  | _, [] => none
  | n, c :: rest => if c.utf8Size ≤ n then cut? (n - c.utf8Size) rest else none

/-- The characters before a place; none if that lies within a character. -/
def keep? : Nat → List Char → Option (List Char)
  | 0, _ => some []
  | _, [] => none
  | n, c :: rest => if c.utf8Size ≤ n then (keep? (n - c.utf8Size) rest).map (c :: ·) else none

/-- The characters from a place on. -/
def tail (s : List Char) (first : Nat) : Except Fault (List Char) :=
  match cut? first s with
  | some t => .ok t
  | none => .error .torn

/-- The characters from one place up to another. -/
def slice (s : List Char) (first last : Nat) : Except Fault (List Char) :=
  match (cut? first s).bind (keep? (last - first)) with
  | some t => .ok t
  | none => .error .torn

/-- A field: a name, and perhaps a value between its equals sign and the next one. -/
def field (s : List Char) : Except Fault (String × Option String) :=
  let name := String.ofList (s.takeWhile (· ≠ '='))
  match s.dropWhile (· ≠ '=') with
  | [] => .ok (name, none)
  | _ :: rest =>
    let value := rest.takeWhile (· ≠ '=')
    if FieldValue.isReadable value then .ok (name, some (String.ofList value))
    else .error .malformed

/-- Whether a directive may begin with a character. -/
def mayBegin (c : Char) : Bool := c = '-' || c = ':' || c = '_' || Text.isAlphanumeric c

/-- Reads the character `c` at place `i`; parts are cut out of `s`. -/
def readChar (s : List Char) (i : Nat) (c : Char) (d : Directive) :
    Place → Except Fault (Place × Directive)
  | .start =>
    if c = '[' then .ok (.span (i + 1), d)
    else if mayBegin c then .ok (.word i, d)
    else .error .malformed
  | .word first =>
    if c = '=' then do
      return (.level (i + 1), { d with target := String.ofList (← slice s first i) })
    else if c = '[' then do
      return (.span (i + 1), { d with target := String.ofList (← slice s first i) })
    else .ok (.word first, d)
  | .target => if c = '=' then .ok (.level (i + 1), d) else .error .malformed
  | .span first =>
    if c = ']' then do
      return (.target, { d with span := String.ofList (← slice s first i) })
    else if c = '\x7b' then do
      let name ← slice s first i
      return (.field (i + 1), { d with span := if name.isEmpty then none else String.ofList name })
    else .ok (.span first, d)
  | .field first =>
    if c = '\x7d' then do
      let f ← slice s first i
      if f.isEmpty then throw .malformed
      return (.fields, { d with fields := d.fields ++ [← field f] })
    else .ok (.field first, d)
  | .fields => if c = ']' then .ok (.target, d) else .error .malformed
  | .level first => .ok (.level first, d)

/-- Reads characters from a place on. Places are counted in bytes. -/
def readChars (s : List Char) :
    Nat → List Char → Place → Directive → Except Fault (Place × Directive)
  | _, [], p, d => .ok (p, d)
  | i, c :: rest, p, d => do
    let (p, d) ← readChar s i c d p
    readChars s (i + c.utf8Size) rest p d

def levelOf (s : List Char) : Except Fault Level :=
  match Level.parse? s with
  | some l => .ok l
  | none => .error .malformed

/-- Reads a directive. Blanks around it are passed over, but places are counted without the blanks
before it: parts that are cut out lie by so much further to the front, and may tear a character. -/
def parse (s : List Char) : Except Fault Directive := do
  let (p, d) ← readChars s 0 (Text.trim s) .start ⟨none, none, [], .trace⟩
  match p with
  | .word first =>
    let word ← tail s first
    if word.isEmpty then return d
    match Level.parse? word with
    | some l => return { d with level := l }
    | none => return { d with target := String.ofList word }
  | .level first =>
    let word ← tail s first
    if word.isEmpty then return { d with level := .trace }
    return { d with level := ← levelOf word }
  | .target => return d
  | _ => throw .malformed

/-- Whether a directive depends on no span and on no value of a field. -/
def isStatic (d : Directive) : Bool := d.span.isNone && d.fields.all fun f => f.2.isNone

def fieldNames (d : Directive) : List String := d.fields.map (·.1)

/-- Compares the lengths of optional targets; none comes before any. -/
def compareLengths : Option String → Option String → Ordering
  | none, none => .eq
  | none, some _ => .lt
  | some _, none => .gt
  | some a, some b => compare a.utf8ByteSize b.utf8ByteSize

def compareTargets : Option String → Option String → Ordering
  | none, none => .eq
  | none, some _ => .lt
  | some _, none => .gt
  | some a, some b => compare a b

def compareNames : List String → List String → Ordering
  | [], [] => .eq
  | [], _ :: _ => .lt
  | _ :: _, [] => .gt
  | a :: as, b :: bs => (compare a b).then (compareNames as bs)

/-- The more specific directive comes first: a longer target, then more fields; the names decide
between equals. -/
def order (a b : Directive) : Ordering :=
  ((compareLengths a.target b.target).then
    ((compare a.fields.length b.fields.length).then
      ((compareTargets a.target b.target).then (compareNames a.fieldNames b.fieldNames)))).swap

/-- Whether a directive is about a module. -/
def concerns (d : Directive) (module : String) : Bool :=
  match d.target with
  | none => true
  | some t => t.toList.isPrefixOf module.toList

end Directive

/-- A filter: its directives, the most specific one first. -/
structure Filter where
  directives : List Directive
  deriving DecidableEq, Repr

namespace Filter

/-- Puts a directive in its place; it replaces one that is just as specific. -/
def insert (d : Directive) : List Directive → List Directive
  | [] => [d]
  | e :: rest =>
    match d.order e with
    | .lt => d :: e :: rest
    | .eq => d :: rest
    | .gt => e :: insert d rest

def pieces (s : List Char) : List (List Char) :=
  s.foldr (fun c acc => match acc with
    | [] => if c = ',' then [[], []] else [[c]]
    | p :: rest => if c = ',' then [] :: p :: rest else (c :: p) :: rest) [[]]

/-- Reads a filter; an empty piece counts for nothing. Directives that depend on a span never say
anything about a module as such. -/
def parse (s : String) : Except Fault Filter := do
  let ds ← ((pieces s.toList).filter (!·.isEmpty)).mapM Directive.parse
  return ⟨(ds.filter Directive.isStatic).foldl (fun acc d => insert d acc) []⟩

/-- Whether a level is written for a module. -/
def enables (f : Filter) (module : String) (l : Level) : Bool :=
  match f.directives.find? (·.concerns module) with
  | some d => l.rank ≤ d.level.rank
  | none => false

end Filter

end SessionBroker.Logging
