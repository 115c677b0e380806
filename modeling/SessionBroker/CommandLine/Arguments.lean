import SessionBroker.Engine.Version
import SessionBroker.Text.Inspect

/-!
# Command-line arguments

Arguments are options, which begin with `-` or `--`, and values of options. Several one-letter
options may stand together; the value of an option follows it, in the same argument, after an equals
sign or as the next argument. There are no other arguments.
-/

namespace SessionBroker.CommandLine

open Text

/-- What the command line asks for. -/
structure Arguments where
  config : Option String
  logLevel : Option String
  minimumVersion : Option String
  noProbe : Bool
  version : Bool
  help : Bool
  deriving DecidableEq, Repr

def Arguments.none : Arguments := ⟨.none, .none, .none, false, false, false⟩

/-- Why a command line is refused. -/
inductive Fault where
  | missingValue (option : String)
  | unknownOption (option : String)
  /-- A value is given to an option that takes none. -/
  | unexpectedValue (option : String) (value : Bytes)
  /-- The value of an option is not UTF-8. -/
  | notText (value : Bytes)
  | badVersion (value : String)
  | unexpectedArgument (argument : String)
  deriving DecidableEq, Repr

/-- What is said of a refused command line. -/
def Fault.message : Fault → String
  | .missingValue o => s!"missing argument for option '{o}'"
  | .unknownOption o => s!"invalid option '{o}'"
  | .unexpectedValue o v => "unexpected argument for option '" ++ o ++ "': " ++ Inspect.bytes v
  | .notText v => "argument is invalid unicode: " ++ Inspect.bytes v
  | .badVersion v => s!"invalid value for --min-engine-version: '{v}'"
  | .unexpectedArgument a => s!"unexpected argument: '{a}'"

inductive Flag where
  | help
  | version
  | noProbe
  deriving DecidableEq, Repr

inductive Setting where
  | config
  | logLevel
  | minimumVersion
  deriving DecidableEq, Repr

inductive Known where
  | flag (f : Flag)
  | setting (s : Setting)
  deriving DecidableEq, Repr

def Known.ofLetter? (c : Char) : Option Known :=
  if c = 'h' then some (.flag .help)
  else if c = 'V' then some (.flag .version)
  else if c = 'c' then some (.setting .config)
  else if c = 'l' then some (.setting .logLevel)
  else none

def Known.ofName? (name : String) : Option Known :=
  if name = "--help" then some (.flag .help)
  else if name = "--version" then some (.flag .version)
  else if name = "--no-probe" then some (.flag .noProbe)
  else if name = "--config" then some (.setting .config)
  else if name = "--log-level" then some (.setting .logLevel)
  else if name = "--min-engine-version" then some (.setting .minimumVersion)
  else none

namespace Arguments

def raise (a : Arguments) : Flag → Arguments
  | .help => { a with help := true }
  | .version => { a with version := true }
  | .noProbe => { a with noProbe := true }

def assign (a : Arguments) (s : Setting) (value : Bytes) : Except Fault Arguments :=
  match Utf8.strict? value with
  | .none => .error (.notText value)
  | some v =>
    match s with
    | .config => .ok { a with config := some v }
    | .logLevel => .ok { a with logLevel := some v }
    | .minimumVersion =>
      if (Version.parse? v).isSome then .ok { a with minimumVersion := some v }
      else .error (.badVersion v)

end Arguments

def ascii (s : String) : Bytes := Utf8.encode s

/-- The bytes of pieces. -/
def ofPieces (ps : List Utf8.Piece) : Bytes :=
  ps.flatMap fun
    | .char c => Utf8.encodeChar c
    | .bad run => run

/-- What is left to do after the letters of one argument. -/
inductive ClusterEnd where
  | done (a : Arguments)
  /-- The last letter's option takes its value from the next argument. -/
  | awaits (a : Arguments) (option : String) (s : Setting)

def letterName (c : Char) : String := String.ofList ['-', c]

/-- Reads letters that stand together; `last` is the one before them. What follows the letter of an
option with a value is the value, without an equals sign in front. -/
def readLetters (last : Option Char) : List Utf8.Piece → Arguments → Except Fault ClusterEnd
  | [], a => .ok (.done a)
  | p :: rest, a =>
    match last, p with
    | some o, .char '=' => .error (.unexpectedValue (letterName o) (ofPieces rest))
    | _, p =>
      let c := p.lenient
      match p.char?.bind Known.ofLetter? with
      | none => .error (.unknownOption (letterName c))
      | some (.flag f) => readLetters (some c) rest (a.raise f)
      | some (.setting s) =>
        match rest with
        | [] => .ok (.awaits a (letterName c) s)
        | .char '=' :: value => (a.assign s (ofPieces value)).map .done
        | value => (a.assign s (ofPieces value)).map .done

/-- The bytes before the first equals sign, and those after it. -/
def splitEquals (bytes : Bytes) : Bytes × Option Bytes :=
  match bytes.dropWhile (· ≠ 0x3D) with
  | [] => (bytes, none)
  | _ :: value => (bytes.takeWhile (· ≠ 0x3D), some value)

/-- How an argument begins. -/
inductive Shape where
  /-- Nothing but two dashes: no options follow. -/
  | terminator
  | long
  | letters (pieces : List Utf8.Piece)
  | plain

/-- How an argument begins; a lone dash is no option. -/
def shape : Bytes → Shape
  | 0x2D :: 0x2D :: [] => .terminator
  | 0x2D :: 0x2D :: _ => .long
  | 0x2D :: b :: rest => .letters (Utf8.pieces (b :: rest))
  | _ => .plain

def read : List Bytes → Arguments → Except Fault Arguments
  | [], a => .ok a
  | arg :: rest, a =>
    match shape arg with
    | .plain => .error (.unexpectedArgument (Utf8.lenient arg))
    | .terminator =>
      match rest with
      | [] => .ok a
      | v :: _ => .error (.unexpectedArgument (Utf8.lenient v))
    | .long =>
      let (front, attached) := splitEquals arg
      let name := Utf8.lenient front
      match Known.ofName? name, attached with
      | none, _ => .error (.unknownOption name)
      | some (.flag _), some v => .error (.unexpectedValue name v)
      | some (.flag f), none => read rest (a.raise f)
      | some (.setting s), some v => do read rest (← a.assign s v)
      | some (.setting s), none =>
        match rest with
        | [] => .error (.missingValue name)
        | v :: rest => do read rest (← a.assign s v)
    | .letters ps =>
      match readLetters none ps a with
      | .error f => .error f
      | .ok (.done a) => read rest a
      | .ok (.awaits a name s) =>
        match rest with
        | [] => .error (.missingValue name)
        | v :: rest => do read rest (← a.assign s v)
termination_by args => args.length

def parse (args : List Bytes) : Except Fault Arguments := read args .none

end SessionBroker.CommandLine
