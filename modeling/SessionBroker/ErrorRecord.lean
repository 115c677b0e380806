import SessionBroker.Text.Blank
import SessionBroker.Json.Value

/-!
# Error records and reports

A command reports errors as records: what happened, and the causes behind it, outermost first. A
report is the text that a reader of the session sees.
-/

namespace SessionBroker

/-- One error, its causes left aside. -/
structure ErrorEntry where
  message : String
  category : String
  identifier : String
  position : Option String
  deriving DecidableEq, Repr

/-- An error and the chain of its causes, each caused by the next. -/
structure ErrorRecord where
  entry : ErrorEntry
  causes : List ErrorEntry
  deriving DecidableEq, Repr

namespace ErrorEntry

/-- An optional string among the members of an object: absent, null or a string. -/
def optionalText? : Option Json.Value → Option (Option String)
  | none => some none
  | some .null => some none
  | some (.string s) => some (some s)
  | some _ => none

/-- The members of an entry with the cause left unread. A list holds all five in order. -/
def ofJson? (v : Json.Value) : Option (ErrorEntry × Option Json.Value) :=
  match v with
  | .object _ => do
    let .string message ← v.get? "message" | none
    let .string category ← v.get? "category" | none
    let .string identifier ← v.get? "fully_qualified_error_id" | none
    let position ← optionalText? (v.get? "position")
    return (⟨message, category, identifier, position⟩, v.get? "cause")
  | .array [.string message, .string category, .string identifier, position, cause] => do
    return (⟨message, category, identifier, ← optionalText? (some position)⟩, some cause)
  | _ => none

end ErrorEntry

namespace ErrorRecord

/-- Reads a chain of at most `depth` entries. -/
def chain? : Nat → Json.Value → Option (List ErrorEntry)
  | 0, _ => none
  | depth + 1, v => do
    let (entry, cause) ← ErrorEntry.ofJson? v
    match cause with
    | none => return [entry]
    | some .null => return [entry]
    | some c => return entry :: (← chain? depth c)

/-- Reads a record; no document nests deep enough for a longer chain. -/
def ofJson? (v : Json.Value) : Option ErrorRecord := do
  match ← chain? 128 v with
  | entry :: causes => return ⟨entry, causes⟩
  | [] => none

/-- Several records as one, each caused by the next; only the last one keeps its own causes. -/
def linked? : List ErrorRecord → Option ErrorRecord
  | [] => none
  | [r] => some r
  | r :: rest => (linked? rest).map fun cause => ⟨r.entry, cause.entry :: cause.causes⟩

/-- A record with every cause inside the error that it caused. -/
def entriesToJson : ErrorEntry → List ErrorEntry → Json.Value
  | e, causes =>
    let cause := match causes with
      | [] => .null
      | c :: rest => entriesToJson c rest
    .object [("category", .string e.category), ("cause", cause),
      ("fully_qualified_error_id", .string e.identifier), ("message", .string e.message),
      ("position", (e.position.map .string).getD .null)]
termination_by _ causes => causes.length

def toJson (r : ErrorRecord) : Json.Value := entriesToJson r.entry r.causes

end ErrorRecord

/-! ## Reports -/

namespace ErrorReport

/-- A line of a report. -/
def line (s : String) : List Char := s.toList ++ ['\n']

/-- A line that is left out where its text is empty. -/
def optionalLine (before s after : String) : List Char :=
  if s.isEmpty then [] else before.toList ++ s.toList ++ after.toList ++ ['\n']

def entryLines (e : ErrorEntry) : List Char :=
  line e.message
    ++ (match e.position with
      | some p => line ("At " ++ p)
      | none => [])
    ++ optionalLine "    + CategoryInfo          : " e.category ""
    ++ optionalLine "    + FullyQualifiedErrorId : " e.identifier ""

def indent (level : Nat) : List Char := List.replicate (4 * level) ' '

/-- The lines of a cause at a level of the chain. -/
def causeLines (level : Nat) (e : ErrorEntry) : List Char :=
  indent level ++ line ("---> Caused by: " ++ e.message)
    ++ (if e.identifier.isEmpty then []
      else indent level ++ line ("     (" ++ e.identifier ++ ")"))

/-- The lines of the causes from a level on. -/
def chainLines : Nat → List ErrorEntry → List Char
  | _, [] => []
  | level, e :: rest => causeLines level e ++ chainLines (level + 1) rest

/-- The report of one error, without blanks at its end. -/
def ofRecord (r : ErrorRecord) : String :=
  String.ofList (Text.trimEnd (entryLines r.entry ++ chainLines 1 r.causes))

/-- The reports of several errors, one after the other. -/
def ofRecords (rs : List ErrorRecord) : String :=
  "\n".intercalate (rs.map ofRecord)

end ErrorReport

end SessionBroker
