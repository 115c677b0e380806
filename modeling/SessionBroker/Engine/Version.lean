import SessionBroker.Text.Blank
import SessionBroker.Text.Unsigned
import SessionBroker.Json.Record
import SessionBroker.Json.Writer

/-!
# Engine versions

A version is a major and a minor number. Its text is the two numbers with a point between them;
blanks around a text and a missing minor number are accepted. Versions compare by number, never by
spelling.
-/

namespace SessionBroker

structure Version where
  major : UInt32
  minor : UInt32
  deriving DecidableEq, Repr

namespace Version

/-- Smaller major number, or the same and smaller minor number. -/
protected def lt (v w : Version) : Prop :=
  v.major < w.major ∨ v.major = w.major ∧ v.minor < w.minor

instance : LT Version := ⟨Version.lt⟩

instance (v w : Version) : Decidable (v < w) :=
  inferInstanceAs (Decidable (v.major < w.major ∨ v.major = w.major ∧ v.minor < w.minor))

/-- Compares by major number, then by minor number. -/
def cmp (v w : Version) : Ordering :=
  (Ord.compare v.major w.major).then (Ord.compare v.minor w.minor)

/-- The characters before the first point, and those after it. -/
def splitPoint : List Char → List Char × Option (List Char)
  | [] => ([], none)
  | c :: rest =>
    if c = '.' then ([], some rest)
    else let (front, back) := splitPoint rest; (c :: front, back)

/-- Reads one of the two numbers. -/
def component? (s : List Char) : Option UInt32 :=
  (Text.Unsigned.parse? UInt32.size s).map Nat.toUInt32

def ofChars? (s : List Char) : Option Version := do
  let (major, minor) := splitPoint (Text.trim s)
  return ⟨← component? major, ← component? (minor.getD ['0'])⟩

def parse? (s : String) : Option Version := ofChars? s.toList

/-- The characters of a version's text. -/
def chars (v : Version) : List Char :=
  Text.Unsigned.render v.major.toNat ++ '.' :: Text.Unsigned.render v.minor.toNat

def text (v : Version) : String := String.ofList v.chars

/-- What is said of a text that is no version. -/
def invalidText (s : String) : String := s!"invalid engine version: '{s}'"

/-- In JSON a version is the string of its text. -/
def toJson (v : Version) : Json.Value := .string v.text

/-- Reads the JSON document of a version. -/
def ofJson? (document : String) : Option Version :=
  match Json.Scan.whole Json.Scan.text document.toList with
  | .ok s => parse? s
  | .error _ => none

end Version

end SessionBroker
