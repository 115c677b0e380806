import SessionBroker.Pattern.Reader

/-!
# Values of fields

A directive may ask for the value of a field: for a number, or for a text that a pattern describes.
-/

namespace SessionBroker.Logging.FieldValue

def dropSign : List Char → List Char
  | '+' :: rest => rest
  | '-' :: rest => rest
  | s => s

/-- One digit or more and nothing else. -/
def isDigits (s : List Char) : Bool := !s.isEmpty && s.all Text.Unsigned.isDigit

/-- Digits with or without a point; on one side of it there may be none. -/
def isDecimal (s : List Char) : Bool :=
  let whole := s.takeWhile (· ≠ '.')
  match s.dropWhile (· ≠ '.') with
  | [] => isDigits whole
  | _ :: places =>
    (isDigits whole && (places.isEmpty || isDigits places)) || (whole.isEmpty && isDigits places)

/-- Words that stand for numbers, in letters of either case. -/
def numberWords : List String := ["inf", "infinity", "nan"]

/-- Whether a text is a number: a sign or none, and a word or a decimal number, which may have an
exponent. -/
def isNumber (s : List Char) : Bool :=
  let s := dropSign s
  let isMark (c : Char) : Bool := c = 'e' || c = 'E'
  String.ofList (s.map Char.toLower) ∈ numberWords
    || match s.dropWhile (!isMark ·) with
      | [] => isDecimal s
      | _ :: exponent => isDecimal (s.takeWhile (!isMark ·)) && isDigits (dropSign exponent)

/-- Whether something can be asked for: a number or a pattern. -/
def isReadable (s : List Char) : Bool := isNumber s || Pattern.isWellFormed s

end SessionBroker.Logging.FieldValue
