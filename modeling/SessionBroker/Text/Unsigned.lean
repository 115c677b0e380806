/-!
# Unsigned decimal numbers

A number is an optional plus sign and one or more decimal digits, in value below a bound. Leading
zeros are allowed and nothing else is.
-/

namespace SessionBroker.Text.Unsigned

def isDigit (c : Char) : Bool := '0' ≤ c && c ≤ '9'

def digit (c : Char) : Nat := c.toNat - '0'.toNat

/-- The value of a run of digits, most significant first. -/
def value (digits : List Char) : Nat := digits.foldl (fun n c => n * 10 + digit c) 0

def dropPlus : List Char → List Char
  | '+' :: rest => rest
  | s => s

def parse? (bound : Nat) (s : List Char) : Option Nat :=
  let digits := dropPlus s
  if digits.isEmpty || !digits.all isDigit then none
  else if value digits < bound then some (value digits) else none

/-- The decimal digits of a number, without leading zeros. -/
def render (n : Nat) : List Char := Nat.toDigits 10 n

end SessionBroker.Text.Unsigned
