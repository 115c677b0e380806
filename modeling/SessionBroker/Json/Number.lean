import SessionBroker.Text.Unsigned

/-!
# Numbers

A number is a natural number below 2^64, a negative integer down to -2^63, or a double. A double is
kept as its 64 bits, so that equality is equality of values as written, `-0.0` and `0.0` apart.
`shortest` gives the fewest digits that read back as the same double.
-/

namespace SessionBroker.Json

/-- A number as a document can hold it. -/
inductive Number where
  /-- A natural number, below 2^64. -/
  | natural (n : Nat)
  /-- The negative integer `-n`, for `0 < n ≤ 2^63`. -/
  | negative (n : Nat)
  /-- The double with these bits. -/
  | double (bits : UInt64)
  deriving DecidableEq, Repr

namespace Double

/-- A positive finite double as `mantissa * 2 ^ exponent`. -/
structure Parts where
  mantissa : Nat
  exponent : Int
  /-- The next smaller double is half as far away as the next larger one. -/
  narrowBelow : Bool

/-- The parts of the double with these bits, its sign left aside. -/
def parts (bits : UInt64) : Parts :=
  let raw : Nat := bits.toNat % Nat.pow 2 63
  let fraction : Nat := raw % Nat.pow 2 52
  let biased : Nat := raw / Nat.pow 2 52
  if biased = 0 then ⟨fraction, -1074, false⟩
  else ⟨Nat.pow 2 52 + fraction, (biased : Int) - 1075, fraction = 0 && 1 < biased⟩

/-- Numerator and denominator of `n * 2 ^ two * 10 ^ ten`. -/
def ratio (n : Nat) (two ten : Int) : Nat × Nat :=
  (n * Nat.pow 2 two.toNat * Nat.pow 10 ten.toNat, Nat.pow 2 (-two).toNat * Nat.pow 10 (-ten).toNat)

/-- The exponent of ten of the leading digit of `num / den`. -/
def leadingExponent (num den : Nat) : Int :=
  if den ≤ num then ((Nat.toDigits 10 (num / den)).length : Int) - 1
  else
    let whole := (Nat.toDigits 10 (den / num)).length - 1
    if den = num * Nat.pow 10 whole then -(whole : Int) else -(whole : Int) - 1

/-- Whether the decimal `d * 10 ^ ten` reads back as the double: it lies between the midpoints to
the two neighbours, which themselves belong to the double with the even mantissa. -/
def readsBack (p : Parts) (d : Nat) (ten : Int) : Bool :=
  let (num, den) := ratio d 0 ten
  let below := 4 * p.mantissa - (if p.narrowBelow then 1 else 2)
  let above := 4 * p.mantissa + 2
  let (lowNum, lowDen) := ratio below (p.exponent - 2) 0
  let (highNum, highDen) := ratio above (p.exponent - 2) 0
  if p.mantissa % 2 = 0 then lowNum * den ≤ num * lowDen && num * highDen ≤ highNum * den
  else lowNum * den < num * lowDen && num * highDen < highNum * den

/-- The better of the two neighbours of `num / den` among the naturals: the nearer one that reads
back, the even one of two that are equally near. -/
def nearest? (p : Parts) (num den : Nat) (ten : Int) : Option Nat :=
  let down := num / den
  let up := down + 1
  let rest := 2 * (num % den)
  let (first, second) :=
    if rest < den || (rest = den && down % 2 = 0) then (down, up) else (up, down)
  if readsBack p first ten then some first
  else if readsBack p second ten then some second
  else none

/-- The fewest digits, from `count` on, that read back, and the exponent of ten of the last. -/
def digitsFrom (p : Parts) (lead : Int) : Nat → Nat → Nat × Int
  | 0, count => (0, lead - count)
  | fuel + 1, count =>
    let ten := lead - count + 1
    let (num, den) := ratio p.mantissa p.exponent (-ten)
    match nearest? p num den ten with
    | some d => (d, ten)
    | none => digitsFrom p lead fuel (count + 1)

/-- The shortest decimal `d * 10 ^ ten` that reads back as the double with these bits. -/
def shortest (bits : UInt64) : Nat × Int :=
  let p := parts bits
  let (num, den) := ratio p.mantissa p.exponent 0
  digitsFrom p (leadingExponent num den) 17 1

/-- Drops the zeros at the end of a decimal. -/
def dropZeros : Nat → Nat → Int → Nat × Int
  | 0, d, ten => (d, ten)
  | fuel + 1, d, ten => if d % 10 = 0 && d ≠ 0 then dropZeros fuel (d / 10) (ten + 1) else (d, ten)

def isNegative (bits : UInt64) : Bool := Nat.pow 2 63 ≤ bits.toNat

/-- Where positional notation ends on either side, as exponents of ten of the leading digit. -/
structure Positional where
  first : Int
  bound : Int

/-- Positional from `1e-5` on and below `1e16`. -/
def positional : Positional := ⟨-5, 16⟩

/-- Lays out the digits of `0.d1d2… * 10 ^ (lead + 1)`; there is always a point or an exponent. -/
def layout (digits : List Char) (lead : Int) : List Char :=
  let count : Int := digits.length
  if positional.first ≤ lead && lead < positional.bound then
    if count - 1 ≤ lead then digits ++ List.replicate (lead - count + 1).toNat '0' ++ ['.', '0']
    else if 0 ≤ lead then digits.take (lead + 1).toNat ++ '.' :: digits.drop (lead + 1).toNat
    else '0' :: '.' :: (List.replicate (-lead - 1).toNat '0' ++ digits)
  else
    let whole := digits.take 1 ++ (if 1 < digits.length then '.' :: digits.drop 1 else [])
    let sign := if lead < 0 then '-' else '+'
    whole ++ 'e' :: sign :: Text.Unsigned.render lead.natAbs

/-- The text of a double: the shortest digits that read back. Infinities and NaN have no text of
their own and are written as `null`. -/
def render (bits : UInt64) : List Char :=
  let raw := bits.toNat % Nat.pow 2 63
  if 2047 * Nat.pow 2 52 ≤ raw then ['n', 'u', 'l', 'l']
  else
    let body :=
      if raw = 0 then ['0', '.', '0']
      else
        let (d, ten) := shortest bits
        let (d, ten) := dropZeros 20 d ten
        let digits := Text.Unsigned.render d
        layout digits (ten + digits.length - 1)
    if isNegative bits then '-' :: body else body

end Double

def Number.render : Number → List Char
  | .natural n => Text.Unsigned.render n
  | .negative n => '-' :: Text.Unsigned.render n
  | .double bits => Double.render bits

end SessionBroker.Json
