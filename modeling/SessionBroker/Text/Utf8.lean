/-!
# Bytes as text

Command-line arguments, environment values and files are bytes that need not be UTF-8. `pieces`
reads them as characters and maximal runs of bytes that start no character; strict reading refuses
such runs and lenient reading puts a replacement character for each.
-/

namespace SessionBroker.Text

/-- A value given by the system, not necessarily UTF-8. -/
abbrev Bytes := List UInt8

namespace Utf8

/-- What the front of a byte sequence holds. -/
inductive Piece where
  | char (c : Char)
  /-- The longest start of a character that nothing completes, or a byte that starts none. -/
  | bad (bytes : Bytes)
  deriving DecidableEq, Repr

/-- For the first byte of a longer character: the range of its second byte, and how many bytes
follow the first. -/
def lead? (a : UInt8) : Option (UInt8 × UInt8 × Nat) :=
  if a < 0xC2 then none
  else if a < 0xE0 then some (0x80, 0xBF, 1)
  else if a == 0xE0 then some (0xA0, 0xBF, 2)
  else if a == 0xED then some (0x80, 0x9F, 2)
  else if a < 0xF0 then some (0x80, 0xBF, 2)
  else if a == 0xF0 then some (0x90, 0xBF, 3)
  else if a < 0xF4 then some (0x80, 0xBF, 3)
  else if a == 0xF4 then some (0x80, 0x8F, 3)
  else none

/-- The six low bits of a continuation byte. -/
def low (b : UInt8) : Nat := b.toNat % 64

def isTail (b : UInt8) : Bool := 0x80 ≤ b && b ≤ 0xBF

/-- Reads bytes from the left; together the pieces hold every byte once. -/
def pieces : Bytes → List Piece
  | [] => []
  | a :: rest =>
    if a < 0x80 then .char (Char.ofNat a.toNat) :: pieces rest
    else match lead? a with
      | none => .bad [a] :: pieces rest
      | some (lo, hi, more) =>
        match rest with
        | [] => [.bad [a]]
        | b :: rest2 =>
          if lo ≤ b && b ≤ hi then
            if more == 1 then .char (Char.ofNat (a.toNat % 32 * 64 + low b)) :: pieces rest2
            else match rest2 with
              | [] => [.bad [a, b]]
              | c :: rest3 =>
                if isTail c then
                  if more == 2 then
                    .char (Char.ofNat ((a.toNat % 16 * 64 + low b) * 64 + low c)) :: pieces rest3
                  else match rest3 with
                    | [] => [.bad [a, b, c]]
                    | d :: rest4 =>
                      if isTail d then
                        .char (Char.ofNat (((a.toNat % 8 * 64 + low b) * 64 + low c) * 64 + low d))
                          :: pieces rest4
                      else .bad [a, b, c] :: pieces (d :: rest4)
                else .bad [a, b] :: pieces (c :: rest3)
          else .bad [a] :: pieces (b :: rest2)
termination_by bytes => bytes.length

/-- The character of a piece, the replacement character for bytes that start none. -/
def Piece.lenient : Piece → Char
  | .char c => c
  | .bad _ => Char.ofNat 0xFFFD

/-- The character of a piece, if it is one. -/
def Piece.char? : Piece → Option Char
  | .char c => some c
  | .bad _ => none

/-- The text, if every byte belongs to a character. -/
def strict? (bytes : Bytes) : Option String :=
  ((pieces bytes).mapM Piece.char?).map String.ofList

/-- The text with a replacement character for each run of bytes that starts no character. -/
def lenient (bytes : Bytes) : String :=
  String.ofList ((pieces bytes).map Piece.lenient)

def encodeChar (c : Char) : Bytes :=
  let n := c.toNat
  if n < 0x80 then [n.toUInt8]
  else if n < 0x800 then [(0xC0 + n / 64).toUInt8, (0x80 + n % 64).toUInt8]
  else if n < 0x10000 then
    [(0xE0 + n / 4096).toUInt8, (0x80 + n / 64 % 64).toUInt8, (0x80 + n % 64).toUInt8]
  else
    [(0xF0 + n / 262144).toUInt8, (0x80 + n / 4096 % 64).toUInt8, (0x80 + n / 64 % 64).toUInt8,
      (0x80 + n % 64).toUInt8]

def encode (s : String) : Bytes := s.toList.flatMap encodeChar

end Utf8

end SessionBroker.Text
