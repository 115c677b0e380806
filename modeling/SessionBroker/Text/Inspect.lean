import SessionBroker.Text.Printing
import SessionBroker.Text.Utf8

/-!
# Texts for inspection

A text is inspected in double quotes, with escapes for quotes, backslashes and characters that do
not print by themselves, so that its characters can be told apart. Bytes that are no characters are
shown by their two hexadecimal digits.
-/

namespace SessionBroker.Text.Inspect

def hexLower (n : Nat) : List Char := Nat.toDigits 16 n

def char (c : Char) : List Char :=
  if c = '"' then ['\\', '"']
  else if c = '\\' then ['\\', '\\']
  else if c = '\t' then ['\\', 't']
  else if c = '\n' then ['\\', 'n']
  else if c = '\r' then ['\\', 'r']
  else if c.toNat = 0 then ['\\', '0']
  else if prints c then [c]
  else ['\\', 'u', '\x7b'] ++ hexLower c.toNat ++ ['\x7d']

def string (s : String) : String :=
  String.ofList ('"' :: (s.toList.flatMap char ++ ['"']))

/-- A byte that is no character: two hexadecimal digits in upper case. -/
def byte (b : UInt8) : List Char :=
  let digit (n : Nat) : Char := if n < 10 then Char.ofNat (48 + n) else Char.ofNat (55 + n)
  ['\\', 'x', digit (b.toNat / 16), digit (b.toNat % 16)]

def bytes (bs : Bytes) : String :=
  let piece : Utf8.Piece → List Char
    | .char c => char c
    | .bad run => run.flatMap byte
  String.ofList ('"' :: ((Utf8.pieces bs).flatMap piece ++ ['"']))

end SessionBroker.Text.Inspect
