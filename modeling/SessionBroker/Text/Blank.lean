/-!
# Blank characters

The characters with the Unicode property `White_Space`, and trimming by them. Every character that
`Char.isWhitespace` accepts is blank; the converse fails, since that test knows ASCII only.
-/

namespace SessionBroker.Text

/-- The property `White_Space`: two ranges and nine single characters, all in the basic plane. -/
def isBlank (c : Char) : Bool :=
  let n := c.toNat
  (9 ≤ n && n ≤ 13) || n == 0x20 || n == 0x85 || n == 0xA0 || n == 0x1680
    || (0x2000 ≤ n && n ≤ 0x200A) || n == 0x2028 || n == 0x2029 || n == 0x202F
    || n == 0x205F || n == 0x3000

def trimStart (s : List Char) : List Char := s.dropWhile isBlank

def trimEnd (s : List Char) : List Char := (s.reverse.dropWhile isBlank).reverse

def trim (s : List Char) : List Char := trimEnd (trimStart s)

@[simp] theorem trimStart_nil : trimStart [] = [] := rfl

@[simp] theorem trimEnd_nil : trimEnd [] = [] := rfl

@[simp] theorem trim_nil : trim [] = [] := rfl

theorem trimEnd_append_blank {c : Char} (s : List Char) (h : isBlank c = true) :
    trimEnd (s ++ [c]) = trimEnd s := by
  simp [trimEnd, h]

theorem trimEnd_append_not_blank {c : Char} (s : List Char) (h : isBlank c = false) :
    trimEnd (s ++ [c]) = s ++ [c] := by
  simp [trimEnd, h]

end SessionBroker.Text
