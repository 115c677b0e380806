import SessionBroker.Text.Unsigned
import SessionBroker.Text.Utf8

/-!
# Numerals and bytes that are read back

The digits of a number are digits, have its value, and begin with a zero only if they are those of zero. The bytes of
a text are those of its characters one after the other, and no character is taken for a part of another one.
-/

namespace SessionBroker.Text

namespace Unsigned

/-- The value of digits behind those of a number. -/
def continued (n : Nat) (digits : List Char) : Nat := digits.foldl (fun n c => n * 10 + digit c) n

@[simp] theorem continued_nil (n : Nat) : continued n [] = n := rfl

@[simp] theorem continued_cons (n : Nat) (c : Char) (digits : List Char) :
    continued n (c :: digits) = continued (n * 10 + digit c) digits := by
  rw [continued, List.foldl_cons, continued]

theorem le_continued (n : Nat) (digits : List Char) : n ≤ continued n digits := by
  induction digits generalizing n with
  | nil => exact Nat.le_refl n
  | cons c digits ih =>
    have step : n ≤ n * 10 + digit c := by omega
    exact Nat.le_trans step (ih (n * 10 + digit c))

theorem isDigit_eq (c : Char) : isDigit c = c.isDigit := rfl

theorem isDigit_of_mem_render {n : Nat} {c : Char} (here : c ∈ render n) : isDigit c = true := by
  rw [isDigit_eq]
  exact Nat.isDigit_of_mem_toDigits (by decide) (by decide) here

theorem value_render (n : Nat) : continued 0 (render n) = n := by
  induction n using Nat.strongRecOn with
  | ind n ih =>
    by_cases small : n < 10
    · rw [render, Nat.toDigits_of_lt_base small, continued_cons, continued_nil]
      have digit : digit n.digitChar = n := Nat.toNat_digitChar_sub_48_of_lt_ten small
      omega
    · have front : continued 0 (Nat.toDigits 10 (n / 10)) = n / 10 := ih (n / 10) (by omega)
      have last : digit (n % 10).digitChar = n % 10 := Nat.toNat_digitChar_sub_48_of_lt_ten (by omega)
      rw [render, Nat.toDigits_of_base_le (by decide) (by omega), continued, List.foldl_append]
      change continued 0 (Nat.toDigits 10 (n / 10)) * 10 + digit (n % 10).digitChar = n
      rw [front, last]
      omega

/-- A number's digits begin with a zero only if the number is zero. -/
theorem render_eq_cons (n : Nat) : ∃ c rest, render n = c :: rest ∧ (c = '0' → n = 0 ∧ rest = []) := by
  induction n using Nat.strongRecOn with
  | ind n ih =>
    by_cases small : n < 10
    · refine ⟨n.digitChar, [], Nat.toDigits_of_lt_base small, ?_⟩
      intro zero
      exact ⟨Nat.digitChar_eq_zero.mp zero, rfl⟩
    · obtain ⟨c, rest, front, leading⟩ := ih (n / 10) (by omega)
      refine ⟨c, rest ++ [(n % 10).digitChar], ?_, ?_⟩
      · rw [render, Nat.toDigits_of_base_le (by decide) (by omega)]
        change render (n / 10) ++ _ = _
        rw [front]
        rfl
      · intro zero
        have none := (leading zero).1
        omega

end Unsigned

namespace Utf8

theorem toNat_toUInt8 {n : Nat} (small : n < 256) : n.toUInt8.toNat = n := by
  change n % 256 = n
  omega

/-! ## The pieces of whole characters -/

variable {a b c d lo hi : UInt8} {rest : Bytes}

theorem pieces_one (ascii : a < 0x80) : pieces (a :: rest) = .char (Char.ofNat a.toNat) :: pieces rest := by
  rw [pieces, if_pos ascii]

theorem pieces_two (long : ¬a < 0x80) (lead : lead? a = some (lo, hi, 1)) (fits : (lo ≤ b && b ≤ hi) = true) :
    pieces (a :: b :: rest) = .char (Char.ofNat (a.toNat % 32 * 64 + low b)) :: pieces rest := by
  rw [pieces, if_neg long, lead]
  simp [fits]

theorem pieces_three (long : ¬a < 0x80) (lead : lead? a = some (lo, hi, 2)) (fits : (lo ≤ b && b ≤ hi) = true)
    (tail : isTail c = true) :
    pieces (a :: b :: c :: rest) =
      .char (Char.ofNat ((a.toNat % 16 * 64 + low b) * 64 + low c)) :: pieces rest := by
  rw [pieces, if_neg long, lead]
  simp [fits, tail]

theorem pieces_four (long : ¬a < 0x80) (lead : lead? a = some (lo, hi, 3)) (fits : (lo ≤ b && b ≤ hi) = true)
    (tail : isTail c = true) (tail' : isTail d = true) :
    pieces (a :: b :: c :: d :: rest) =
      .char (Char.ofNat (((a.toNat % 8 * 64 + low b) * 64 + low c) * 64 + low d)) :: pieces rest := by
  rw [pieces, if_neg long, lead]
  simp [fits, tail, tail']

/-! ## The first bytes of longer characters -/

theorem toNat_char_lt (c : Char) : c.toNat < 0xD800 ∨ 0xDFFF < c.toNat ∧ c.toNat < 0x110000 := c.valid

theorem not_ascii (high : 0x80 ≤ a.toNat) : ¬a < 0x80 := by
  rw [UInt8.lt_iff_toNat_lt]
  change ¬a.toNat < 0x80
  omega

theorem fits_iff : (lo ≤ b && b ≤ hi) = true ↔ lo.toNat ≤ b.toNat ∧ b.toNat ≤ hi.toNat := by
  simp [UInt8.le_iff_toNat_le]

theorem isTail_of_toNat (above : 0x80 ≤ b.toNat) (below : b.toNat < 0xC0) : isTail b = true := by
  rw [isTail, fits_iff]
  exact ⟨above, Nat.le_of_lt_succ below⟩

theorem lead?_two (above : 0xC2 ≤ a.toNat) (below : a.toNat < 0xE0) : lead? a = some (0x80, 0xBF, 1) := by
  unfold lead?
  simp only [UInt8.lt_iff_toNat_lt, UInt8.reduceToNat]
  rw [if_neg (by omega), if_pos (by omega)]

/-- The second of three bytes is in the range that the first one asks for, unless the bytes are those of a smaller
character or of a surrogate. -/
theorem lead?_three (above : 0xE0 ≤ a.toNat) (below : a.toNat < 0xF0) (tail : 0x80 ≤ b.toNat ∧ b.toNat < 0xC0)
    (large : a.toNat = 0xE0 → 0xA0 ≤ b.toNat) (scalar : a.toNat = 0xED → b.toNat < 0xA0) :
    ∃ lo hi, lead? a = some (lo, hi, 2) ∧ (lo ≤ b && b ≤ hi) = true := by
  unfold lead?
  simp only [fits_iff, UInt8.lt_iff_toNat_lt, beq_iff_eq, ← UInt8.toNat_inj, UInt8.reduceToNat]
  rw [if_neg (by omega), if_neg (by omega)]
  by_cases least : a.toNat = 0xE0
  · rw [if_pos least]
    exact ⟨0xA0, 0xBF, rfl, large least, Nat.le_of_lt_succ tail.2⟩
  · rw [if_neg least]
    by_cases last : a.toNat = 0xED
    · rw [if_pos last]
      exact ⟨0x80, 0x9F, rfl, tail.1, Nat.le_of_lt_succ (scalar last)⟩
    · rw [if_neg last, if_pos below]
      exact ⟨0x80, 0xBF, rfl, tail.1, Nat.le_of_lt_succ tail.2⟩

/-- The second of four bytes is in the range that the first one asks for, unless the bytes are those of a smaller
character or of none. -/
theorem lead?_four (above : 0xF0 ≤ a.toNat) (below : a.toNat < 0xF5) (tail : 0x80 ≤ b.toNat ∧ b.toNat < 0xC0)
    (large : a.toNat = 0xF0 → 0x90 ≤ b.toNat) (scalar : a.toNat = 0xF4 → b.toNat < 0x90) :
    ∃ lo hi, lead? a = some (lo, hi, 3) ∧ (lo ≤ b && b ≤ hi) = true := by
  unfold lead?
  simp only [fits_iff, UInt8.lt_iff_toNat_lt, beq_iff_eq, ← UInt8.toNat_inj, UInt8.reduceToNat]
  rw [if_neg (by omega), if_neg (by omega), if_neg (by omega), if_neg (by omega), if_neg (by omega)]
  by_cases least : a.toNat = 0xF0
  · rw [if_pos least]
    exact ⟨0x90, 0xBF, rfl, large least, Nat.le_of_lt_succ tail.2⟩
  · rw [if_neg least]
    by_cases last : a.toNat = 0xF4
    · rw [if_neg (by omega), if_pos last]
      exact ⟨0x80, 0x8F, rfl, tail.1, Nat.le_of_lt_succ (scalar last)⟩
    · rw [if_pos (by omega)]
      exact ⟨0x80, 0xBF, rfl, tail.1, Nat.le_of_lt_succ tail.2⟩

/-! ## Texts -/

/-- A byte that continues a character. -/
theorem tail_spec (n : Nat) : (0x80 + n % 64).toUInt8.toNat = 0x80 + n % 64 ∧ low (0x80 + n % 64).toUInt8 = n % 64 ∧
    isTail (0x80 + n % 64).toUInt8 = true := by
  have value : (0x80 + n % 64).toUInt8.toNat = 0x80 + n % 64 := toNat_toUInt8 (by omega)
  refine ⟨value, ?_, ?_⟩
  · rw [low, value]
    omega
  · exact isTail_of_toNat (by omega) (by omega)

/-- A character's bytes are read as that character, whatever follows. -/
theorem pieces_encodeChar (ch : Char) (rest : Bytes) :
    pieces (encodeChar ch ++ rest) = .char ch :: pieces rest := by
  have scalar := toNat_char_lt ch
  have back := Char.ofNat_toNat ch
  unfold encodeChar
  generalize ch.toNat = n at scalar back ⊢
  dsimp only
  -- by how many bytes the character takes
  by_cases one : n < 0x80
  · rw [if_pos one]
    have first : n.toUInt8.toNat = n := toNat_toUInt8 (by omega)
    have ascii : n.toUInt8 < 0x80 := UInt8.lt_iff_toNat_lt.mpr (by rw [first]; exact one)
    rw [List.singleton_append, pieces_one ascii, first, back]
  rw [if_neg one]
  obtain ⟨last, lowest, isLast⟩ := tail_spec n
  by_cases two : n < 0x800
  · rw [if_pos two]
    have first : (0xC0 + n / 64).toUInt8.toNat = 0xC0 + n / 64 := toNat_toUInt8 (by omega)
    have lead := lead?_two (a := (0xC0 + n / 64).toUInt8) (by omega) (by omega)
    rw [List.cons_append, List.singleton_append, pieces_two (not_ascii (by omega)) lead isLast, first, lowest]
    have value : (0xC0 + n / 64) % 32 * 64 + n % 64 = n := by omega
    rw [value, back]
  rw [if_neg two]
  obtain ⟨middle, lower, isMiddle⟩ := tail_spec (n / 64)
  by_cases three : n < 0x10000
  · rw [if_pos three]
    have first : (0xE0 + n / 4096).toUInt8.toNat = 0xE0 + n / 4096 := toNat_toUInt8 (by omega)
    obtain ⟨lo, hi, lead, fits⟩ := lead?_three (a := (0xE0 + n / 4096).toUInt8) (b := (0x80 + n / 64 % 64).toUInt8)
      (by omega) (by omega) (by omega) (by omega) (by omega)
    change pieces (_ :: _ :: _ :: rest) = _
    rw [pieces_three (not_ascii (by omega)) lead fits isLast, first, lower, lowest]
    have value : ((0xE0 + n / 4096) % 16 * 64 + n / 64 % 64) * 64 + n % 64 = n := by omega
    rw [value, back]
  · rw [if_neg three]
    have first : (0xF0 + n / 262144).toUInt8.toNat = 0xF0 + n / 262144 := toNat_toUInt8 (by omega)
    obtain ⟨second, high, -⟩ := tail_spec (n / 4096)
    obtain ⟨lo, hi, lead, fits⟩ := lead?_four (a := (0xF0 + n / 262144).toUInt8)
      (b := (0x80 + n / 4096 % 64).toUInt8) (by omega) (by omega) (by omega) (by omega) (by omega)
    change pieces (_ :: _ :: _ :: _ :: rest) = _
    rw [pieces_four (not_ascii (by omega)) lead fits isMiddle isLast, first, high, lower, lowest]
    have value : (((0xF0 + n / 262144) % 8 * 64 + n / 4096 % 64) * 64 + n / 64 % 64) * 64 + n % 64 = n := by omega
    rw [value, back]

theorem pieces_encode (text : List Char) : pieces (text.flatMap encodeChar) = text.map .char := by
  induction text with
  | nil => simp [pieces]
  | cons c text ih => rw [List.flatMap_cons, pieces_encodeChar, ih, List.map_cons]

/-- The bytes of a text are UTF-8, and the text is read from them. -/
theorem strict?_encode (s : String) : strict? (encode s) = some s := by
  have chars : (s.toList.map Piece.char).mapM Piece.char? = some s.toList := by
    induction s.toList with
    | nil => rfl
    | cons c text ih => simp [Piece.char?, ih]
  rw [strict?, encode, pieces_encode, chars, Option.map_some, String.ofList_toList]

end Utf8

end SessionBroker.Text
