import SessionBroker.Text.Wildcard

/-!
# Escaped texts as patterns

Whoever reads an escaped text as a pattern meets its characters one by one, each as itself: under a mark where it
would not stand for itself, and plain where it does. To take the marks away is to forget how each character was
met, so an escaped text determines the text it was made of.
-/

namespace SessionBroker.Text.Wildcard

/-- The characters that stand for others in a pattern. -/
def wildcards : List Char := ['[', ']', '*', '?']

/-- The token stands for its character alone; if `blanks` is set, no plain one is blank. -/
def Token.IsLiteral (blanks : Bool) : Token → Prop
  | .literal _ => True
  | .plain c => c ∉ wildcards ∧ (blanks → isBlank c = false)
  | .dangling => False

/-- How a character of an escaped text is met. -/
def met (blanks : Bool) (c : Char) : Token := if needsMark blanks c then .literal c else .plain c

@[simp] theorem char_met (blanks : Bool) (c : Char) : (met blanks c).char = c := by
  unfold met
  split <;> rfl

theorem needsMark_mark (blanks : Bool) : needsMark blanks mark = true := by
  simp [needsMark, isSpecial]

/-- A character that needs no mark is no mark, no wildcard, and no blank where blanks count. -/
theorem isLiteral_met (blanks : Bool) (c : Char) : (met blanks c).IsLiteral blanks := by
  unfold met
  by_cases needs : needsMark blanks c = true
  · rw [if_pos needs]
    trivial
  · rw [if_neg needs]
    simp only [needsMark, isSpecial, Bool.or_eq_true, Bool.and_eq_true, beq_iff_eq, not_or, not_and,
      Bool.not_eq_true] at needs
    obtain ⟨⟨⟨⟨⟨open_, close⟩, star⟩, one⟩, -⟩, blank⟩ := needs
    refine ⟨?_, blank⟩
    simp [wildcards, open_, close, star, one]

/-! ## Reading from the left -/

theorem scan_marked (c : Char) (rest : List Char) : scan (mark :: c :: rest) = .literal c :: scan rest := by
  simp [scan]

theorem scan_plain {c : Char} (plain : c ≠ mark) (rest : List Char) :
    scan (c :: rest) = .plain c :: scan rest := by
  cases rest with
  | nil => simp [scan, plain]
  | cons d rest => simp [scan, plain]

/-- Where one character ends the next one begins, so no mark is taken for an escaped one. -/
theorem scan_escape (blanks : Bool) (text : List Char) :
    scan (escape blanks text) = text.map (met blanks) := by
  induction text with
  | nil => rfl
  | cons c rest ih =>
    by_cases needs : needsMark blanks c = true
    · have first : met blanks c = .literal c := if_pos needs
      rw [escape, if_pos needs, scan_marked, ih, List.map_cons, first]
    · have first : met blanks c = .plain c := if_neg needs
      have plain : c ≠ mark := by
        intro same
        exact needs (same ▸ needsMark_mark blanks)
      rw [escape, if_neg needs, scan_plain plain, ih, List.map_cons, first]

/-- What is left of a text without its marks is what a reader meets, however it is met. -/
theorem unescape_eq (s : List Char) : unescape s = (scan s).map Token.char := by
  fun_induction unescape s with
  | case1 => rfl
  | case2 c =>
    by_cases isMark : c = mark
    · simp [scan, isMark, Token.char]
    · simp [scan, isMark, Token.char]
  | case3 c d rest isMark ih =>
    obtain rfl : c = mark := by simpa using isMark
    rw [scan_marked, List.map_cons, ih]
    rfl
  | case4 c d rest isPlain ih =>
    have plain : c ≠ mark := by simpa using isPlain
    rw [scan_plain plain, List.map_cons, ih]
    rfl

theorem unescape_escape (blanks : Bool) (text : List Char) : unescape (escape blanks text) = text := by
  rw [unescape_eq, scan_escape, List.map_map]
  calc text.map (Token.char ∘ met blanks) = text.map id := List.map_congr_left fun c _ => char_met blanks c
    _ = text := List.map_id text

/-- Escaping is taken back by unescaping. A reader meets an escaped text as exactly the characters of the text, none
of them as a wildcard, nor as a blank if blanks are escaped, and no mark is left dangling; so no two texts are
escaped alike. -/
theorem escaped_reads_literally (blanks : Bool) (text : List Char) :
    unescape (escape blanks text) = text ∧
      (∀ token ∈ scan (escape blanks text), token.IsLiteral blanks) ∧
      (scan (escape blanks text)).map Token.char = text ∧
      ∀ blanks' other, escape blanks' other = escape blanks text → other = text := by
  refine ⟨unescape_escape blanks text, ?_, ?_, ?_⟩
  · rw [scan_escape]
    intro token there
    obtain ⟨c, -, rfl⟩ := List.mem_map.mp there
    exact isLiteral_met blanks c
  · rw [← unescape_eq]
    exact unescape_escape blanks text
  · intro blanks' other same
    rw [← unescape_escape blanks' other, same, unescape_escape]

/-- A mark before a wildcard is escaped apart from it: the reader meets a mark and then the wildcard. -/
example : scan (escape false ['\x60', '[', 'a']) = [.literal '\x60', .literal '[', .plain 'a'] := by decide

end SessionBroker.Text.Wildcard
