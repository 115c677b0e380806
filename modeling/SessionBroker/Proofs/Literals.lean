import Mathlib.Logic.Function.Defs
import SessionBroker.Text.Quoted

/-!
# Literals and their texts

In a literal every quote of the text stands twice and everything else once, between two quotes of the literal's own.
A reader who takes quotes in pairs from the left finds each of them again, and whatever he reads at all is written in
just this way. So a literal stands for one text, a text has one literal, and nothing else is read.
-/

namespace SessionBroker.Text.Quoted

/-- How a character of the text is written in a literal. -/
def written (c : Char) : List Char := if c = '\'' then ['\'', '\''] else [c]

theorem encode_eq_flatMap (text : List Char) : encode text = text.flatMap written := by
  induction text with
  | nil => rfl
  | cons c rest ih =>
    rw [encode, List.flatMap_cons, ← ih, written]
    split <;> rfl

/-! ## Bodies -/

theorem decode_pair (rest : List Char) : decode ('\'' :: '\'' :: rest) = (decode rest).map ('\'' :: ·) := by
  simp [decode]

theorem decode_plain {c : Char} (plain : c ≠ '\'') (rest : List Char) :
    decode (c :: rest) = (decode rest).map (c :: ·) := by
  cases rest with
  | nil => simp [decode]
  | cons d rest => simp [decode, plain]

theorem decode_encode (text : List Char) : decode (encode text) = some text := by
  induction text with
  | nil => rfl
  | cons c rest ih =>
    by_cases quote : c = '\''
    · rw [encode, if_pos quote, decode_pair, ih, quote, Option.map_some]
    · rw [encode, if_neg quote, decode_plain quote, ih, Option.map_some]

/-- The reader gets past a quote only if it stands twice, as it is written. -/
theorem eq_encode_of_decode {body text : List Char} (read : decode body = some text) : body = encode text := by
  fun_induction decode body generalizing text with
  | case1 =>
    cases read
    rfl
  | case2 => cases read
  | case3 rest ih =>
    obtain ⟨text, inside, rfl⟩ := Option.map_eq_some_iff.mp read
    rw [encode, if_pos rfl, ← ih inside]
  | case4 => cases read
  | case5 c d rest plain ih =>
    obtain ⟨text, inside, rfl⟩ := Option.map_eq_some_iff.mp read
    rw [encode, if_neg plain, ← ih inside]
  | case6 c plain =>
    cases read
    have plain : c ≠ '\'' := fun quote => plain quote
    rw [encode, if_neg plain, encode]

/-! ## Literals -/

theorem parse?_quoted (body : List Char) : parse? ('\'' :: (body ++ ['\''])) = decode body := by
  simp [parse?]

/-- Whatever is read has a quote at each end, and they are two. -/
theorem quoted_of_parse? {literal text : List Char} (read : parse? literal = some text) :
    ∃ body, literal = '\'' :: (body ++ ['\'']) ∧ decode body = some text := by
  unfold parse? at read
  split at read
  · next rest =>
    split at read
    · next body last =>
      refine ⟨body.reverse, ?_, read⟩
      rw [← List.reverse_cons, ← last, List.reverse_reverse]
    · cases read
  · cases read

theorem parse?_quote (text : List Char) : parse? (quote text) = some text := by
  rw [quote, parse?_quoted, decode_encode]

theorem eq_quote_of_parse? {literal text : List Char} (read : parse? literal = some text) : literal = quote text := by
  obtain ⟨body, rfl, inside⟩ := quoted_of_parse? read
  rw [eq_encode_of_decode inside, quote]

/-- Quotes are doubled between quotes, and this can be taken back: the literal of a text is read as the text. What is
read as a text is the literal of that text, and what is no text's literal is not read. So no two texts have the same
literal. -/
theorem literals_read_back :
    (∀ text, quote text = '\'' :: (text.flatMap written ++ ['\''])) ∧
      (∀ text, parse? (quote text) = some text) ∧
      (∀ literal text, parse? literal = some text ↔ literal = quote text) ∧
      (∀ literal, parse? literal = none ↔ ∀ text, literal ≠ quote text) ∧
      Function.Injective quote := by
  have accepts (literal text : List Char) : parse? literal = some text ↔ literal = quote text :=
    ⟨eq_quote_of_parse?, fun same => same ▸ parse?_quote text⟩
  refine ⟨?_, parse?_quote, accepts, ?_, ?_⟩
  · intro text
    rw [quote, encode_eq_flatMap]
  · intro literal
    rw [Option.eq_none_iff_forall_ne_some]
    exact forall_congr' fun text => not_congr (accepts literal text)
  · intro text other same
    have both : some text = some other := by rw [← parse?_quote text, same, parse?_quote]
    exact Option.some.inj both

/-- Three quotes are no literal: the two at the ends leave one alone. Four are the literal of one. -/
example : parse? ['\'', '\'', '\''] = none ∧ parse? ['\'', '\'', '\'', '\''] = some ['\''] := by decide

end SessionBroker.Text.Quoted
