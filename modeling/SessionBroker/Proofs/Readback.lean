import SessionBroker.Json.Record
import SessionBroker.Json.Writer
import SessionBroker.Proofs.Texts

/-!
# Compact documents that are read back

What the compact form of a string, a number or a truth value holds is read back from it, whatever comma or brace
follows. So a record is read from the compact text of an object member by member, in whatever order they stand.
-/

namespace SessionBroker.Json

open Text

namespace Scan

theorem skipSpace_cons {c : Char} (solid : isSpace c = false) (s : List Char) : skipSpace (c :: s) = c :: s := by
  rw [skipSpace, List.dropWhile_cons, if_neg (by simp [solid])]

/-! ## Strings -/

theorem hexValue?_hexDigit : ∀ n < 16, hexValue? (hexDigit n) = some n := by decide

theorem hex4_hexDigit {n : Nat} (small : n < 256) (rest : List Char) :
    hex4 ('0' :: '0' :: hexDigit (n / 16) :: hexDigit (n % 16) :: rest) = .ok (n, rest) := by
  have high := hexValue?_hexDigit (n / 16) (by omega)
  have low := hexValue?_hexDigit (n % 16) (by omega)
  have zero : hexValue? '0' = some 0 := by decide
  have sizes := Char.utf8Size_pos (hexDigit (n / 16))
  have sizes' := Char.utf8Size_pos (hexDigit (n % 16))
  have ascii : ('0' : Char).utf8Size = 1 := by decide
  unfold hex4
  rw [if_neg]
  · simp [high, low, zero]
    omega
  · simp [ascii]
    omega

/-- A character of a small number is read from the escape with that number. -/
theorem unicode_hexDigit {n : Nat} (small : n < 256) (rest : List Char) :
    unicode ('0' :: '0' :: hexDigit (n / 16) :: hexDigit (n % 16) :: rest) = .ok (Char.ofNat n, rest) := by
  have low : ¬0xDC00 ≤ n := by omega
  have high : n < 0xD800 := by omega
  unfold unicode
  rw [hex4_hexDigit small]
  simp [bind, Except.bind, low, high, pure, Except.pure]

/-- A character stands for itself, or an escape stands for it. -/
theorem escapeChar_cases (c : Char) :
    (escapeChar c = [c] ∧ c ≠ '"' ∧ c ≠ '\\' ∧ ¬c.toNat < 0x20) ∨
      ∃ e, escapeChar c = '\\' :: e ∧ ∀ rest, escape (e ++ rest) = .ok (c, rest) := by
  unfold escapeChar
  by_cases quote : c = '"'
  · rw [if_pos quote]
    exact .inr ⟨['"'], rfl, fun rest => by rw [quote]; rfl⟩
  by_cases backslash : c = '\\'
  · rw [if_neg quote, if_pos backslash]
    exact .inr ⟨['\\'], rfl, fun rest => by rw [backslash]; rfl⟩
  by_cases printed : 0x20 ≤ c.toNat
  · rw [if_neg quote, if_neg backslash, if_pos printed]
    exact .inl ⟨rfl, quote, backslash, by omega⟩
  rw [if_neg quote, if_neg backslash, if_neg printed]
  have back := Char.ofNat_toNat c
  right
  split
  case h_6 =>
    refine ⟨_, rfl, ?_⟩
    intro rest
    have named :
        unicode ('0' :: '0' :: hexDigit (c.toNat / 16) :: hexDigit (c.toNat % 16) :: rest) = .ok (c, rest) := by
      rw [unicode_hexDigit (by omega), back]
    exact named
  all_goals
    rename_i number
    rw [number] at back
    exact ⟨_, rfl, fun rest => by rw [← back]; rfl⟩

theorem stringBody_escapeChar (fuel : Nat) (read : List Char) (c : Char) (s : List Char) :
    stringBody (fuel + 1) read (escapeChar c ++ s) = stringBody fuel (c :: read) s := by
  rcases escapeChar_cases c with ⟨itself, notQuote, notBackslash, printed⟩ | ⟨e, escaped, reads⟩
  · rw [itself, List.singleton_append, stringBody, if_neg notQuote, if_neg notBackslash, if_neg printed]
  · rw [escaped, List.cons_append, stringBody, if_neg (by decide), if_pos rfl, reads]

theorem stringBody_escaped (text : List Char) (rest : List Char) :
    ∀ (fuel : Nat) (read : List Char), text.length < fuel →
      stringBody fuel read (text.flatMap escapeChar ++ '"' :: rest) = .ok (read.reverse ++ text, rest) := by
  induction text with
  | nil =>
    intro fuel read enough
    obtain ⟨fuel, rfl⟩ := Nat.exists_eq_add_one_of_ne_zero (Nat.ne_of_gt enough)
    simp [stringBody]
  | cons c text ih =>
    intro fuel read enough
    obtain ⟨fuel, rfl⟩ := Nat.exists_eq_add_one_of_ne_zero (Nat.ne_of_gt (Nat.zero_lt_of_lt enough))
    have enough : text.length < fuel := Nat.lt_of_succ_lt_succ enough
    rw [List.flatMap_cons, List.append_assoc, stringBody_escapeChar, ih fuel (c :: read) enough,
      List.reverse_cons, List.append_assoc, List.singleton_append]

theorem length_le_escaped (text : List Char) : text.length ≤ (text.flatMap escapeChar).length := by
  induction text with
  | nil => exact Nat.le_refl 0
  | cons c text ih =>
    have one : 1 ≤ (escapeChar c).length := by
      rcases escapeChar_cases c with ⟨itself, -⟩ | ⟨e, escaped, -⟩
      · rw [itself]
        exact Nat.le_refl 1
      · rw [escaped]
        exact Nat.succ_le_succ (Nat.zero_le _)
    rw [List.flatMap_cons, List.length_append, List.length_cons]
    omega

/-- A string is read from its text, after the opening quote. -/
theorem string_escaped (s : String) (rest : List Char) :
    string (s.toList.flatMap escapeChar ++ '"' :: rest) = .ok (s, rest) := by
  have enough : s.toList.length < (s.toList.flatMap escapeChar ++ '"' :: rest).length + 1 := by
    have fits := length_le_escaped s.toList
    rw [List.length_append]
    omega
  unfold string
  rw [stringBody_escaped s.toList rest _ [] enough]
  change Except.ok (String.ofList s.toList, rest) = .ok (s, rest)
  rw [String.ofList_toList]

/-! ## Leaves -/

/-- What follows a value inside a compact document. -/
def Closed (s : List Char) : Prop := ∃ rest, s = ',' :: rest ∨ s = '\x7d' :: rest

theorem digits64_digits (digits : List Char) (rest : List Char) (areDigits : ∀ c ∈ digits, Unsigned.isDigit c = true) :
    ∀ (n taken : Nat), Unsigned.continued n digits < UInt64.size →
      digits64 n taken (digits ++ rest) = digits64 (Unsigned.continued n digits) (taken + digits.length) rest := by
  induction digits with
  | nil =>
    intro n taken small
    rfl
  | cons c digits ih =>
    intro n taken small
    obtain ⟨isDigit, areDigits⟩ := List.forall_mem_cons.mp areDigits
    have fits : n * 10 + Unsigned.digit c < UInt64.size := Nat.lt_of_le_of_lt (Unsigned.le_continued _ digits) small
    rw [List.cons_append, digits64, if_pos (by simp [isDigit, fits]), ih areDigits _ _ small,
      Unsigned.continued_cons, List.length_cons, Nat.add_assoc, Nat.add_comm 1]

/-- At a comma or a brace a number ends. -/
theorem digits64_closed {s : List Char} (closed : Closed s) (n taken : Nat) : digits64 n taken s = (n, taken, s) := by
  obtain ⟨rest, rfl | rfl⟩ := closed
  · rfl
  · rfl

/-- A natural number is read from its digits. -/
theorem number_render {n : Nat} (small : n < UInt64.size) {rest : List Char} (closed : Closed rest) :
    number true (Unsigned.render n ++ rest) = .ok (.natural n, rest) := by
  obtain ⟨c, digits, shown, leading⟩ := Unsigned.render_eq_cons n
  have areDigits : ∀ d ∈ c :: digits, Unsigned.isDigit d = true := by
    intro d here
    exact Unsigned.isDigit_of_mem_render (shown ▸ here)
  have value : Unsigned.continued 0 (c :: digits) = n := shown ▸ Unsigned.value_render n
  have isDigit : Unsigned.isDigit c = true := areDigits c List.mem_cons_self
  have scanned : (if c = '0' then (0, 1, digits ++ rest) else digits64 0 0 (c :: (digits ++ rest))) =
      (n, (c :: digits).length, rest) := by
    by_cases zero : c = '0'
    · obtain ⟨rfl, rfl⟩ := leading zero
      rw [if_pos zero]
      rfl
    · rw [if_neg zero, ← List.cons_append, digits64_digits (c :: digits) rest areDigits 0 0 (value ▸ small), value,
        digits64_closed closed, Nat.zero_add]
  rw [shown, List.cons_append, number]
  simp only [isDigit, Bool.not_true, Bool.false_eq_true, if_false, scanned]
  obtain ⟨rest, rfl | rfl⟩ := closed
  · rfl
  · rfl

theorem text_render (s : String) (rest : List Char) : text ((Value.string s).render ++ rest) = .ok (s, rest) := by
  rw [Value.render, renderString, List.cons_append, List.append_assoc, List.singleton_append, text,
    skipSpace_cons (by decide)]
  exact string_escaped s rest

theorem truth_render (b : Bool) (rest : List Char) : truth ((Value.bool b).render ++ rest) = .ok (b, rest) := by
  cases b with
  | true => rfl
  | false => rfl

theorem not_isSpace_of_isDigit {c : Char} (isDigit : Unsigned.isDigit c = true) : isSpace c = false := by
  apply Bool.eq_false_iff.mpr
  intro space
  simp only [isSpace, Bool.or_eq_true, beq_iff_eq] at space
  rcases space with ((rfl | rfl) | rfl) | rfl <;> exact absurd isDigit (by decide)

theorem natural_render {bound n : Nat} (small : n < bound) (fits : bound ≤ UInt64.size) {rest : List Char}
    (closed : Closed rest) : natural bound ((Value.ofNat n).render ++ rest) = .ok (n, rest) := by
  have read := number_render (Nat.lt_of_lt_of_le small fits) closed
  obtain ⟨c, digits, shown, -⟩ := Unsigned.render_eq_cons n
  have isDigit : Unsigned.isDigit c = true := by
    apply Unsigned.isDigit_of_mem_render (n := n)
    rw [shown]
    exact List.mem_cons_self
  rw [shown, List.cons_append] at read
  rw [Value.ofNat, Value.render, Number.render, shown, List.cons_append, natural,
    skipSpace_cons (not_isSpace_of_isDigit isDigit)]
  split
  next minus =>
    obtain ⟨rfl, -⟩ := List.cons.inj minus
    exact absurd isDigit (by decide)
  next c' rest' _ here =>
    obtain ⟨rfl, rfl⟩ := List.cons.inj here
    simp [isDigit, read, bind, Except.bind, small, pure, Except.pure]
  next nothing => cases nothing

/-! ## Records -/

section Records

variable {σ β : Type}

/-- A member with some value is read into a record, and makes something of it. -/
def Fields.Reads (f : Fields σ) (name : String) (value : Value) (put : σ → σ) : Prop :=
  ∀ r rest, Closed rest → f.read name r (value.render ++ rest) = .ok (put r, rest)

variable {f : Fields σ} {name : String} {value : Value} {put : σ → σ}

/-- A member, and the comma before it unless it is the first one. -/
def memberText (first : Bool) (name : String) (value : Value) : List Char :=
  (if first then [] else [',']) ++ (renderString name ++ ':' :: value.render)

theorem separator_memberText (first : Bool) (name : String) (value : Value) (s : List Char) :
    separator '\x7d' first (memberText first name value ++ s) =
      .ok (true, '"' :: (name.toList.flatMap escapeChar ++ '"' :: ':' :: (value.render ++ s))) := by
  cases first with
  | true => simp [memberText, renderString, separator, skipSpace_cons (c := '"') (by decide)]
  | false =>
    simp [memberText, renderString, separator, skipSpace_cons (c := ',') (by decide),
      skipSpace_cons (c := '"') (by decide)]

/-- One member is read, and the others after it. -/
theorem named_memberText (reads : f.Reads name value put) (known : name ∈ f.names) {seen : List String}
    (fresh : name ∉ seen) (fuel : Nat) (first : Bool) (r : σ) {s : List Char} (closed : Closed s) :
    named f (fuel + 1) first seen r (memberText first name value ++ s) =
      named f fuel false (name :: seen) (put r) s := by
  have colon : colon (':' :: (value.render ++ s)) = .ok ((), value.render ++ s) := by
    rw [colon, skipSpace_cons (by decide)]
    rfl
  rw [named, separator_memberText]
  simp [bind, Except.bind, string_escaped, known, fresh, colon, reads r s closed]

theorem named_brace {seen : List String} (complete : f.required = true → ∀ n ∈ f.names, n ∈ seen) (fuel : Nat)
    (first : Bool) (r : σ) (s : List Char) : named f (fuel + 1) first seen r ('\x7d' :: s) = .ok (r, s) := by
  have separator : separator '\x7d' first ('\x7d' :: s) = .ok (false, s) := by
    rw [separator, skipSpace_cons (by decide)]
    rfl
  have nothing : ¬(f.required && !f.names.all seen.contains) = true := by
    simpa using complete
  rw [named, separator]
  simp [bind, Except.bind, nothing, pure, Except.pure]

/-! ### All members -/

variable (name : β → String) (value : β → Value)

/-- The members of some things one after the other, with commas between them. -/
def membersText (first : Bool) : List β → List Char
  | [] => []
  | b :: bs => memberText first (name b) (value b) ++ membersText false bs

theorem renderMembers_eq (bs : List β) :
    Value.renderMembers (bs.map fun b => (name b, value b)) = membersText name value true bs := by
  induction bs with
  | nil => rfl
  | cons b bs ih =>
    cases bs with
    | nil => simp [Value.renderMembers, membersText, memberText]
    | cons c bs =>
      have comma : membersText name value false (c :: bs) = ',' :: membersText name value true (c :: bs) := rfl
      rw [membersText, comma, ← ih]
      simp [Value.renderMembers, memberText]

theorem length_le_membersText (first : Bool) (bs : List β) : bs.length ≤ (membersText name value first bs).length := by
  induction bs generalizing first with
  | nil => exact Nat.le_refl 0
  | cons b bs ih =>
    have others := ih false
    rw [membersText, List.length_append, List.length_cons]
    have one : 1 ≤ (memberText first (name b) (value b)).length := by
      simp [memberText, renderString]
      omega
    omega

theorem closed_membersText (bs : List β) (s : List Char) :
    Closed (membersText name value false bs ++ '\x7d' :: s) := by
  cases bs with
  | nil => exact ⟨s, .inr rfl⟩
  | cons b bs => exact ⟨_, .inl rfl⟩

variable {name value} {put : β → σ → σ}

theorem named_membersText (bs : List β) (reads : ∀ b ∈ bs, f.Reads (name b) (value b) (put b))
    (known : ∀ b ∈ bs, name b ∈ f.names) (s : List Char) :
    ∀ (fuel : Nat) (first : Bool) (seen : List String) (r : σ), bs.length < fuel → (bs.map name).Nodup →
      (∀ b ∈ bs, name b ∉ seen) →
      (f.required = true → ∀ n ∈ f.names, n ∈ seen ∨ n ∈ bs.map name) →
      named f fuel first seen r (membersText name value first bs ++ '\x7d' :: s) =
        .ok (bs.foldl (fun r b => put b r) r, s) := by
  induction bs with
  | nil =>
    intro fuel first seen r enough _ _ complete
    obtain ⟨fuel, rfl⟩ := Nat.exists_eq_add_one_of_ne_zero (Nat.ne_of_gt enough)
    apply named_brace
    intro required n here
    simpa using complete required n here
  | cons b bs ih =>
    intro fuel first seen r enough distinct fresh complete
    obtain ⟨fuel, rfl⟩ := Nat.exists_eq_add_one_of_ne_zero (Nat.ne_of_gt (Nat.zero_lt_of_lt enough))
    obtain ⟨readsFirst, reads⟩ := List.forall_mem_cons.mp reads
    obtain ⟨knownFirst, known⟩ := List.forall_mem_cons.mp known
    obtain ⟨freshFirst, fresh⟩ := List.forall_mem_cons.mp fresh
    rw [List.map_cons, List.nodup_cons] at distinct
    rw [membersText, List.append_assoc,
      named_memberText readsFirst knownFirst freshFirst fuel first r (closed_membersText name value bs s)]
    apply ih reads known fuel false (name b :: seen) (put b r) (Nat.lt_of_succ_lt_succ enough) distinct.2
    · intro b' here
      rw [List.mem_cons, not_or]
      refine ⟨?_, fresh b' here⟩
      intro same
      exact distinct.1 (same ▸ List.mem_map_of_mem here)
    · intro required n here
      rcases complete required n here with old | new
      · exact .inl (List.mem_cons_of_mem _ old)
      · rw [List.map_cons, List.mem_cons] at new
        rcases new with rfl | new
        · exact .inl List.mem_cons_self
        · exact .inr new

variable (name value put)

/-- An object's compact text is read member by member: what a record becomes is what each member makes of it in turn. -/
theorem record_render {bs : List β} (reads : ∀ b ∈ bs, f.Reads (name b) (value b) (put b))
    (known : ∀ b ∈ bs, name b ∈ f.names) (distinct : (bs.map name).Nodup)
    (complete : f.required = true → ∀ n ∈ f.names, n ∈ bs.map name) (r : σ) (s : List Char) :
    record f r ((Value.object (bs.map fun b => (name b, value b))).render ++ s) =
      .ok (bs.foldl (fun r b => put b r) r, s) := by
  rw [Value.render, renderMembers_eq, List.cons_append, List.append_assoc, List.singleton_append, record,
    skipSpace_cons (by decide)]
  apply named_membersText bs reads known s _ true [] r
  · have fits := length_le_membersText name value true bs
    rw [List.length_append]
    omega
  · exact distinct
  · intro b here
    exact List.not_mem_nil
  · intro required n here
    exact .inr (complete required n here)

/-- A record is read from the compact text of an object with its members, if nothing else stands there. -/
theorem whole_record_compress {bs : List β} (reads : ∀ b ∈ bs, f.Reads (name b) (value b) (put b))
    (known : ∀ b ∈ bs, name b ∈ f.names) (distinct : (bs.map name).Nodup)
    (complete : f.required = true → ∀ n ∈ f.names, n ∈ bs.map name) (r : σ) :
    whole (record f r) (Value.object (bs.map fun b => (name b, value b))).compress.toList =
      .ok (bs.foldl (fun r b => put b r) r) := by
  have read := record_render name value put reads known distinct complete r []
  rw [List.append_nil] at read
  rw [Value.compress, String.toList_ofList, whole, read]
  rfl

end Records

end Scan

end SessionBroker.Json
