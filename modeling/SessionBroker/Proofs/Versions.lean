import Mathlib.Data.Nat.Digits.Defs
import SessionBroker.Engine.Version
import SessionBroker.Proofs.Margins
import SessionBroker.Proofs.Texts

/-!
# Texts of versions

The texts that are read as versions are described without their reader. A number is spelled by digits, at least one and
any number of leading zeros among them, perhaps behind a plus sign. A version is spelled by one number, or by two with a
point between them. There are no points in numbers, so this is the first point; nor are there blanks, so blanks may
stand around a version but not inside it. What a text is read as are the numbers that it spells, and by these numbers
versions compare.
-/

namespace SessionBroker

namespace Text.Unsigned

/-- Characters that spell a number: digits from 0 to 9, at least one, perhaps behind a plus sign. -/
def Spells (s : List Char) (n : Nat) : Prop :=
  ∃ digits, (s = digits ∨ s = '+' :: digits) ∧ digits ≠ [] ∧ (∀ c ∈ digits, '0' ≤ c ∧ c ≤ '9') ∧
    n = Nat.ofDigits 10 (digits.reverse.map fun c => c.toNat - '0'.toNat)

variable {s : List Char} {n bound : Nat}

theorem isDigit_iff {c : Char} : isDigit c = true ↔ '0' ≤ c ∧ c ≤ '9' := by
  simp [isDigit]

theorem value_eq_ofDigits (digits : List Char) :
    value digits = Nat.ofDigits 10 (digits.reverse.map fun c => c.toNat - '0'.toNat) := by
  rw [Nat.ofDigits_eq_foldr, List.foldr_map, List.foldr_reverse, value]
  congr 1
  funext n c
  rw [digit, Nat.add_comm, Nat.mul_comm]
  rfl

/-- Digits stand for themselves, since none of them is a plus sign. -/
theorem dropPlus_digits {digits : List Char} (areDigits : ∀ c ∈ digits, '0' ≤ c ∧ c ≤ '9') :
    dropPlus digits = digits := by
  unfold dropPlus
  split
  · have digit := areDigits '+' List.mem_cons_self
    exact absurd digit (by decide)
  · rfl

theorem dropPlus_eq {digits : List Char} (same : dropPlus s = digits) : s = digits ∨ s = '+' :: digits := by
  unfold dropPlus at same
  split at same
  · exact .inr (same ▸ rfl)
  · exact .inl same

theorem parse?_eq_some_iff : parse? bound s = some n ↔ Spells s n ∧ n < bound := by
  constructor
  · intro read
    simp only [parse?] at read
    split at read
    · cases read
    · next digits =>
      simp only [Bool.or_eq_true, List.isEmpty_iff, Bool.not_eq_true', not_or, Bool.not_eq_false,
        List.all_eq_true] at digits
      split at read
      · next small =>
        cases read
        refine ⟨⟨dropPlus s, dropPlus_eq rfl, digits.1, ?_, value_eq_ofDigits _⟩, small⟩
        exact fun c here => isDigit_iff.mp (digits.2 c here)
      · cases read
  · rintro ⟨⟨digits, spelled, some, areDigits, rfl⟩, small⟩
    have body : dropPlus s = digits := by
      rcases spelled with rfl | rfl
      · exact dropPlus_digits areDigits
      · rfl
    have all : digits.all isDigit = true :=
      List.all_eq_true.mpr fun c here => isDigit_iff.mpr (areDigits c here)
    rw [← value_eq_ofDigits] at small ⊢
    simp [parse?, body, some, all, small]

theorem spells_render (n : Nat) : Spells (render n) n := by
  obtain ⟨c, rest, shown, -⟩ := render_eq_cons n
  refine ⟨render n, .inl rfl, by simp [shown], fun c here => isDigit_iff.mp (isDigit_of_mem_render here), ?_⟩
  rw [← value_eq_ofDigits]
  exact (value_render n).symm

/-- Characters spell at most one number. -/
theorem Spells.unique {m : Nat} (spells : Spells s m) (spells' : Spells s n) : m = n := by
  have read : parse? (m + n + 1) s = some m := parse?_eq_some_iff.mpr ⟨spells, by omega⟩
  have read' : parse? (m + n + 1) s = some n := parse?_eq_some_iff.mpr ⟨spells', by omega⟩
  exact Option.some.inj (read.symm.trans read')

/-- A number is spelled by digits and plus signs. -/
theorem Spells.mem (spells : Spells s n) {c : Char} (here : c ∈ s) : c = '+' ∨ '0' ≤ c ∧ c ≤ '9' := by
  obtain ⟨digits, rfl | rfl, -, areDigits, -⟩ := spells
  · exact .inr (areDigits c here)
  · rcases List.mem_cons.mp here with sign | digit
    · exact .inl sign
    · exact .inr (areDigits c digit)

theorem Spells.not_mem_point (spells : Spells s n) : '.' ∉ s := by
  intro here
  have other : ¬('.' = '+' ∨ '0' ≤ '.' ∧ '.' ≤ '9') := by decide
  exact other (spells.mem here)

theorem not_isBlank_of_digit {c : Char} (digit : '0' ≤ c ∧ c ≤ '9') : isBlank c = false := by
  have low : 48 ≤ c.toNat := digit.1
  have high : c.toNat ≤ 57 := digit.2
  simp only [isBlank, Bool.or_eq_false_iff, Bool.and_eq_false_iff, decide_eq_false_iff_not, beq_eq_false_iff_ne]
  omega

theorem Spells.solid (spells : Spells s n) : ∀ c ∈ s, isBlank c = false := by
  intro c here
  rcases spells.mem here with rfl | digit
  · decide
  · exact not_isBlank_of_digit digit

end Text.Unsigned

namespace Version

open Text

/-- Characters that spell a version: a major number alone, with 0 as its minor number, or both numbers with a point
between them. -/
inductive Spells : List Char → Nat → Nat → Prop where
  | major {s : List Char} {m : Nat} : Unsigned.Spells s m → Spells s m 0
  | both {front back : List Char} {m n : Nat} : Unsigned.Spells front m → Unsigned.Spells back n →
      Spells (front ++ '.' :: back) m n

/-- A text that spells a version once the blanks around it are removed. -/
def Written (s : String) (major minor : Nat) : Prop :=
  ∃ before core after, s.toList = before ++ (core ++ after) ∧ before.all isBlank = true ∧ after.all isBlank = true ∧
    Spells core major minor

variable {s t : String} {v w : Version} {cs : List Char} {m n : Nat}

/-! ## The point -/

theorem splitPoint_of_not_mem (none : '.' ∉ cs) : splitPoint cs = (cs, Option.none) := by
  induction cs with
  | nil => rfl
  | cons c rest ih =>
    obtain ⟨other, none⟩ := not_or.mp (List.mem_cons.not.mp none)
    rw [splitPoint, if_neg (Ne.symm other), ih none]

theorem splitPoint_append {front : List Char} (none : '.' ∉ front) (back : List Char) :
    splitPoint (front ++ '.' :: back) = (front, some back) := by
  induction front with
  | nil => rfl
  | cons c rest ih =>
    obtain ⟨other, none⟩ := not_or.mp (List.mem_cons.not.mp none)
    rw [List.cons_append, splitPoint, if_neg (Ne.symm other), ih none]

/-- Either there is no point, or the text is split at one. -/
theorem splitPoint_cases (cs : List Char) : splitPoint cs = (cs, none) ∨
    ∃ front back, cs = front ++ '.' :: back ∧ splitPoint cs = (front, some back) := by
  by_cases point : '.' ∈ cs
  · obtain ⟨front, back, rfl, none⟩ := List.eq_append_cons_of_mem point
    exact .inr ⟨front, back, rfl, splitPoint_append none back⟩
  · exact .inl (splitPoint_of_not_mem point)

/-- Characters spell at most one version, since numbers have no point in them. -/
theorem Spells.unique {m' n' : Nat} (spells : Spells cs m n) (spells' : Spells cs m' n') : m = m' ∧ n = n' := by
  cases spells with
  | major first =>
    have whole := splitPoint_of_not_mem first.not_mem_point
    cases spells' with
    | major first' => exact ⟨first.unique first', rfl⟩
    | both first' => exact absurd (by simp) first.not_mem_point
  | @both front back _ _ first second =>
    have split := splitPoint_append first.not_mem_point back
    generalize whole : front ++ '.' :: back = cs at spells' split
    cases spells' with
    | major first' => exact absurd (by simp [← whole]) first'.not_mem_point
    | both first' second' =>
      rw [splitPoint_append first'.not_mem_point] at split
      cases split
      exact ⟨first.unique first', second.unique second'⟩

/-! ## Reading -/

theorem component?_eq_some_iff {u : UInt32} : component? cs = some u ↔ Unsigned.Spells cs u.toNat := by
  rw [component?, Option.map_eq_some_iff]
  constructor
  · rintro ⟨n, read, rfl⟩
    obtain ⟨spells, small⟩ := Unsigned.parse?_eq_some_iff.mp read
    have whole : n.toUInt32.toNat = n := Nat.mod_eq_of_lt small
    rwa [whole]
  · intro spells
    exact ⟨u.toNat, Unsigned.parse?_eq_some_iff.mpr ⟨spells, u.toNat_lt⟩, UInt32.ofNat_toNat⟩

theorem component?_zero : component? ['0'] = some 0 := by decide

theorem ofChars?_eq_some_iff : ofChars? cs = some v ↔ Spells (trim cs) v.major.toNat v.minor.toNat := by
  constructor
  · intro read
    unfold ofChars? at read
    rcases splitPoint_cases (trim cs) with whole | ⟨front, back, parts, split⟩
    · rw [whole] at read
      obtain ⟨major, first, read⟩ := Option.bind_eq_some_iff.mp read
      rw [Option.getD_none, component?_zero] at read
      cases read
      exact .major (component?_eq_some_iff.mp first)
    · rw [split] at read
      obtain ⟨major, first, read⟩ := Option.bind_eq_some_iff.mp read
      obtain ⟨minor, second, read⟩ := Option.bind_eq_some_iff.mp read
      cases read
      rw [parts]
      exact .both (component?_eq_some_iff.mp first) (component?_eq_some_iff.mp second)
  · intro spells
    obtain ⟨major, minor⟩ := v
    generalize core : trim cs = s at spells
    unfold ofChars?
    rw [core]
    generalize number : minor.toNat = n at spells
    cases spells with
    | major first =>
      obtain rfl : minor = 0 := UInt32.toNat_inj.mp number
      rw [splitPoint_of_not_mem first.not_mem_point]
      simp [component?_eq_some_iff.mpr first, component?_zero]
    | both first second =>
      subst number
      rw [splitPoint_append first.not_mem_point]
      simp [component?_eq_some_iff.mpr first, component?_eq_some_iff.mpr second]

theorem Spells.solid (spells : Spells cs m n) : ∀ c ∈ cs, isBlank c = false := by
  cases spells with
  | major first => exact first.solid
  | both first second =>
    intro c here
    rcases List.mem_append.mp here with front | back
    · exact first.solid c front
    · rcases List.mem_cons.mp back with rfl | back
      · decide
      · exact second.solid c back

theorem trim_written {before core after : List Char} (whole : s.toList = before ++ (core ++ after))
    (blank : before.all isBlank = true) (blank' : after.all isBlank = true) (spells : Spells core m n) :
    trim s.toList = core := by
  rw [whole, trim_margins spells.solid blank blank']

/-- A text spells at most one version, since there are no blanks in it. -/
theorem Written.unique {m' n' : Nat} (written : Written s m n) (written' : Written s m' n') : m = m' ∧ n = n' := by
  obtain ⟨_, core, _, whole, blank, blank', spells⟩ := written
  obtain ⟨_, core', _, whole', blank₁, blank₁', spells'⟩ := written'
  obtain rfl : core = core' :=
    (trim_written whole blank blank' spells).symm.trans (trim_written whole' blank₁ blank₁' spells')
  exact spells.unique spells'

theorem parse?_eq_some_iff : parse? s = some v ↔ Written s v.major.toNat v.minor.toNat := by
  rw [parse?, ofChars?_eq_some_iff]
  constructor
  · intro spells
    obtain ⟨before, after, blank, blank', whole⟩ := exists_margins_trim s.toList
    exact ⟨before, _, after, whole, blank, blank', spells⟩
  · rintro ⟨before, core, after, whole, blank, blank', spells⟩
    rwa [trim_written whole blank blank' spells]

theorem written_text (v : Version) : Written v.text v.major.toNat v.minor.toNat := by
  refine ⟨[], v.chars, [], ?_, rfl, rfl, .both (Unsigned.spells_render _) (Unsigned.spells_render _)⟩
  rw [text, String.toList_ofList, List.nil_append, List.append_nil]

/-! ## Comparing -/

theorem cmp_eq (v w : Version) :
    cmp v w = (compare v.major.toNat w.major.toNat).then (compare v.minor.toNat w.minor.toNat) := by
  rw [cmp, UInt32.compare_eq_toNat_compare_toNat, UInt32.compare_eq_toNat_compare_toNat]

theorem lt_iff : v < w ↔
    v.major.toNat < w.major.toNat ∨ v.major.toNat = w.major.toNat ∧ v.minor.toNat < w.minor.toNat := by
  rw [UInt32.toNat_inj]
  exact Iff.rfl

theorem eq_iff : v = w ↔ v.major.toNat = w.major.toNat ∧ v.minor.toNat = w.minor.toNat := by
  obtain ⟨major, minor⟩ := v
  obtain ⟨major', minor'⟩ := w
  rw [mk.injEq, UInt32.toNat_inj, UInt32.toNat_inj]

/-- The text of a version is read as that version. A text is read just if it spells a version of numbers below 2³²,
blanks around it aside, and then it is read as the version of these numbers. So two texts that are read compare by the
major numbers that they spell, and if these are equal by the minor ones, however they are spelled. -/
theorem texts_spell_versions :
    (∀ v, parse? v.text = some v) ∧
      (∀ s, (∃ v, parse? s = some v) ↔ ∃ major minor, Written s major minor ∧ major < 2 ^ 32 ∧ minor < 2 ^ 32) ∧
      (∀ s v, parse? s = some v ↔ Written s v.major.toNat v.minor.toNat) ∧
      ∀ s t v w, parse? s = some v → parse? t = some w →
        ∀ major minor major' minor', Written s major minor → Written t major' minor' →
          cmp v w = (compare major major').then (compare minor minor') ∧
          (v < w ↔ major < major' ∨ major = major' ∧ minor < minor') ∧
          (v = w ↔ major = major' ∧ minor = minor') := by
  refine ⟨fun v => parse?_eq_some_iff.mpr (written_text v), ?accepts, fun s v => parse?_eq_some_iff, ?compares⟩
  case accepts =>
    intro s
    constructor
    · rintro ⟨v, read⟩
      exact ⟨_, _, parse?_eq_some_iff.mp read, v.major.toNat_lt, v.minor.toNat_lt⟩
    · rintro ⟨major, minor, written, small, small'⟩
      refine ⟨⟨major.toUInt32, minor.toUInt32⟩, parse?_eq_some_iff.mpr ?_⟩
      have whole : major.toUInt32.toNat = major := Nat.mod_eq_of_lt small
      have whole' : minor.toUInt32.toNat = minor := Nat.mod_eq_of_lt small'
      rwa [whole, whole']
  case compares =>
    intro s t v w read read' major minor major' minor' written written'
    obtain ⟨rfl, rfl⟩ := written.unique (parse?_eq_some_iff.mp read)
    obtain ⟨rfl, rfl⟩ := written'.unique (parse?_eq_some_iff.mp read')
    exact ⟨cmp_eq v w, lt_iff, eq_iff⟩

/-- One text is the smaller one by its characters, and yet spells the later version. -/
theorem texts_spell_versions_sample :
    parse? " +007.010\t" = some ⟨7, 10⟩ ∧ parse? "7.9" = some ⟨7, 9⟩ ∧ " +007.010\t" < "7.9" ∧
      cmp ⟨7, 10⟩ ⟨7, 9⟩ = .gt ∧ (⟨7, 9⟩ : Version) < ⟨7, 10⟩ := by
  have read : parse? " +007.010\t" = some ⟨7, 10⟩ := by decide +kernel
  have read' : parse? "7.9" = some ⟨7, 9⟩ := by decide +kernel
  obtain ⟨-, -, spelled, compares⟩ := texts_spell_versions
  have written : Written " +007.010\t" 7 10 := (spelled _ _).mp read
  have written' : Written "7.9" 7 9 := (spelled _ _).mp read'
  obtain ⟨order, -, -⟩ := compares _ _ _ _ read read' 7 10 7 9 written written'
  obtain ⟨-, later, -⟩ := compares _ _ _ _ read' read 7 9 7 10 written' written
  refine ⟨read, read', by decide +kernel, ?_, later.mpr (.inr ⟨rfl, by decide⟩)⟩
  rw [order]
  decide

end Version

end SessionBroker
