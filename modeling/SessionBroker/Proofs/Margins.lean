import Mathlib.Data.List.DropRight
import SessionBroker.Text.Blank

/-!
# Blank margins

To trim a text is to take blanks from its ends and nothing else. Afterwards no blank is left there, so it is no use to
trim it again.
-/

namespace SessionBroker.Text

variable {s before after : List Char}

/-- Nothing but blanks is taken from the end of a text. -/
theorem exists_blanks_trimEnd (s : List Char) : ∃ blanks, blanks.all isBlank = true ∧ s = trimEnd s ++ blanks := by
  refine ⟨s.rtakeWhile isBlank, ?_, List.rdropWhile_append_rtakeWhile.symm⟩
  exact List.all_eq_true.mpr fun c here => List.mem_rtakeWhile_imp here

/-- Nothing but blanks is taken from the beginning of a text. -/
theorem exists_blanks_trimStart (s : List Char) : ∃ blanks, blanks.all isBlank = true ∧ s = blanks ++ trimStart s :=
  ⟨s.takeWhile isBlank, List.all_takeWhile, List.takeWhile_append_dropWhile.symm⟩

theorem exists_margins_trim (s : List Char) : ∃ before after, before.all isBlank = true ∧ after.all isBlank = true ∧
    s = before ++ (trim s ++ after) := by
  obtain ⟨before, blank, front⟩ := exists_blanks_trimStart s
  obtain ⟨after, blank', back⟩ := exists_blanks_trimEnd (trimStart s)
  refine ⟨before, after, blank, blank', ?_⟩
  rw [trim, ← back, ← front]

/-- A trimmed text ends in no blank. -/
theorem getLast?_trimEnd (s : List Char) : (trimEnd s).getLast?.all (!isBlank ·) = true := by
  by_cases none : trimEnd s = []
  · rw [none]
    rfl
  · have last : ¬isBlank ((trimEnd s).getLast none) = true := List.rdropWhile_last_not isBlank s none
    simp [List.getLast?_eq_some_getLast none, last]

theorem trimEnd_eq_nil : trimEnd s = [] ↔ s.all isBlank := by
  simp [trimEnd, List.dropWhile_eq_nil_iff]

theorem trimStart_of_prefix {t : List Char} (h : t <+: trimStart s) : trimStart t = t := by
  cases t with
  | nil => rfl
  | cons c t =>
    obtain ⟨u, hu⟩ := h
    have first : isBlank c = false := by
      have ne : s.dropWhile isBlank ≠ [] := fun e => by simp [trimStart, e] at hu
      have head := List.head_dropWhile_not isBlank ne
      have same : (s.dropWhile isBlank).head ne = c := by
        rw [← Option.some_inj, ← List.head?_eq_some_head, ← trimStart, ← hu]
        rfl
      rwa [same] at head
    simp [trimStart, first]

theorem trim_trim (s : List Char) : trim (trim s) = trim s := by
  have start : trimStart (trim s) = trim s :=
    trimStart_of_prefix (List.rdropWhile_prefix isBlank (trimStart s))
  rw [trim, start]
  exact List.rdropWhile_idempotent _ _

/-! ## Margins put around a text -/

theorem trimStart_blanks_append (blank : before.all isBlank = true) : trimStart (before ++ s) = trimStart s :=
  List.dropWhile_append_of_pos (List.all_eq_true.mp blank)

theorem trimEnd_append_blanks (blank : after.all isBlank = true) : trimEnd (s ++ after) = trimEnd s := by
  have reversed : ∀ c ∈ after.reverse, isBlank c = true := fun c here =>
    List.all_eq_true.mp blank c (List.mem_reverse.mp here)
  rw [trimEnd, List.reverse_append, List.dropWhile_append_of_pos reversed, trimEnd]

/-- Of a text without blanks inside, the margins are what is trimmed. -/
theorem trim_margins (solid : ∀ c ∈ s, isBlank c = false) (blank : before.all isBlank = true)
    (blank' : after.all isBlank = true) : trim (before ++ (s ++ after)) = s := by
  have kept : trimEnd s = s := by
    refine List.rdropWhile_eq_self_iff.mpr fun some => ?_
    simp [solid _ (List.getLast_mem some)]
  rw [trim, trimStart_blanks_append blank]
  cases s with
  | nil =>
    have none : trimStart after = [] := List.dropWhile_eq_nil_iff.mpr (List.all_eq_true.mp blank')
    rw [List.nil_append, none, trimEnd_nil]
  | cons c rest =>
    have first : isBlank c = false := solid c List.mem_cons_self
    have whole : trimStart (c :: rest ++ after) = c :: rest ++ after := by
      simp [trimStart, first]
    rw [whole, trimEnd_append_blanks blank', kept]

end SessionBroker.Text
