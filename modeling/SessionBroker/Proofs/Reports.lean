import SessionBroker.ErrorRecord
import SessionBroker.Proofs.Margins

/-!
# What a report says

A report is read as rows: what is said of the error, and then what is said of each cause, however many there are and
further to the right by four spaces each. All rows are there, in order and unchanged, whatever texts they hold; what the
report leaves out is blank and stands at its end.
-/

namespace SessionBroker.ErrorReport

/-! ## Rows -/

/-- A text of which there is a row, unless it is empty. -/
def given (s : String) : List String := if s = "" then [] else [s]

/-- What is said of an error itself. -/
def entryRows (e : ErrorEntry) : List String :=
  [e.message] ++ e.position.toList.map ("At " ++ ·)
    ++ (given e.category).map ("    + CategoryInfo          : " ++ ·)
    ++ (given e.identifier).map ("    + FullyQualifiedErrorId : " ++ ·)

def spaces (n : Nat) : String := String.ofList (List.replicate n ' ')

/-- What is said of a cause at a level of the chain. -/
def causeRows (level : Nat) (e : ErrorEntry) : List String :=
  [spaces (4 * level) ++ "---> Caused by: " ++ e.message]
    ++ (given e.identifier).map fun s => spaces (4 * level) ++ "     (" ++ s ++ ")"

/-- What is said of an error and its causes, the outermost one at the first level. -/
def rows (r : ErrorRecord) : List String :=
  entryRows r.entry ++ (r.causes.mapIdx fun i e => causeRows (i + 1) e).flatten

/-! ## The rows in the text -/

theorem optionalLine_eq (before s after : String) :
    optionalLine before s after = ((given s).map (before ++ · ++ after)).flatMap line := by
  unfold optionalLine given
  by_cases empty : s = ""
  · rw [if_pos (by simpa using empty), if_pos empty]
    rfl
  · rw [if_neg (by simpa using empty), if_neg empty]
    simp [line]

theorem entryLines_eq (e : ErrorEntry) : entryLines e = (entryRows e).flatMap line := by
  unfold entryLines entryRows
  rw [optionalLine_eq, optionalLine_eq]
  cases e.position <;> simp

theorem causeLines_eq (level : Nat) (e : ErrorEntry) : causeLines level e = (causeRows level e).flatMap line := by
  unfold causeLines causeRows given
  by_cases empty : e.identifier = ""
  · rw [if_pos (by simpa using empty), if_pos empty]
    simp [line, indent, spaces]
  · rw [if_neg (by simpa using empty), if_neg empty]
    simp [line, indent, spaces]

/-- Each step along the chain goes one level further, so the place of a cause says its level. -/
theorem chainLines_eq (level : Nat) (causes : List ErrorEntry) :
    chainLines level causes = (causes.mapIdx fun i e => causeRows (level + i) e).flatten.flatMap line := by
  induction causes generalizing level with
  | nil => rfl
  | cons e rest ih =>
    have deeper : (rest.mapIdx fun i e => causeRows (level + (i + 1)) e)
        = rest.mapIdx fun i e => causeRows (level + 1 + i) e := by
      congr 1
      funext i e
      congr 1
      omega
    rw [chainLines, causeLines_eq, ih, List.mapIdx_cons, List.flatten_cons, List.flatMap_append, deeper]
    rfl

theorem toList_ofRecord (r : ErrorRecord) : (ofRecord r).toList = Text.trimEnd ((rows r).flatMap line) := by
  have levels : (r.causes.mapIdx fun i e => causeRows (i + 1) e) = r.causes.mapIdx fun i e => causeRows (1 + i) e := by
    congr 1
    funext i e
    rw [Nat.add_comm]
  rw [ofRecord, String.toList_ofList, entryLines_eq, chainLines_eq, rows, List.flatMap_append, levels]

/-- A report loses nothing: it is made of the rows of the error and of all its causes, each with a line break behind
it, but for blanks at the end of the whole text, where none is left. Several reports stand in order, with a line break
between one and the next. -/
theorem reports_lose_nothing :
    (∀ r, ∃ blanks, blanks.all Text.isBlank = true ∧
      ((rows r).flatMap fun row => row.toList ++ ['\n']) = (ofRecord r).toList ++ blanks) ∧
    (∀ r, (ofRecord r).toList.getLast?.all (!Text.isBlank ·) = true) ∧
    ∀ rs, (ofRecords rs).toList = ['\n'].intercalate (rs.map fun r => (ofRecord r).toList) := by
  refine ⟨?whole, ?last, ?batch⟩
  case whole =>
    intro r
    rw [toList_ofRecord]
    exact Text.exists_blanks_trimEnd _
  case last =>
    intro r
    rw [toList_ofRecord]
    exact Text.getLast?_trimEnd _
  case batch =>
    intro rs
    rw [ofRecords, String.toList_intercalate, List.map_map]
    rfl

/-- Blanks and line breaks in the middle of a report stay, those at its end do not. -/
example : ofRecord ⟨⟨" ", "", "", some ""⟩, [⟨"two\nlines", "Unseen", "Id", none⟩, ⟨"last \n", "", "", none⟩]⟩ =
    " \nAt \n    ---> Caused by: two\nlines\n         (Id)\n        ---> Caused by: last" := by
  decide +kernel

end SessionBroker.ErrorReport
