import SessionBroker.Proofs.Margins
import SessionBroker.Proofs.Shell.Commands

/-!
# Reading lines

A reference for what the shell reads and writes: a reader with two modes, one for each prompt, which goes
through the lines one by one. Then what reading one line makes of a scene.
-/

namespace SessionBroker

namespace Shell

/-! ## The reference -/

/-- The shell's own prompt, or the prompt of the stopped debugger. -/
inductive Mode where
  | main
  | stopped
  deriving DecidableEq, Repr

/-- The words that resume the debugger. -/
def resumeWords : List String :=
  ["c", "continue", "s", "stepInto", "v", "stepOver", "o", "stepOut", "q", "quit"]

namespace Mode

def prompt : Mode → String
  | .main => "PS> "
  | .stopped => "[DBG]: PS> "

/-- The mode in which the next line is read; none if no line is read any more. -/
def after : Mode → String → Option Mode
  | .main, text =>
    if text = "exit" then none else if text = "Wait-Debugger" then some .stopped else some .main
  | .stopped, text => if text ∈ resumeWords then some .main else some .stopped

end Mode

/-- What has been written, and the lines that were run. -/
structure Sheet where
  page : Transcript
  ran : List String
  deriving DecidableEq, Repr

namespace Sheet

def empty : Sheet := ⟨.empty, []⟩

def write (s : Sheet) (kind : TextKind) (text : String) (newline : Bool) : Sheet :=
  { s with page := s.page.add (.write kind text newline) }

def note (s : Sheet) (text : String) : Sheet := { s with ran := s.ran ++ [text] }

/-- A line is run: two are scripted, any other one is echoed. -/
def run (s : Sheet) (text : String) : Sheet :=
  let s := s.note text
  if text = "Get-Date" then s.write .normal "Monday, January 1, 2024 12:00:00 PM" true
  else if text = "throw" then s.write .error "ScriptHalted" true
  else s.write .normal text true

/-- What a line comes to. The debugger is stopped, and the identity probe answered, only at the shell's own
prompt. -/
def answer (s : Sheet) (mode : Mode) (text : String) : Sheet :=
  if text = "" then s
  else match mode with
    | .main =>
      if text = "exit" then s
      else if text = "Wait-Debugger" then (s.note text).write .normal "Hit breakpoint at interactive:1" true
      else if text = Identity.probeText then (s.note text).write .normal identity.toJson.compress true
      else s.run text
    | .stopped => if text ∈ resumeWords then s else s.run text

end Sheet

/-- Reads lines from some mode on: each attempt to read one shows the prompt first. The end of the input
resumes a stopped debugger, and ends the shell. -/
def read : Mode → List String → Sheet → Sheet
  | .main, [], s => s.write .normal Mode.main.prompt false
  | .stopped, [], s => (s.write .normal Mode.stopped.prompt false).write .normal Mode.main.prompt false
  | mode, line :: rest, s =>
    let s := (s.write .normal mode.prompt false).answer mode (trimmed line)
    match mode.after (trimmed line) with
    | none => s
    | some mode => read mode rest s

/-- No line stops the debugger while it is stopped. -/
def isCalm : Mode → List String → Bool
  | _, [] => true
  | mode, line :: rest => (mode = .main || trimmed line ≠ "Wait-Debugger") &&
      match mode.after (trimmed line) with
      | none => true
      | some mode => isCalm mode rest

example : (read .main [" Get-Date", "Wait-Debugger", "exit", "q", "exit", "x"] .empty) =
    ⟨⟨none, "PS> Monday, January 1, 2024 12:00:00 PM\nPS> Hit breakpoint at interactive:1\n" ++
      "[DBG]: PS> exit\n[DBG]: PS> PS> ", ""⟩, ["Get-Date", "Wait-Debugger", "exit"]⟩ := by
  decide +kernel

/-! ## Words -/

theorem wordOf?_trimmed (line : String) : wordOf? (trimmed line) = ResumeAction.ofWord? (trimmed line) := by
  rw [wordOf?, trimmed, String.toList_ofList, Text.trim_trim]

theorem ofWord?_eq_none {word : String} : ResumeAction.ofWord? word = none ↔ word ∉ resumeWords := by
  unfold ResumeAction.ofWord? resumeWords
  simp only [List.mem_cons, List.not_mem_nil, or_false, Bool.or_eq_true, decide_eq_true_eq]
  repeat' split
  all_goals grind

/-! ## What is written in a scene -/

namespace Scene

variable {x y : Scene} {d : Desk} {flow : Nat}

/-- What was written in a scene, and the lines that were run. -/
def sheet (x : Scene) : Sheet := ⟨x.calls.reverse.foldl Transcript.add .empty, x.history⟩

theorem sheet_write (kind : TextKind) (text : String) (newline : Bool) :
    sheet { x with calls := .write kind text newline :: x.calls } = x.sheet.write kind text newline := by
  simp [sheet, Sheet.write]

/-- A command of the debugger's prompt writes what the reference writes. -/
theorem sheet_named (text : String) :
    sheet { x.after (.named text) with history := x.history ++ [text] } = x.sheet.run text := by
  have verdict_named : verdict (.named text) = .ofResult (given text) := rfl
  unfold after Sheet.run
  rw [verdict_named]
  unfold given
  by_cases date : text = "Get-Date"
  · simp [date, sheet, Sheet.note, Sheet.write, shown, Verdict.ofResult, Outcome.lines, Outcome.ofOutput,
      Invocation.ofOutput, renderValue]
  by_cases fails : text = "throw"
  · simp [fails, sheet, Sheet.note, Sheet.write, shown, Verdict.ofResult, Outcome.lines, Outcome.addErrorText,
      Outcome.empty]
  · simp [date, fails, sheet, Sheet.note, Sheet.write, shown, Verdict.ofResult, Outcome.lines, Outcome.ofOutput,
      Invocation.ofOutput, renderValue]

/-- So does a command of the shell's own prompt, which may be the identity probe. -/
theorem sheet_script (text : String) :
    sheet { x.after (.script text) with history := x.history ++ [text] } =
      if text = Identity.probeText then (x.sheet.note text).write .normal identity.toJson.compress true
      else x.sheet.run text := by
  by_cases probe : text = Identity.probeText
  · have asked : verdict (.script text) = .ofResult (.ok (.ofOutput [identity.toJson])) := by
      rw [verdict, givenFor, if_pos (by simp [Command.isProbe, Command.script, probe])]
    rw [if_pos probe, after, asked]
    simp [sheet, Sheet.note, Sheet.write, shown, Verdict.ofResult, Outcome.lines, Outcome.ofOutput,
      Invocation.ofOutput, renderValue, Identity.toJson]
  · have same : verdict (.script text) = verdict (.named text) := by
      have script : (Command.script text).isProbe = false := by simp [Command.isProbe, Command.script, probe]
      rw [verdict, verdict, givenFor, script, givenFor]
      rfl
    rw [if_neg probe, ← sheet_named text, after, after, same]

/-! ## Reading a line -/

theorem does_hostRead {reader : Nat} (mine : x.readers = [reader]) :
    Does flow (body (.hostRead reader)) x x.lines.head? { x with lines := x.lines.tail } := by
  cases h : x.lines with
  | nil => exact .perform (acts_lineless mine h) (.done _ _)
  | cons line rest => exact .perform (acts_line mine h) (.done _ _)

theorem does_readLoop {frame : FrameRef} (idle : x.readers = []) :
    Desk.Does flow (body (.readLoop frame)) (x, d) x.lines.head?
      ({ x with
        calls := .write .normal d.prompt false :: x.calls
        lines := x.lines.tail
        readers := []
        reading := false
        tickets := x.tickets + 1 }, d) := by
  refine .perform (.of_scene (acts_setActive true)) ?_
  refine .perform (.of_scene acts_ticket) ?_
  refine .perform (Desk.acts_beginRead idle) ?_
  refine .invoke (Desk.does_of_scene (does_hostRead rfl)) ?_
  refine .perform (.of_scene (acts_endRead rfl)) ?_
  exact .perform (.of_scene (acts_setActive false)) (.done _ _)

/-- What is left in a scene when a line has been read. -/
def afterReading (prompt : String) (x : Scene) : Scene :=
  { x with
    calls := .write .normal prompt false :: x.calls
    lines := x.lines.tail
    readers := []
    reading := false
    tickets := x.tickets + 2 }

theorem does_readLine (nobody : x.stop = none) (unheld : x.held = false) (idle : x.readers = [])
    (usable : Usable x.phase) :
    Desk.Does flow (body (.readLine none)) (x, d) (.ok x.lines.head?)
      ({ x.afterReading d.prompt with held := false }, d) := by
  have undisposed : x.phase ≠ .disposed := by rcases usable with h | h <;> rw [h] <;> decide
  refine .perform (.of_scene (acts_phase rfl)) ?_
  rw [if_neg undisposed]
  refine .perform (.of_scene (acts_currentTop nobody)) ?_
  refine .bind (Desk.does_of_scene (does_acquireTop unheld rfl)) ?_
  refine .invoke (does_readLoop idle) ?_
  exact .perform (.of_scene (acts_releaseTop rfl)) (.done _ _)

theorem does_readLineStopped (stopped : x.stop = some .fresh) (idle : x.readers = []) (usable : Usable x.phase) :
    Desk.Does flow (body (.readLine none)) (x, d) (.ok x.lines.head?)
      ({ x.afterReading d.prompt with stop := some .fresh }, d) := by
  have undisposed : x.phase ≠ .disposed := by rcases usable with h | h <;> rw [h] <;> decide
  refine .perform (.of_scene (acts_phase rfl)) ?_
  rw [if_neg undisposed]
  refine .perform (.of_scene (acts_currentStop stopped rfl)) ?_
  refine .bind (Desk.does_of_scene (does_acquireStop stopped rfl rfl)) ?_
  refine .invoke (does_readLoop idle) ?_
  exact .perform (.of_scene (acts_releaseStop rfl rfl rfl)) (.done _ _)

end Scene

end Shell

end SessionBroker
