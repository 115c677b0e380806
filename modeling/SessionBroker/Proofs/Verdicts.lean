import SessionBroker.Proofs.Margins
import SessionBroker.Proofs.Signals
import SessionBroker.Proofs.Ways

/-!
# Reported errors

An outcome has had errors if some text came of the errors that the engine reported. So it is not enough that
there are errors: of a single record that is blank, and of a failure without a reason, no text comes, and such an
outcome counts as a success. In all other cases the outcome and the notice of its completion say whether there were
errors.
-/

namespace SessionBroker

/-! ## Reports without text -/

/-- A record of which nothing is said but a message without anything to see. -/
def ErrorRecord.isBlank (r : ErrorRecord) : Bool :=
  r.entry.message.toList.all Text.isBlank && r.entry.position.isNone && r.entry.category.isEmpty &&
    r.entry.identifier.isEmpty && r.causes.isEmpty

namespace ErrorReport

theorem all_line (s : String) : (line s).all Text.isBlank = s.toList.all Text.isBlank := by
  have newline : Text.isBlank '\n' = true := by decide
  simp [line, newline]

/-- A line that is left out just if its text is empty shows something else. -/
theorem all_optionalLine {c : Char} {before : String} (s : String) (here : c ∈ before.toList)
    (seen : Text.isBlank c = false) : (optionalLine before s "").all Text.isBlank = s.isEmpty := by
  unfold optionalLine
  split
  · next none => simp [none]
  · next some =>
    have visible : before.toList.all Text.isBlank = false :=
      List.all_eq_false.mpr ⟨c, here, by simp [seen]⟩
    simp [visible, some]

theorem all_entryLines (e : ErrorEntry) : (entryLines e).all Text.isBlank =
    (e.message.toList.all Text.isBlank && e.position.isNone && e.category.isEmpty && e.identifier.isEmpty) := by
  have seen : Text.isBlank 'A' = false := by decide
  rw [entryLines, List.all_append, List.all_append, List.all_append, all_line,
    all_optionalLine (c := '+') e.category (by decide) (by decide),
    all_optionalLine (c := '+') e.identifier (by decide) (by decide)]
  cases e.position with
  | none => rfl
  | some p => simp [all_line, seen]

theorem all_chainLines (level : Nat) (causes : List ErrorEntry) :
    (chainLines level causes).all Text.isBlank = causes.isEmpty := by
  cases causes with
  | nil => rfl
  | cons e rest =>
    have seen : Text.isBlank '>' = false := by decide
    simp [chainLines, causeLines, line, seen]

/-- The report of a record is empty just if the record is blank. -/
theorem ofRecord_eq_empty {r : ErrorRecord} : ofRecord r = "" ↔ r.isBlank := by
  rw [ofRecord, String.ofList_eq_empty_iff, Text.trimEnd_eq_nil, List.all_append, all_entryLines, all_chainLines]
  rfl

/-- Several reports are never empty, since there are line breaks between them. -/
theorem ofRecords_eq_empty {rs : List ErrorRecord} :
    ofRecords rs = "" ↔ rs = [] ∨ ∃ r, rs = [r] ∧ r.isBlank := by
  rcases rs with _ | ⟨r, _ | ⟨s, rest⟩⟩
  · simp [ofRecords]
  · simp [ofRecords, ← ofRecord_eq_empty]
  · have parted : '\n' ∈ (ofRecords (r :: s :: rest)).toList := by
      rw [ofRecords, String.toList_intercalate, List.map_cons, List.map_cons, List.map_cons, List.map_cons,
        List.intercalate_cons_cons]
      simp
    have seen : ofRecords (r :: s :: rest) ≠ "" := by
      intro none
      rw [none] at parted
      cases parted
    simp [seen]

end ErrorReport

/-! ## Verdicts -/

/-- What an engine gives for a command. -/
abbrev Answer := Except EngineFailure Invocation

namespace Answer

/-- The engine ran the command to its end; the command itself may have failed. -/
def Completes : Answer → Prop
  | .ok _ | .error (.runtime _) => True
  | _ => False

/-- Errors are reported: there are records of them, or the command failed. -/
def Reports : Answer → Prop
  | .ok i => i.errors ≠ []
  | .error (.runtime _) => True
  | _ => False

/-- No text comes of the errors that are reported. -/
def IsMute : Answer → Prop
  | .ok i => ∃ r, i.errors = [r] ∧ r.isBlank
  | .error (.runtime reason) => reason = ""
  | _ => False

end Answer

namespace Verdict

theorem hadErrors_addErrorText (o : Outcome) (text : String) :
    (o.addErrorText text).hadErrors = true ↔ o.hadErrors = true ∨ text ≠ "" := by
  unfold Outcome.addErrorText
  split
  · next none => simp [String.isEmpty_iff.mp none]
  · next some => simpa using .inr (by simpa using some)

theorem ofResult_of_errors {i : Invocation} (reported : i.errors ≠ []) : ofResult (.ok i) =
    ⟨{ (Outcome.ofOutput i.output).addErrorText (ErrorReport.ofRecords i.errors) with errors := i.errors },
      .completed, none, some (ErrorReport.ofRecords i.errors)⟩ := by
  have listed : ¬i.errors.isEmpty = true := by simpa using reported
  exact if_neg listed

theorem ofResult_of_none {i : Invocation} (none : i.errors = []) :
    ofResult (.ok i) = ⟨.ofOutput i.output, .completed, Option.none, Option.none⟩ :=
  if_pos (by simp [none])

/-- Errors are flagged if they are reported with some text. -/
theorem hadErrors_ofResult (x : Answer) :
    (ofResult x).outcome.hadErrors = true ↔ x.Reports ∧ ¬x.IsMute := by
  rcases x with (reason | _ | reason) | i
  case ok =>
    by_cases none : i.errors = []
    · simp [ofResult_of_none none, Answer.Reports, none, Outcome.ofOutput, Outcome.empty]
    · have text : ErrorReport.ofRecords i.errors = "" ↔ ∃ r, i.errors = [r] ∧ r.isBlank :=
        ErrorReport.ofRecords_eq_empty.trans (or_iff_right none)
      rw [ofResult_of_errors none]
      show (Outcome.addErrorText _ _).hadErrors = true ↔ _
      rw [hadErrors_addErrorText, Ne, text]
      simp [Answer.Reports, Answer.IsMute, none, Outcome.ofOutput, Outcome.empty]
  case error.runtime =>
    show (Outcome.addErrorText _ _).hadErrors = true ↔ _
    simp [hadErrors_addErrorText, Answer.Reports, Answer.IsMute, Outcome.empty]
  all_goals simp [ofResult, Answer.Reports, Outcome.stopped, Outcome.empty]

theorem aborted_addErrorText (o : Outcome) (text : String) : (o.addErrorText text).aborted = o.aborted := by
  unfold Outcome.addErrorText
  split <;> rfl

/-- What is concluded from an answer that is complete. -/
structure OnCompletion (v : Verdict) : Prop where
  progress : v.progress = .completed
  response : v.response = .ok v.outcome
  success : v.outcome.success = !v.outcome.hadErrors

theorem onCompletion {x : Answer} (completes : x.Completes) : (ofResult x).OnCompletion := by
  rcases x with (reason | _ | reason) | i
  case ok =>
    by_cases none : i.errors = []
    · rw [ofResult_of_none none]
      exact ⟨rfl, rfl, rfl⟩
    · rw [ofResult_of_errors none]
      refine ⟨rfl, rfl, ?_⟩
      simp [Outcome.success, aborted_addErrorText, Outcome.ofOutput, Outcome.empty]
  case error.runtime =>
    refine ⟨rfl, rfl, ?_⟩
    show (Outcome.addErrorText _ _).success = _
    simp [ofResult, Outcome.success, aborted_addErrorText, Outcome.empty]
  all_goals exact completes.elim

/-- Only what is complete is announced as completed. -/
theorem completes_of_progress {x : Answer} (completed : (ofResult x).progress = .completed) : x.Completes := by
  rcases x with (reason | _ | reason) | i
  case error.stopped | error.fatal => cases completed
  all_goals trivial

end Verdict

/-! ## The way of a command -/

namespace Running

variable {frame : FrameRef} {e : EngineName} {q : Request} {route : Route} {flow : Nat} {who : Proc}
  {ds : List (Deed brokerInterface World)} {p : Code Response}

/-- What is done before a command is sent. -/
def opening (q : Request) : Code Unit := do
  begin
  Program.onlyIf q.options.showInput (write .normal q.command.text)

/-- What is done once an engine has answered. -/
def closing (frame : FrameRef) (e : EngineName) (q : Request) (route : Route) (x : Answer) : Code Response := do
  present q (Verdict.ofResult x)
  conclude frame e q route (Verdict.ofResult x)

theorem run_eq : run frame e q route = opening q >>= fun _ => send frame e q route >>= closing frame e q route := by
  unfold run opening
  cases q.options.showInput <;> rfl

/-- By some deeds a command has been sent, and the engine has given an answer; then others followed. -/
def Replied (flow : Nat) (frame : FrameRef) (e : EngineName) (q : Request) (route : Route)
    (ds : List (Deed brokerInterface World)) (x : Answer) (later : List (Deed brokerInterface World)) : Prop :=
  ∃ before sent, ds = later ++ (sent ++ before) ∧
    (opening q).Leads brokerMachine flow (.runCommand frame e q route) before (.done ()) ∧
    (send frame e q route).Leads brokerMachine flow (.runCommand frame e q route) sent (.done x)

section Ways

variable (leads : (body (.runCommand frame e q route)).Leads brokerMachine flow (.runCommand frame e q route) ds p)

include leads

/-- Whoever has run a command to the end has had an answer. -/
theorem replied_of_done {r : Response} (ended : p = .done r) : ∃ x later,
    Replied flow frame e q route ds x later ∧
      (closing frame e q route x).Leads brokerMachine flow (.runCommand frame e q route) later (.done r) := by
  subst ended
  change (run frame e q route).Leads _ _ _ _ _ at leads
  rw [run_eq] at leads
  obtain ⟨before, ds, _, rfl, opened, leads⟩ := leads.of_bind_done
  obtain ⟨sent, later, x, rfl, replied, closed⟩ := leads.of_bind_done
  exact ⟨x, later, ⟨before, sent, by simp, opened, replied⟩, closed⟩

/-- Signals are given only once there is an answer. -/
theorem replied_of_signal {a : Act brokerInterface World} (here : .act a ∈ ds) (signal : a.action.isSignal) :
    ∃ x later, Replied flow frame e q route ds x later ∧ .act a ∈ later ∧
      (closing frame e q route x).Leads brokerMachine flow (.runCommand frame e q route) later p := by
  have silent : ∀ {β : Type} {r r' : Code β} {es : List (Deed brokerInterface World)},
      r.Gives (fun _ => False) → r.Leads brokerMachine flow (.runCommand frame e q route) es r' →
      .act a ∉ es := fun gives leads inside => leads.acts_within gives inside signal
  have opens : (opening q).Gives fun _ => False := .bind (by grind) fun _ => .onlyIf (by grind)
  have sends : (send frame e q route).Gives fun _ => False := by grind
  change (run frame e q route).Leads _ _ _ _ _ at leads
  rw [run_eq] at leads
  rcases leads.of_bind with ⟨_, inside, -⟩ | ⟨before, ds, _, rfl, opened, leads⟩
  · exact absurd here (silent opens inside)
  · have here := (List.mem_append.mp here).resolve_right (silent opens opened)
    rcases leads.of_bind with ⟨_, inside, -⟩ | ⟨sent, later, x, rfl, replied, closed⟩
    · exact absurd here (silent sends inside)
    · have here := (List.mem_append.mp here).resolve_right (silent sends replied)
      exact ⟨x, later, ⟨before, sent, by simp, opened, replied⟩, here, closed⟩

end Ways

/-- What is told about an answer, if anything is told of a completion. -/
theorem gives_closing (x : Answer) : (closing frame e q route x).Gives fun action =>
    (Verdict.ofResult x).progress = .completed ∧
      action = .broker (.notify (.progress .completed (Verdict.ofResult x).outcome.hadErrors)) :=
  .bind (silent_present q _) fun _ => gives_conclude fun completed => ⟨completed, rfl⟩

/-- What a command comes to once there is an answer: what the answer says, unless the session has become
unavailable. -/
def Concludes (x : Answer) (r : Response) : Prop :=
  r = (Verdict.ofResult x).response ∨ ∃ text, r = .error (.sessionUnavailable text)

theorem comes_closing (x : Answer) :
    (closing frame e q route x).Comes brokerMachine flow who (fun _ => Concludes x) ds := by
  refine Program.comes_after fun _ _ => Program.comes_after fun _ availability => ?_
  split
  · exact Program.comes_after fun _ _ => Program.comes_after fun _ _ => .inl rfl
  · refine Program.comes_after fun _ _ => Program.comes_after fun _ _ => Program.comes_after fun _ _ => ?_
    exact .inr ⟨_, rfl⟩

end Running

/-! ## What is told of errors in a run -/

namespace Verdicts

open Running (Replied)

/-- In a run, errors are flagged if they were reported with some text. -/
structure Flagged (c : Chronicle) : Prop where
  /-- A command that has come to its end got an answer. If that is complete, either the session has become
  unavailable, or there is an outcome that says whether errors were reported with some text, and is a success if not. -/
  outcome : ∀ flow frame e q route r ds, ⟨flow, .runCommand frame e q route, r, ds⟩ ∈ c.returns →
    ∃ x later, Replied flow frame e q route ds x later ∧ (x.Completes →
      (∃ text, r = .error (.sessionUnavailable text)) ∨
        ∃ o, r = .ok o ∧ (o.hadErrors = true ↔ x.Reports ∧ ¬x.IsMute) ∧ o.success = !o.hadErrors)
  /-- Whenever a completion is announced, a command has got an answer that is complete, and the notice says whether
  errors were reported with some text. -/
  notice : ∀ a ∈ c.log, ∀ b, a.action = .broker (.notify (.progress .completed b)) →
    ∃ frame e q route ds x later, a.proc = .runCommand frame e q route ∧
      Replied a.flow frame e q route ds x later ∧ .act a ∈ later ∧ x.Completes ∧
      (b = true ↔ x.Reports ∧ ¬x.IsMute)

theorem outcome_of_return {flow : Nat} {frame : FrameRef} {e : EngineName} {q : Request} {route : Route} {r : Response}
    {ds : List (Deed brokerInterface World)} (leads : (body (.runCommand frame e q route)).Leads brokerMachine flow
      (.runCommand frame e q route) ds (.done r)) :
    ∃ x later, Replied flow frame e q route ds x later ∧ (x.Completes →
      (∃ text, r = .error (.sessionUnavailable text)) ∨
        ∃ o, r = .ok o ∧ (o.hadErrors = true ↔ x.Reports ∧ ¬x.IsMute) ∧ o.success = !o.hadErrors) := by
  obtain ⟨x, later, replied, closed⟩ := Running.replied_of_done leads rfl
  have concludes : Running.Concludes x r := (Running.comes_closing x).leads closed
  refine ⟨x, later, replied, fun completes => ?_⟩
  have completion := Verdict.onCompletion completes
  rcases concludes with same | unavailable
  · exact .inr ⟨_, same.trans completion.response, Verdict.hadErrors_ofResult x, completion.success⟩
  · exact .inl unavailable

/-- Whatever happens, errors are flagged just if they are reported with some text: if there are records that are
not a single blank one, or if the command failed with a reason that is not empty. -/
theorem flagged (settings : BrokerSettings) (endpoints : List (EngineName × Endpoint)) (main : EngineName)
    (host : Host) (ms : List Move) : Flagged ((Chronicle.new settings endpoints main host).moves ms) := by
  have faithful := Chronicle.faithful_moves (Chronicle.faithful_new settings endpoints main host) ms
  refine ⟨?outcome, ?notice⟩
  case outcome =>
    intro flow frame e q route r ds returned
    exact outcome_of_return (faithful.fits.returned _ returned)
  case notice =>
    rintro ⟨flow, proc, action, reply, w, u⟩ logged b rfl
    obtain ⟨ds, p, leads, here⟩ := faithful.fits.leads_of_log logged
    have gives := faithful.gives logged rfl
    cases gives with
    | @complete frame e q route =>
      obtain ⟨x, later, replied, here, closed⟩ := Running.replied_of_signal leads here rfl
      obtain ⟨completed, told⟩ := closed.acts_within (Running.gives_closing x) here rfl
      cases told
      exact ⟨frame, e, q, route, ds, x, later, rfl, replied, here, Verdict.completes_of_progress completed,
        Verdict.hadErrors_ofResult x⟩

/-! ### A failure without a reason -/

def throwingEndpoints : List (EngineName × Endpoint) :=
  [("main", ⟨.new ⟨5, 1⟩ ⟨1, "localhost", "host"⟩
    [("throw", .throw ""), ("fail", .fail ⟨⟨" ", "", "", none⟩, []⟩)], false, none, none⟩)]

/-- The engine says that one command failed and gives no reason, and it reports a blank record for another. -/
def failsSilently : Chronicle :=
  (Chronicle.new .standard throwingEndpoints "main" .new).moves <|
    [.arrive "set up" (.setUp "main" true)] ++ turns 0 30
    ++ [.arrive "throw" (.execute (.script "throw") .standard none)] ++ turns 1 90
    ++ [.arrive "fail" (.execute (.script "fail") .standard none)] ++ turns 2 90

/-- Whether a command has failed and its outcome is a success. -/
def succeedsOnFailure : Return brokerInterface World → Bool
  | ⟨_, .runCommand .., .ok o, ds⟩ => o.success && !o.hadErrors && ds.any fun
    | .call (.invoke ..) (.error (.runtime _)) => true
    | _ => false
  | _ => false

/-- Whether an outcome has records of errors and is a success. -/
def succeedsWithErrors : Return brokerInterface World → Bool
  | ⟨_, .runCommand .., .ok o, _⟩ => o.success && !o.hadErrors && !o.errors.isEmpty
  | _ => false

/-- It is not so that errors are flagged just if they are reported: one command fails and another one reports an
error, both outcomes are successes, and their completion is announced to be without errors. -/
theorem unflagged_errors :
    failsSilently.returns.any succeedsOnFailure = true ∧ failsSilently.returns.any succeedsWithErrors = true ∧
    failsSilently.world.channel.sent =
      [.progress .running false, .progress .completed false, .progress .running false, .progress .completed false] := by
  decide +kernel

end Verdicts

end SessionBroker
