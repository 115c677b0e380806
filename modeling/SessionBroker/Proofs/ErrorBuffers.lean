import SessionBroker.Proofs.Ways

/-!
# Buffers of errors

A client may have the errors of his commands gathered in a buffer of his own, and an outcome gathers the texts of
errors that are added to it, each by a rule of its own. Both ways the same text comes about: the texts that are not
empty, in order, unchanged and each at the beginning of a line, with a line break before it only where there was none.
-/

namespace SessionBroker

/-! ## Texts on lines of their own -/

/-- A text inside a longer one, and what was put before it. -/
structure Piece where
  gap : List Char
  body : List Char

namespace Piece

/-- The text that some pieces make up. -/
def joined (ps : List Piece) : List Char := ps.flatMap fun p => p.gap ++ p.body

@[simp] theorem joined_nil : joined [] = [] := rfl

@[simp] theorem joined_concat (ps : List Piece) (p : Piece) : joined (ps ++ [p]) = joined ps ++ (p.gap ++ p.body) := by
  simp [joined]

end Piece

/-- Whatever comes behind a text begins a line: the text is empty or ends in a line break. -/
def OpensLine (text : List Char) : Prop := text = [] ∨ text.getLast? = some '\n'

/-- A piece that comes behind a text begins a line, and a line break is put before it only where it is wanting. -/
structure Piece.Follows (p : Piece) (text : List Char) : Prop where
  begins : OpensLine (text ++ p.gap)
  gap : p.gap = [] ∨ p.gap = ['\n'] ∧ ¬OpensLine text

/-- A text is made up of others, as far as they are not empty: they are all there, in order and unchanged, and each of
them begins a line. -/
structure Lined (texts : List String) (whole : String) (pieces : List Piece) : Prop where
  whole : whole.toList = Piece.joined pieces
  bodies : pieces.map Piece.body = (texts.filter (· ≠ "")).map String.toList
  follows : ∀ before p after, pieces = before ++ p :: after → p.Follows (Piece.joined before)

theorem appendLine_empty (buffer : String) : appendLine buffer "" = buffer := rfl

theorem appendLine_opened {buffer text : String} (some : text ≠ "") (opens : OpensLine buffer.toList) :
    appendLine buffer text = buffer ++ text := by
  have opens : (buffer.isEmpty || buffer.toList.getLast? = Option.some '\n') = true := by
    simpa [OpensLine] using opens
  rw [appendLine, if_neg (by simpa using some), if_pos opens]

theorem appendLine_broken {buffer text : String} (some : text ≠ "") (within : ¬OpensLine buffer.toList) :
    appendLine buffer text = buffer ++ "\n" ++ text := by
  have within : ¬(buffer.isEmpty || buffer.toList.getLast? = Option.some '\n') = true := by
    simpa [OpensLine] using within
  rw [appendLine, if_neg (by simpa using some), if_neg within]

namespace Lined

variable {texts : List String} {whole text : String} {pieces : List Piece}

theorem nil : Lined [] "" [] := ⟨rfl, rfl, by simp⟩

/-- Another text is put behind the whole as a piece that follows it. -/
theorem concat (lined : Lined texts whole pieces) {gap : List Char} (some : text ≠ "")
    (follows : Piece.Follows ⟨gap, text.toList⟩ whole.toList) :
    Lined (texts ++ [text]) (whole ++ String.ofList gap ++ text) (pieces ++ [⟨gap, text.toList⟩]) := by
  refine ⟨?whole, ?bodies, ?follows⟩
  case whole => simp [lined.whole]
  case bodies => simp [lined.bodies, some]
  case follows =>
    intro before p after same
    rcases List.eq_nil_or_concat' after with rfl | ⟨after, q, rfl⟩
    · obtain ⟨rfl, last⟩ := List.append_inj' same rfl
      cases last
      exact lined.whole ▸ follows
    · rw [← List.cons_append, ← List.append_assoc] at same
      exact lined.follows before p after (List.append_inj' same rfl).1

/-- So it is when a text is added to a buffer of lines. -/
theorem appendLine (lined : Lined texts whole pieces) (text : String) :
    ∃ pieces, Lined (texts ++ [text]) (SessionBroker.appendLine whole text) pieces := by
  by_cases some : text = ""
  · rw [some, appendLine_empty]
    exact ⟨pieces, lined.whole, by simp [lined.bodies], lined.follows⟩
  by_cases opens : OpensLine whole.toList
  · have follows : Piece.Follows ⟨[], text.toList⟩ whole.toList := ⟨by simpa using opens, .inl rfl⟩
    rw [appendLine_opened some opens]
    exact ⟨_, by simpa using lined.concat some follows⟩
  · have begins : OpensLine (whole.toList ++ ['\n']) := .inr (by simp)
    rw [appendLine_broken some opens]
    exact ⟨_, lined.concat some ⟨begins, .inr ⟨rfl, opens⟩⟩⟩

end Lined

/-! ## An outcome that gathers texts -/

namespace Outcome

theorem errorText_addErrorText (o : Outcome) (text : String) :
    (o.addErrorText text).errorText = appendLine o.errorText text := by
  unfold addErrorText
  by_cases empty : text = ""
  · subst empty
    rfl
  · rw [if_neg (by simpa using empty)]

theorem lined_addErrorText {o : Outcome} (empty : o.errorText = "") (texts : List String) :
    ∃ pieces, Lined texts (texts.foldl addErrorText o).errorText pieces := by
  induction texts using List.reverseRecOn with
  | nil => exact ⟨[], empty ▸ .nil⟩
  | append_singleton texts text ih =>
    obtain ⟨pieces, lined⟩ := ih
    rw [List.foldl_append, List.foldl_cons, List.foldl_nil, errorText_addErrorText]
    exact lined.appendLine text

end Outcome

/-! ## A buffer that is filled command by command -/

namespace ErrorBuffers

/-- What a command says of errors: nothing if it has no outcome. -/
def errorText : Response → String
  | .ok o => o.errorText
  | .error _ => ""

/-- Both rules add a text of errors alike: one asks whether the buffer is within a line, the other looks at its last
character. -/
theorem withErrors_eq (buffer : String) (o : Outcome) : Clients.withErrors buffer o = appendLine buffer o.errorText := by
  unfold Clients.withErrors
  by_cases empty : o.errorText = ""
  · rw [if_pos (by simpa using empty), empty, appendLine_empty]
  rw [if_neg (by simpa using empty)]
  split
  · next none =>
    have opens : OpensLine buffer.toList := .inl (List.getLast?_eq_none_iff.mp none)
    rw [appendLine_opened empty opens]
  · next ended => rw [appendLine_opened empty (.inr ended)]
  · next c within last =>
    have within : ¬OpensLine buffer.toList := by
      rintro (none | ended)
      · simp [none] at last
      · exact within (Option.some.inj (last.symm.trans ended))
    rw [appendLine_broken empty within, String.push_eq_append]
    rfl

/-- What a client is told of a command that was run for his buffer. -/
def told (buffer : String) : Response → Report
  | .ok o => .buffered (some o.output) none (Clients.withErrors buffer o)
  | .error f => .buffered none (some f) buffer

/-- A command that was run for a client's buffer came to a response, and a buffer was given back. -/
inductive Ran (c : Chronicle) (before : String) (r : Response) (after : String) : Prop where
  | intro {flow call : Nat} {name : String} {command : Command} {options : RequestOptions}
      {ds : List (Deed brokerInterface World)} {output : Option (List Json.Value)} {failure : Option Failure}
      {a : Act brokerInterface World} :
      ⟨flow, .serveClient name (.executeBuffered command options before), (), ds⟩ ∈ c.returns →
      .call (.execute ⟨call, command, options⟩ none) r ∈ ds → .act a ∈ ds →
      a.action = .broker (.report name (.buffered output failure after)) → Ran c before r after

/-- Commands were run for one buffer that was empty at first, each for the buffer that was given back by the one
before. -/
inductive Filled (c : Chronicle) : List Response → String → Prop where
  | new : Filled c [] ""
  | more {rs : List Response} {buffer after : String} {r : Response} :
      Filled c rs buffer → Ran c buffer r after → Filled c (rs ++ [r]) after

section Deeds

variable {flow : Nat} {name : String} {command : Command} {options : RequestOptions} {buffer : String}

/-- The deeds of one who serves a client with a buffer, the last one first. -/
inductive Served (name : String) (command : Command) (options : RequestOptions) (buffer : String) (r : Response) :
    List (Deed brokerInterface World) → Prop where
  | intro {call : Nat} {report released ticket held : Act brokerInterface World} :
      report.action = .broker (.report name (told buffer r)) → released.action = .broker .letGo →
      ticket.action = .broker .ticket → held.action = .broker .hold →
      Served name command options buffer r
        [.act report, .act released, .call (.execute ⟨call, command, options⟩ none) r, .act ticket, .act held]

theorem comes_serve : (body (.serveClient name (.executeBuffered command options buffer))).Comes brokerMachine flow
    (.serveClient name (.executeBuffered command options buffer))
    (fun ds _ => ∃ r, Served name command options buffer r ds) [] := by
  -- the broker is held on to, the call gets its number, and the command comes to a response
  refine Program.comes_perform fun _ _ _ _ _ => ?_
  intro _ call _ _ _ r
  -- the broker is let go, and the client is told
  cases r with
  | ok o =>
    intro _ _ _ _ _ _ _ _ _ _
    exact ⟨.ok o, .intro rfl rfl rfl rfl⟩
  | error f =>
    intro _ _ _ _ _ _ _ _ _ _
    exact ⟨.error f, .intro rfl rfl rfl rfl⟩

end Deeds

variable {c : Chronicle} {flow : Nat} {name : String} {command : Command} {options : RequestOptions}
  {before after : String} {r : Response} {rs : List Response} {ds : List (Deed brokerInterface World)}

theorem Served.response_eq (served : Served name command options before r ds) {call : Nat} {r' : Response}
    (here : .call (.execute ⟨call, command, options⟩ none) r' ∈ ds) : r' = r := by
  cases served with
  | @intro number =>
    have same : call = number ∧ r' = r := by simpa using here
    exact same.2

theorem Served.report_eq (served : Served name command options before r ds) {a : Act brokerInterface World}
    {report : Report} (here : .act a ∈ ds) (reports : a.action = .broker (.report name report)) :
    report = told before r := by
  cases served with
  | intro reported released ticket held =>
    simp only [List.mem_cons, Deed.act.injEq, reduceCtorEq, List.not_mem_nil, or_false, false_or] at here
    rcases here with rfl | rfl | rfl | rfl
    · cases reports.symm.trans reported
      rfl
    · cases reports.symm.trans released
    · cases reports.symm.trans ticket
    · cases reports.symm.trans held

/-- What is given back is the buffer with what the command says of errors added. -/
theorem told_eq (before : String) (r : Response) :
    ∃ output failure, told before r = .buffered output failure (appendLine before (errorText r)) := by
  cases r with
  | ok o => exact ⟨some o.output, none, by rw [told, withErrors_eq, errorText]⟩
  | error f => exact ⟨none, some f, by rw [told, errorText, appendLine_empty]⟩

theorem Served.ran (served : Served name command options before r ds)
    (returned : ⟨flow, .serveClient name (.executeBuffered command options before), (), ds⟩ ∈ c.returns) :
    Ran c before r (appendLine before (errorText r)) := by
  obtain ⟨output, failure, same⟩ := told_eq before r
  cases served with
  | intro reported => exact .intro returned (.tail _ (.tail _ (.head _))) (.head _) (same ▸ reported)

section Runs

variable (faithful : c.Faithful)

include faithful

theorem served_of_return (returned : ⟨flow, .serveClient name (.executeBuffered command options before), (), ds⟩ ∈
    c.returns) : ∃ r, Served name command options before r ds :=
  comes_serve.leads (faithful.fits.returned _ returned)

theorem Ran.after_eq (ran : Ran c before r after) : after = appendLine before (errorText r) := by
  obtain ⟨returned, called, here, reported⟩ := ran
  obtain ⟨r', served⟩ := served_of_return faithful returned
  obtain rfl := served.response_eq called
  obtain ⟨output, failure, same⟩ := told_eq before r
  have reported := (served.report_eq here reported).trans same
  cases reported
  rfl

/-- A buffer and an outcome gather the same text. -/
theorem Filled.eq_errorText {buffer : String} (filled : Filled c rs buffer) {o : Outcome} (empty : o.errorText = "") :
    buffer = ((rs.map errorText).foldl Outcome.addErrorText o).errorText := by
  induction filled with
  | new => exact empty.symm
  | @more rs buffer after r _ ran ih =>
    rw [ran.after_eq faithful, ih, List.map_append, List.foldl_append, List.map_singleton, List.foldl_cons,
      List.foldl_nil, Outcome.errorText_addErrorText]

end Runs

/-- In a run, buffers and outcomes agree on errors. -/
structure Agreeing (c : Chronicle) : Prop where
  /-- Whenever a command has been run for a buffer, it has come to a response, and a buffer is given back. -/
  ran : ∀ flow name command options before ds,
    ⟨flow, .serveClient name (.executeBuffered command options before), (), ds⟩ ∈ c.returns →
      ∃ r after, Ran c before r after
  /-- Whatever commands were run one after the other for a buffer that was empty at first, it is the text of an outcome
  to which their texts of errors are added in that order, and it is made up of those that are not empty. -/
  agrees : ∀ rs buffer, Filled c rs buffer → ∀ o : Outcome, o.errorText = "" →
    buffer = ((rs.map errorText).foldl Outcome.addErrorText o).errorText ∧
      ∃ pieces, Lined (rs.map errorText) buffer pieces

/-- Whatever happens, buffers and outcomes agree on errors. -/
theorem buffers_agree (settings : BrokerSettings) (endpoints : List (EngineName × Endpoint)) (main : EngineName)
    (host : Host) (ms : List Move) : Agreeing ((Chronicle.new settings endpoints main host).moves ms) := by
  have faithful := Chronicle.faithful_moves (Chronicle.faithful_new settings endpoints main host) ms
  refine ⟨?ran, ?agrees⟩
  case ran =>
    intro flow name command options before ds returned
    obtain ⟨r, served⟩ := served_of_return faithful returned
    exact ⟨r, _, served.ran returned⟩
  case agrees =>
    intro rs buffer filled o empty
    have same := filled.eq_errorText faithful empty
    exact ⟨same, same ▸ Outcome.lined_addErrorText empty (rs.map errorText)⟩

/-! ### Three commands with errors -/

def failingEndpoints : List (EngineName × Endpoint) :=
  [("main", ⟨.new ⟨5, 1⟩ ⟨1, "localhost", "host"⟩
    [("report", .fail ⟨⟨"first", "", "", none⟩, []⟩), ("throw", .throw "second\n"), ("fail", .throw "third")],
    false, none, none⟩)]

/-- A client runs four commands for one buffer; there is nothing to say of the second one. -/
def failures : List Move :=
  [.arrive "set up" (.setUp "main" true)] ++ turns 0 30
    ++ [.arrive "report" (.executeBuffered (.script "report") .standard "")] ++ turns 1 90
    ++ [.arrive "echo" (.executeBuffered (.script "echo") .standard "first")] ++ turns 2 90
    ++ [.arrive "throw" (.executeBuffered (.script "throw") .standard "first")] ++ turns 3 90
    ++ [.arrive "fail" (.executeBuffered (.script "fail") .standard "first\nsecond\n")] ++ turns 4 90

/-- Whether a command was run for a buffer and something was said of errors. -/
def tells (before text : String) : Return brokerInterface World → Bool
  | ⟨_, .serveClient _ (.executeBuffered _ _ buffer), _, ds⟩ => buffer = before && ds.any fun
    | .call (.execute ..) r => errorText r = text
    | _ => false
  | _ => false

theorem exists_ran_of_tells (faithful : c.Faithful) {text : String} (found : c.returns.any (tells before text) = true) :
    ∃ r, errorText r = text ∧ Ran c before r (appendLine before text) := by
  obtain ⟨⟨flow, proc, result, ds⟩, returned, tells⟩ := List.any_eq_true.mp found
  unfold ErrorBuffers.tells at tells
  split at tells
  · next same =>
    cases same
    obtain ⟨buffer, said⟩ := Bool.and_eq_true_iff.mp tells
    obtain rfl := of_decide_eq_true buffer
    obtain ⟨r, served⟩ := served_of_return faithful returned
    have text : errorText r = text := by
      cases served
      simpa using said
    exact ⟨r, text, text ▸ served.ran returned⟩
  · cases tells

theorem buffers_agree_failures : ∃ rs,
    Filled ((Chronicle.new .standard failingEndpoints "main" .new).moves failures) rs "first\nsecond\nthird" ∧
    rs.map errorText = ["first", "", "second\n", "third"] ∧
    (["first", "", "second\n", "third"].foldl Outcome.addErrorText .empty).errorText = "first\nsecond\nthird" ∧
    ∃ pieces, Lined ["first", "", "second\n", "third"] "first\nsecond\nthird" pieces := by
  have faithful := Chronicle.faithful_moves (Chronicle.faithful_new .standard failingEndpoints "main" .new) failures
  have agreeing := buffers_agree .standard failingEndpoints "main" .new failures
  generalize reached : (Chronicle.new .standard failingEndpoints "main" .new).moves failures = c at faithful agreeing ⊢
  have said : ∀ p ∈ [("", "first"), ("first", ""), ("first", "second\n"), ("first\nsecond\n", "third")],
      c.returns.any (tells p.1 p.2) = true := by
    subst reached
    decide +kernel
  obtain ⟨r₁, text₁, ran₁⟩ := exists_ran_of_tells faithful (said ("", "first") (by simp))
  obtain ⟨r₂, text₂, ran₂⟩ := exists_ran_of_tells faithful (said ("first", "") (by simp))
  obtain ⟨r₃, text₃, ran₃⟩ := exists_ran_of_tells faithful (said ("first", "second\n") (by simp))
  obtain ⟨r₄, text₄, ran₄⟩ := exists_ran_of_tells faithful (said ("first\nsecond\n", "third") (by simp))
  have filled : Filled c [r₁, r₂, r₃, r₄] "first\nsecond\nthird" := (((Filled.new.more ran₁).more ran₂).more ran₃).more ran₄
  have texts : [r₁, r₂, r₃, r₄].map errorText = ["first", "", "second\n", "third"] := by
    simp [text₁, text₂, text₃, text₄]
  obtain ⟨same, lined⟩ := agreeing.agrees _ _ filled .empty rfl
  rw [texts] at same lined
  exact ⟨_, filled, texts, same.symm, lined⟩

end ErrorBuffers

end SessionBroker
