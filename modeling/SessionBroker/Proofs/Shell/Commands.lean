import SessionBroker.Proofs.Shell.Scene

/-!
# Running a line in a scene

What the shell's engine gives for a line, and what running the line as a command makes of a scene: at the top
level, or at the debugger's prompt while the debugger is stopped. A line that stops the debugger itself, and
one that waits to be stopped, are NOT covered here.
-/

namespace SessionBroker.Shell

/-- What the engine gives for a text that neither waits nor stops the debugger. -/
def given (text : String) : Except EngineFailure Invocation :=
  if text = "Get-Date" then .ok (.ofOutput [.string "Monday, January 1, 2024 12:00:00 PM"])
  else if text = "throw" then .error (.runtime "ScriptHalted")
  else .ok (.ofOutput [.string text])

/-- What the engine gives for a command; it tells who it is if it is asked that. -/
def givenFor (c : Command) : Except EngineFailure Invocation :=
  if c.isProbe then .ok (.ofOutput [identity.toJson]) else given c.text

/-- A text that neither waits nor stops the debugger. -/
def Plain (text : String) : Prop := text ≠ "Start-Sleep" ∧ text ≠ "Wait-Debugger"

theorem script?_demoEngine (text : String) : demoEngine.script? text =
    if text = "Get-Date" then some (.output [.string "Monday, January 1, 2024 12:00:00 PM"])
    else if text = "Start-Sleep" then some .block
    else if text = "throw" then some (.throw "ScriptHalted")
    else if text = "Wait-Debugger" then some (.break breakEvent) else none := by
  simp only [Engine.script?, demoEngine, Engine.new, List.find?_cons, eq_comm (a := text)]
  repeat' split
  all_goals simp_all

/-- What the shell tells of a command. -/
def verdict (c : Command) : Verdict := .ofResult (givenFor c)

theorem failure_verdict (c : Command) : (verdict c).failure = none := by
  unfold verdict givenFor given
  repeat' split
  all_goals rfl

theorem progress_verdict (c : Command) : (verdict c).progress = .completed := by
  unfold verdict givenFor given
  repeat' split
  all_goals rfl

/-- A command of the shell, with the number of its call. -/
def ask (call : Nat) (c : Command) : Request := ⟨call, c, .interactive⟩

/-- What the host is shown of a verdict. -/
def shown (v : Verdict) : List HostCall :=
  (v.errorText.toList.map fun text => .write .error text true) ++
    v.outcome.lines.map fun line => .write .normal line true

/-- The action that a text asks for at the debugger's prompt. -/
def wordOf? (text : String) : Option ResumeAction := ResumeAction.ofWord? (String.ofList (Text.trim text.toList))

namespace Scene

variable {x y : Scene} {flow : Nat}

/-- Either of the two may do a program, whatever belongs to the other one. -/
abbrev Does (flow : Nat) {α : Type} (p : Code α) (x : Scene) (a : α) (y : Scene) : Prop :=
  p.Evaluates body (Acts flow) x a y

theorem does_acquireTop {caller : Gate.Caller} (unheld : x.held = false) (free : caller.token = none) :
    Does flow (Leases.acquire 0 caller) x (.ok ()) { x with tickets := x.tickets + 1, held := true } :=
  .perform acts_ticket (.call (.perform (acts_lookTop unheld free) (.done _ _)) (.done _ _))

theorem does_acquireStop {s : Stop} {caller : Gate.Caller} (h : x.stop = some s) (unheld : s.held = false)
    (free : caller.token = none) :
    Does flow (Leases.acquire (x.past + 1) caller) x (.ok ())
      { x with tickets := x.tickets + 1, stop := some { s with held := true } } := by
  exact .perform acts_ticket (.call (.perform (acts_lookStop h rfl unheld free) (.done _ _)) (.done _ _))

theorem does_currentEngine : Does flow SessionChanges.currentEngine x engineName x :=
  .perform acts_session (.done _ _)

/-! ## On the engine -/

theorem does_script {c : Command} (named : c.isProbe = false) (plain : Plain c.text) :
    Does flow (Engines.run engineName c) x (given c.text) x := by
  unfold Engines.run
  rw [named, if_neg Bool.false_ne_true]
  refine .perform (acts_script c.text) ?_
  rw [script?_demoEngine, if_neg plain.1, if_neg plain.2]
  unfold given
  by_cases date : c.text = "Get-Date"
  · rw [if_pos date, if_pos date]
    exact .done _ _
  by_cases fails : c.text = "throw"
  · rw [if_neg date, if_pos fails, if_neg date, if_pos fails]
    exact .done _ _
  · rw [if_neg date, if_neg fails, if_neg date, if_neg fails]
    exact .done _ _

theorem does_probe {c : Command} (probe : c.isProbe = true) :
    Does flow (Engines.run engineName c) x (.ok (.ofOutput [identity.toJson])) x := by
  unfold Engines.run
  rw [probe, if_pos rfl]
  exact .perform acts_takeProbeHold (.perform acts_identity (.done _ _))

theorem merge_givenFor (c : Command) : (givenFor c).map Invocation.merge = givenFor c := by
  unfold givenFor given
  repeat' split
  all_goals rfl

theorem ofOutput_of_givenFor {c : Command} {i : Invocation} (h : givenFor c = .ok i) :
    Invocation.ofOutput i.output = i := by
  unfold givenFor given at h
  split at h
  · cases h; rfl
  · split at h
    · cases h; rfl
    · split at h
      · cases h
      · cases h; rfl

theorem does_invoke {c : Command} (plain : c.isProbe = false → Plain c.text) (merge nested : Bool) :
    Does flow (body (.invoke engineName c merge nested)) x (givenFor c) x := by
  have runs : Does flow (Engines.run engineName c) x (givenFor c) x := by
    unfold givenFor
    cases h : c.isProbe with
    | false => exact does_script h (plain h)
    | true => exact does_probe h
  refine .perform acts_enter (runs.bind (.perform acts_leave ?_))
  have merged : (if merge then (givenFor c).map Invocation.merge else givenFor c) = givenFor c := by
    cases merge with
    | false => rfl
    | true => exact merge_givenFor c
  rw [merged]
  exact .done _ _

/-! ## Where a command runs -/

/-- A frame and the way of a command to it: the top level, or the prompt of the stopped debugger. -/
inductive Place (stop : Option Stop) (past depth : Nat) : FrameRef → Route → Prop where
  | top : Place stop past depth top .direct
  | stop {s : Stop} : stop = some s → s.exit = none → depth = 1 → Place stop past depth (stopRef past) .prompt

variable {frame : FrameRef} {route : Route}

theorem Place.hasExited (h : Place x.stop x.past x.depth frame route) : Acts flow (.frames (.hasExited frame.id)) x false x := by
  cases h with
  | top => exact acts_hasExitedTop
  | stop hs stays hd => exact acts_hasExitedStop hs rfl stays

theorem does_atPrompt {c : Command} (stopped : x.depth = 1) (plain : c.isProbe = false → Plain c.text)
    (word : wordOf? c.text = none) :
    Does flow (Engines.atPrompt engineName c) x ((givenFor c).map fun i => ⟨i.output, none⟩) x := by
  refine .perform (acts_debugger stopped) ?_
  simp only []
  rw [if_neg (by decide), if_neg (by decide)]
  split
  · next action resumes => cases word.symm.trans resumes
  · exact .invoke (does_invoke plain true true) (.done _ _)

theorem does_through {c : Command} (plain : c.isProbe = false → Plain c.text) (merge nested : Bool) :
    Does flow (Engines.through engineName c merge nested) x (givenFor c) x :=
  .perform (acts_arrive c merge nested) (.call (does_invoke plain merge nested) (.done _ _))

theorem isProbe_probe : Command.probe.isProbe = true := by decide +kernel

theorem givenFor_probe : givenFor .probe = .ok (.ofOutput [identity.toJson]) :=
  if_pos isProbe_probe

/-- Asking the engine who it is changes nothing, since it says what it said before. -/
theorem does_refresh (h : Place x.stop x.past x.depth frame route) :
    Does flow (SessionChanges.refresh engineName (route = .prompt)) x () x := by
  have plain : Command.probe.isProbe = false → Plain Command.probe.text :=
    fun other => nomatch isProbe_probe.symm.trans other
  have asked : Does flow (SessionChanges.probe engineName (route = .prompt)) x (.ok [identity.toJson]) x := by
    cases h with
    | top =>
      refine .bind (does_through plain false true) ?_
      rw [givenFor_probe]
      exact .done _ _
    | stop hs stays hd =>
      refine .bind (does_atPrompt hd plain (by decide +kernel)) ?_
      rw [givenFor_probe]
      exact .done _ _
  have read : ((Except.ok [identity.toJson] : Except EngineFailure (List Json.Value)).toOption.bind fun output =>
      (Identity.ofProbe output).toOption) = some identity := by
    decide +kernel
  refine asked.bind ?_
  rw [read]
  exact .perform acts_stopEvent (.perform (acts_adjustments _) (.done _ _))

/-- So the probe of a stop that has just begun leaves the stop as it was. -/
theorem does_probeStop {n : Nat} (h : x.stop = some .fresh) (here : x.past = n) (depth : x.depth = 1) :
    Does flow (Debugging.probeStop (stopRef n) session) x ()
      { x with tickets := x.tickets + 1, stop := some .fresh } := by
  subst here
  let y : Scene := { x with tickets := x.tickets + 1, stop := some { Stop.fresh with held := true } }
  refine .bind (does_acquireStop h rfl rfl) (.bind (v := y) (does_refresh (x := y) (.stop rfl rfl depth)) ?_)
  exact .act (acts_releaseStop rfl rfl rfl) (.done _ _)

/-! ## Running a command -/

theorem does_begin (h : Usable x.phase) : Does flow Running.begin x ()
    { x with phase := .running, sent := x.sent ++ [.progress .running false] } :=
  .perform (acts_setRunning h) (.perform (acts_notify rfl) (.done _ _))

theorem does_send {q : Request} (h : Place x.stop x.past x.depth frame route) (plain : q.command.isProbe = false → Plain q.command.text)
    (word : route = .prompt → wordOf? q.command.text = none) :
    Does flow (Running.send frame engineName q route) x (givenFor q.command) x := by
  cases h with
  | top => exact does_through plain q.options.mergeErrors _
  | stop hs stays hd =>
    refine .bind (does_atPrompt hd plain (word rfl)) ?_
    cases hg : givenFor q.command with
    | error f => exact .done _ _
    | ok i =>
      refine .bind (.done _ _) ?_
      rw [ofOutput_of_givenFor hg]
      exact .done _ _

theorem does_writeLines (lines : List String) : Does flow (Running.writeLines lines) x ()
    { x with calls := (lines.map fun line => HostCall.write .normal line true).reverse ++ x.calls } := by
  induction lines generalizing x with
  | nil => exact .done _ _
  | cons line rest ih =>
    refine .perform (acts_call _) ?_
    have h := ih (x := { x with calls := .write .normal line true :: x.calls })
    simpa using h

theorem does_present {q : Request} (v : Verdict) (errors : q.options.showErrors = true)
    (output : q.options.showOutput = true) :
    Does flow (Running.present q v) x () { x with calls := (shown v).reverse ++ x.calls } := by
  unfold Running.present shown
  rw [errors, output]
  cases v.errorText with
  | none => simpa using does_writeLines v.outcome.lines
  | some text =>
    refine .perform (acts_call _) ?_
    simpa using does_writeLines (x := { x with calls := .write .error text true :: x.calls }) v.outcome.lines

theorem does_finish (progress : Progress) (hadErrors : Bool) (h : Usable x.phase) :
    Does flow (Running.finish progress hadErrors) x ()
      { x with phase := .ready, sent := x.sent ++ [.progress progress hadErrors] } := by
  have announced : ∀ y : Scene, Does flow (Code.broker (.notify (.progress progress hadErrors))) y ()
      { y with sent := y.sent ++ [.progress progress hadErrors] } :=
    fun y => .act (acts_notify rfl) (.done _ _)
  refine .perform (acts_endCommand h) ?_
  have aborting : x.phase ≠ .aborting := by rcases h with h | h <;> rw [h] <;> decide
  have disposed : x.phase ≠ .disposed := by rcases h with h | h <;> rw [h] <;> decide
  rw [if_neg aborting, if_neg disposed]
  split
  · exact .perform acts_clearAbortReport (announced _)
  · exact announced _

theorem does_probeAfter {q : Request} {v : Verdict} (h : Place x.stop x.past x.depth frame route) :
    Does flow (Running.probeAfter frame engineName q route v) x () x := by
  refine .perform acts_settings ?_
  split
  · exact .perform h.hasExited (does_refresh h)
  · exact .done _ _

theorem does_conclude {q : Request} {v : Verdict} (h : Place x.stop x.past x.depth frame route) (usable : Usable x.phase)
    (fine : v.failure = none) :
    Does flow (Running.conclude frame engineName q route v) x (.ok v.outcome)
      { x with phase := .ready, sent := x.sent ++ [.progress v.progress v.outcome.hadErrors] } := by
  refine .perform acts_availability ((does_probeAfter h).bind ((does_finish _ _ usable).bind ?_))
  rw [Verdict.response, fine]
  exact .done _ _

/-- What a command shows and announces. -/
def after (c : Command) (x : Scene) : Scene :=
  { x with
    phase := .ready
    calls := (shown (verdict c)).reverse ++ x.calls
    sent := x.sent ++ [.progress .running false, .progress .completed (verdict c).outcome.hadErrors] }

/-- A command of the shell does not show itself first. -/
theorem run_ask (frame : FrameRef) (e : EngineName) (call : Nat) (c : Command) (route : Route) :
    Running.run frame e (ask call c) route = Running.begin >>= fun _ =>
      Running.send frame e (ask call c) route >>= fun r =>
        Running.present (ask call c) (.ofResult r) >>= fun _ =>
          Running.conclude frame e (ask call c) route (.ofResult r) := rfl

theorem does_run {c : Command} {call : Nat} (h : Place x.stop x.past x.depth frame route) (usable : Usable x.phase)
    (plain : c.isProbe = false → Plain c.text) (word : route = .prompt → wordOf? c.text = none) :
    Does flow (body (.runCommand frame engineName (ask call c) route)) x (.ok (verdict c).outcome) (x.after c) := by
  change Does flow (Running.run frame engineName (ask call c) route) x _ _
  rw [run_ask]
  have announced : x.after c = { x with
      phase := .ready
      calls := (shown (verdict c)).reverse ++ x.calls
      sent := x.sent ++ [.progress .running false] ++
        [.progress (verdict c).progress (verdict c).outcome.hadErrors] } := by
    rw [after, progress_verdict, List.append_assoc]
    rfl
  rw [announced]
  refine .bind (does_begin usable) ?_
  refine .bind (does_send h plain word) ?_
  refine .bind (does_present (verdict c) rfl rfl) ?_
  exact does_conclude h (.inr rfl) (failure_verdict c)

/-! ## The way of a command -/

/-- What the broker looks like at the top level while nobody reads. -/
theorem does_surroundings (running : x.depth = 0) (idle : x.reading = false) :
    Does flow (Routing.surroundings top) x ⟨.topLevel, false, false, false, false, false⟩ x :=
  .perform acts_session (.perform (acts_debugger running) (.perform (acts_isActive idle)
    (.perform acts_isInvoking (.perform acts_isServerTop (.done _ _)))))

end Scene

namespace Desk

variable {x y : Scene} {d : Desk} {flow : Nat} {α : Type} {p : Code α} {a : α}

/-- The reader may do a program, whatever is kept backstage. -/
abbrev Does (flow : Nat) {α : Type} (p : Code α) (v : Scene × Desk) (a : α) (w : Scene × Desk) : Prop :=
  p.Evaluates body (Acts flow) v a w

theorem does_of_scene (h : Scene.Does flow p x a y) : Does flow p (x, d) a (y, d) :=
  h.lift (fun x => (x, d)) Acts.of_scene

/-- What the broker looks like at the debugger's prompt while nobody reads. -/
theorem does_surroundings {s : Stop} (h : x.stop = some s) (stopped : x.depth = 1) (idle : x.reading = false) :
    Does flow (Routing.surroundings (stopRef x.past)) (x, d) ⟨.debug, false, true, false, false, true⟩ (x, d) :=
  .perform (.of_scene Scene.acts_session) (.perform (.of_scene (Scene.acts_debugger stopped))
    (.perform (.of_scene (Scene.acts_isActive idle)) (.perform (.of_scene Scene.acts_isInvoking)
      (.perform (acts_isServer h rfl) (.done _ _)))))

/-- A line of the debugger's prompt that neither resumes it nor stops it once more is run as a command. -/
theorem does_submit {text : String} (stopped : x.stop = some .fresh) (depth : x.depth = 1)
    (idle : x.reading = false) (usable : Scene.Usable x.phase) (plain : Plain text)
    (word : wordOf? text = none) :
    Does flow (Routing.submit (.named text) .interactive none) (x, d) (.ok (verdict (.named text)).outcome)
      ({ x.after (.named text) with
        tickets := x.tickets + 2
        history := x.history ++ [text]
        stop := some .fresh }, d) := by
  have undisposed : x.phase ≠ .disposed := by rcases usable with h | h <;> rw [h] <;> decide
  refine .perform (.of_scene Scene.acts_ticket) (.call ?_ (.done _ _))
  refine .perform (.of_scene (Scene.acts_phase rfl)) ?_
  rw [if_neg undisposed]
  refine .bind (.bind (does_of_scene Scene.does_currentEngine)
    (.act (.of_scene (Scene.acts_remember text)) (.done _ _))) (.bind (.done _ _) ?_)
  refine .invoke ?_ (.bind (.done _ _) (.done _ _))
  refine .perform (.of_scene (Scene.acts_currentStop stopped rfl)) ?_
  refine .bind (does_surroundings stopped depth idle) ?_
  refine .bind (a := .ok (verdict (.named text)).outcome) ?_ (.done _ _)
  refine .bind (does_of_scene Scene.does_currentEngine) ?_
  refine .bind (does_of_scene (Scene.does_acquireStop stopped rfl rfl)) ?_
  refine .invoke (does_of_scene (Scene.does_run (.stop rfl rfl depth) usable (fun _ => plain) fun _ => word)) ?_
  exact .perform (.of_scene (Scene.acts_releaseStop rfl rfl rfl)) (.done _ _)

end Desk

namespace Backstage

variable {x y : Scene} {flow reader : Nat} {α : Type} {p : Code α} {a : α}

/-- The runner may do a program, whatever stands on the desk. -/
abbrev Does (flow reader : Nat) {α : Type} (p : Code α) (x : Scene) (a : α) (y : Scene) : Prop :=
  p.Evaluates body (Acts flow reader) x a y

theorem does_of_scene (h : Scene.Does flow p x a y) : Does flow reader p x a y :=
  h.lift id Acts.of_scene

/-- Leaving a stop that has been resumed takes its frame off and tears it down. -/
theorem does_leaveStop {s : Stop} {n : Nat} {action : ResumeAction} (h : x.stop = some s) (here : x.past = n)
    (exit : s.exit = some action) (on : s.onStack = true) (whole : s.torn = false) (usable : Scene.Usable x.phase) :
    Does flow reader (Debugging.leaveStop (stopRef n) action) x ()
      { x with
        event := none
        sent := x.sent ++ [.debuggerResumed action]
        phase := if action = .stop then x.phase else .running
        past := n + 1
        stop := none } := by
  have popped : ∀ y : Scene, y.stop = some s → y.past = n → Does flow reader (Aborting.popFrame (n + 1)) y ()
      { y with past := n + 1, stop := none } := fun _ hs here =>
    .perform (acts_remove hs here on) (.perform (acts_dispose rfl here exit whole)
      (.perform (acts_closeGate rfl here rfl rfl) (.done _ _)))
  refine .perform (.of_scene (Scene.acts_setStopEvent none)) ?_
  refine .perform (.of_scene (Scene.acts_notify rfl)) ?_
  by_cases stop : action = .stop
  · rw [if_pos stop, if_pos stop]
    exact .perform (.of_scene Scene.acts_session) (popped _ h here)
  · rw [if_neg stop, if_neg stop]
    exact .perform (.of_scene (Scene.acts_setRunning usable)) (popped _ h here)

end Backstage

end SessionBroker.Shell
