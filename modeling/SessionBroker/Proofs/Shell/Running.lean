import SessionBroker.Proofs.Shell.Session

/-!
# The command under way

What comes of a line that the reader has handed over: the runner runs it as a command and reports its end.
A command that stops the debugger has the runner attend to a session of it in between.
-/

namespace SessionBroker.Shell

variable {reader runner p q start : Nat} {x y : Scene} {d : Desk} {request : String}
  {loop : Waiting brokerInterface (.shellLoop q)} {awaited : Option Nat} {goal : BrokerConfig → Prop}
  {ne : runner ≠ reader}

/-- The shell is at its own prompt, and nothing is under way. -/
structure Scene.Home (x : Scene) : Prop where
  stop : x.stop = none
  depth : x.depth = 0
  idle : x.reading = false
  readers : x.readers = []
  unheld : x.held = false
  ready : x.phase = .ready

/-- The scene in which a line is run as a command. -/
def Scene.taken (text : String) (x : Scene) : Scene :=
  { x with holders := x.holders + 1, tickets := x.tickets + 2, history := x.history ++ [text], held := true }

/-- The scene when the reader has shown a stop of the debugger. -/
def Scene.announced (event : StopEvent) (x : Scene) : Scene :=
  { x with
    sent := x.sent ++ [.debuggerStop event]
    calls := .write .normal (stopText event) true :: x.calls }

/-- The runner announces a stop of the debugger and serves it. The reader comes to know of it, has a session
of the debugger, and ends it; then the runner goes on. -/
theorem stops {event : StopEvent} {n : Nat} {α : Type} {f : ResumeAction → Code α}
    {Ends : α → Situation brokerMachine runner → Prop} (here : x.past = n) (stopped : x.Stopped)
    (few : x.sent.length < start + 256) (plain : ∀ line ∈ x.lines, trimmed line ≠ "Start-Sleep")
    (calm : isCalm .stopped x.lines = true)
    (rest : ∀ y action, Ended (x.announced event) y →
      (runs reader runner ne request loop (some (n + 1)) start (resumed action y)).Reaches (f action) Ends) :
    (runs reader runner ne request loop none start x).Reaches
      (Code.broker (.notify (.debuggerStop event)) >>= fun _ => Code.invoke (.messageLoop (stopRef n)) >>= f) Ends := by
  subst here
  intro proc next wait goal h
  refine .act fun {_ c} now hc => ?_
  obtain ⟨d, g, k, p, stage, hg, coming, listens, -⟩ := now
  obtain ⟨b, j, fits, other, shared⟩ := stage.stands
  refine ⟨(), _, fun pick => by rw [shared]; rfl, ?_⟩
  let z : Scene := { x with sent := x.sent ++ [.debuggerStop event] }
  have le := listens.le
  have start_le := listens.start_le
  have length : z.sent.length = x.sent.length + 1 := by simp [z]
  have stop : firstStop? (z.sent.drop p) = some (z.sent.length - p - 1, event) := by
    rw [List.drop_append_of_le_length le, firstStop?_append, listens.unannounced, length]
    simp [firstStop?]
    omega
  have arrives : (attended ne (fun action => f action >>= next) wait (z, d)).Ensures g goal := by
    refine coming.arrives (attended_acts ne) (by simp) fun listening hears => ?_
    refine hears_stop (by omega) (by omega) stop ?_
    refine session_ends (x := x.announced event)
      ⟨stopped.stop, stopped.depth, stopped.idle, stopped.readers, stopped.usable, stopped.event⟩ plain calm ?_
      (coming_afterSession hears) fun y action ended => rest y action ended _ _ _ _ h
    exact ⟨by omega, by simp [z, Scene.announced], by simp [z, Scene.announced, firstStop?], listens.unreported⟩
  have stage : Stage (z.seen reader d) runner reader { c with shared := z.world d b j } :=
    stage.share ⟨b, j, ⟨fits.count, fits.torn⟩, other, rfl⟩
  have isOpen : z.isOpen = true := by simp [z, Scene.isOpen, stopped.stop, Stop.fresh]
  exact arrives _ _ ⟨(stage.update (.inl rfl) _).swap, isOpen, _, 3,
    Config.find?_update_self (c := { c with shared := z.world d b j }) hc, .calls, le_rfl⟩
    ((Config.find?_update_of_ne (Ne.symm ne)).trans hg)

/-- The scene in which a stop of the debugger is announced. -/
def Scene.broken (x : Scene) : Scene :=
  { x with
    holders := x.holders + 1
    event := some breakEvent
    tickets := x.tickets + 1
    stop := some .fresh }

/-- The scene once a stop of the debugger has been left. -/
def Scene.leaving (action : ResumeAction) (y : Scene) : Scene :=
  { y with
    tickets := y.tickets + 1
    event := none
    sent := y.sent ++ [.debuggerResumed action]
    phase := if action = .stop then y.phase else .running
    past := y.past + 1
    stop := none
    holders := y.holders - 1 }

/-- A stop of the debugger is serviced from its beginning to its end. -/
theorem services (nobody : x.stop = none) (depth : x.depth = 1) (idle : x.reading = false)
    (readers : x.readers = []) (usable : Scene.Usable x.phase) (owned : x.holders ≠ 0)
    (few : x.sent.length < start + 256) (plain : ∀ line ∈ x.lines, trimmed line ≠ "Start-Sleep")
    (calm : isCalm .stopped x.lines = true) :
    (runs reader runner ne request loop none start x).Reaches
      (Debugging.stopped .broker engineName breakEvent) fun action Q =>
        ∃ y, Ended (x.broken.announced breakEvent) y ∧
          Q = runs reader runner ne request loop (some (x.past + 1)) start (y.leaving action) := by
  have probed : Scene.Does runner (Debugging.probeStop (stopRef x.past) session)
      { x.broken with tickets := x.tickets } () x.broken := Scene.does_probeStop rfl rfl depth
  refine .perform (runs_acts (.of_scene (Scene.acts_upgrade owned))) ?_
  refine .bind (E := fun action Q => ∃ y, Ended (x.broken.announced breakEvent) y ∧
    Q = runs reader runner ne request loop (some (x.past + 1)) start
      { y.leaving action with holders := y.holders }) ?_ ?_
  · refine .perform (runs_acts (.of_scene (Scene.acts_setStopEvent (some breakEvent)))) ?_
    refine .perform (runs_acts (.of_scene Scene.acts_isAttached)) ?_
    refine .perform (runs_acts (.of_scene (Scene.acts_isActive idle))) ?_
    refine .perform (runs_acts (.of_scene Scene.acts_session)) ?_
    refine .perform (runs_acts (Backstage.acts_push nobody)) ?_
    refine .perform (runs_acts (.of_scene Scene.acts_settings)) ?_
    refine .leads (.done ()) (.leads (runs_leads (Backstage.does_of_scene probed)) ?_)
    refine .perform (runs_acts (.of_scene (Scene.acts_hasExitedStop rfl rfl rfl))) ?_
    refine stops rfl ⟨rfl, depth, idle, readers, usable, rfl⟩ few plain calm fun y action ended => ?_
    have left : Backstage.Does runner reader (Debugging.leaveStop (stopRef x.past) action) (resumed action y) ()
        { y.leaving action with holders := y.holders } := by
      have here : y.past = x.past := ended.passes.past
      rw [← here]
      exact Backstage.does_leaveStop rfl rfl rfl rfl rfl ended.stopped.usable
    exact .leads (runs_leads left) (.done ⟨y, ended, rfl⟩)
  · rintro action _ ⟨y, ended, rfl⟩
    exact .perform (runs_acts (.of_scene Scene.acts_letGo)) (.done ⟨y, ended, rfl⟩)

/-- What the engine gives for a command that stopped the debugger. -/
def remains (action : ResumeAction) : Except EngineFailure Invocation :=
  if action = .stop then .error .stopped else .ok .empty

/-- How the command that stops the debugger ends on the engine. -/
def Broke (ne : runner ≠ reader) (request : String) (loop : Waiting brokerInterface (.shellLoop q)) (start : Nat)
    (x : Scene) (r : Except EngineFailure Invocation) (Q : Situation brokerMachine runner) : Prop :=
  ∃ y action, Ended (Scene.announced breakEvent { x.broken with depth := x.depth + 1 }) y ∧ r = remains action ∧
    Q = runs reader runner ne request loop (some (x.past + 1)) start { y.leaving action with depth := 0 }

/-- The engine runs the command that stops the debugger. -/
theorem breaks (nobody : x.stop = none) (depth : x.depth = 0) (idle : x.reading = false)
    (readers : x.readers = []) (usable : Scene.Usable x.phase) (owned : x.holders ≠ 0)
    (few : x.sent.length < start + 256) (plain : ∀ line ∈ x.lines, trimmed line ≠ "Start-Sleep")
    (calm : isCalm .stopped x.lines = true) :
    (runs reader runner ne request loop none start x).Reaches
      (Engines.run engineName (.script "Wait-Debugger")) (Broke ne request loop start x) := by
  have script : demoEngine.script? "Wait-Debugger" = some (.break breakEvent) := by
    rw [script?_demoEngine]
    rfl
  have code : Engines.run engineName (.script "Wait-Debugger") =
      Code.engine engineName (.script "Wait-Debugger") >>= fun script => match script with
        | none => pure (.ok (.ofOutput [.string "Wait-Debugger"]))
        | some s => Engines.runScript engineName s := if_neg (by decide +kernel)
  rw [code]
  refine .perform (runs_acts (.of_scene (Scene.acts_script _))) ?_
  rw [script]
  refine .perform (runs_acts (.of_scene Scene.acts_hooks)) ?_
  refine .perform (runs_acts (.of_scene Scene.acts_enterStop)) ?_
  refine .invoke (services nobody (congrArg (· + 1) depth) idle readers usable owned few plain calm) ?_
  rintro action _ ⟨y, ended, rfl⟩
  refine .perform (runs_acts (.of_scene Scene.acts_leaveStop)) (.done ⟨y, action, ended, rfl, ?_⟩)
  have back : (y.leaving action).depth - 1 = 0 := by
    change y.depth - 1 = 0
    rw [ended.stopped.depth]
  rw [back]

theorem sends {call : Nat} (nobody : x.stop = none) (depth : x.depth = 0) (idle : x.reading = false)
    (readers : x.readers = []) (usable : Scene.Usable x.phase) (owned : x.holders ≠ 0)
    (few : x.sent.length < start + 256) (plain : ∀ line ∈ x.lines, trimmed line ≠ "Start-Sleep")
    (calm : isCalm .stopped x.lines = true) :
    (runs reader runner ne request loop none start x).Reaches
      (Running.send top engineName (ask call (.script "Wait-Debugger")) .direct) (Broke ne request loop start x) := by
  refine .perform (runs_acts (.of_scene (Scene.acts_arrive _ _ _))) (.invoke ?_ fun _ _ broke => .done broke)
  refine .perform (runs_acts (.of_scene Scene.acts_enter)) ?_
  refine .bind (breaks nobody depth idle readers usable owned few plain calm) ?_
  rintro _ _ ⟨y, action, ended, rfl, rfl⟩
  exact .perform (runs_acts (.of_scene Scene.acts_leave)) (.done ⟨y, action, ended, rfl, rfl⟩)

/-- Such a command shows nothing but that it stopped. -/
theorem verdict_remains (action : ResumeAction) :
    shown (.ofResult (remains action)) = [] ∧ (Verdict.ofResult (remains action)).failure = none := by
  unfold remains
  split <;> exact ⟨rfl, rfl⟩

/-- What there is when a line of the shell's prompt has been run as a command, as the reference says; the
lease of the top level is still out. -/
structure Ran (text : String) (x : Scene) (awaited : Option Nat) (y : Scene) : Prop where
  home : Scene.Home { y with held := false }
  held : y.held = true
  reports : y.reports = x.reports
  tickets : x.tickets < y.tickets
  fewer : y.lines.length ≤ x.lines.length
  mem : ∀ line ∈ y.lines, line ∈ x.lines
  same : read (if text = "Wait-Debugger" then .stopped else .main) x.lines (x.sheet.answer .main text) =
    read .main y.lines y.sheet
  calm : isCalm .main y.lines = true
  known : ∀ id, awaited = some id → 0 < id ∧ id ≤ y.past

/-- A line that does not stop the debugger is run. -/
theorem runs_plain {text : String} {call : Nat} (home : x.Home) (some_ : text ≠ "") (stays : text ≠ "exit")
    (plain : Plain text) (calm : isCalm .main x.lines = true) :
    (runs reader runner ne request loop none start (x.taken text)).Reaches
      (body (.runCommand top engineName (ask call (.script text)) .direct)) fun r Q =>
        ∃ o awaited y, Ran text x awaited y ∧ r = .ok o ∧
          Q = runs reader runner ne request loop awaited start y := by
  have does : Scene.Does runner (body (.runCommand top engineName (ask call (.script text)) .direct)) (x.taken text)
      (.ok (verdict (.script text)).outcome) ((x.taken text).after (.script text)) :=
    Scene.does_run .top (.inl home.ready) (fun _ => plain) nofun
  refine .of_leads (runs_leads (Backstage.does_of_scene does))
    ⟨_, none, (x.taken text).after (.script text), ⟨⟨home.stop, home.depth, home.idle, home.readers, rfl, rfl⟩, rfl, rfl, ?_, le_rfl, fun _ hl => hl,
      ?_, calm, nofun⟩, rfl, rfl⟩
  · simp [Scene.after, Scene.taken]
  · rw [if_neg plain.2, Sheet.answer, if_neg some_]
    simp only [if_neg stays, if_neg plain.2]
    rw [← Scene.sheet_script]
    rfl

/-- The scene in which the session of the debugger begins. -/
def Scene.met (x : Scene) : Scene :=
  { x.taken "Wait-Debugger" with phase := .running, sent := x.sent ++ [.progress .running false] }

theorem ran_of_ended (action : ResumeAction)
    (ended : Ended (Scene.announced breakEvent { x.met.broken with depth := x.met.depth + 1 }) y) (sent : List Notice) :
    Ran "Wait-Debugger" x (some (x.past + 1)) { y.leaving action with depth := 0, phase := .ready, sent := sent } where
  home := ⟨rfl, rfl, ended.stopped.idle, ended.stopped.readers, rfl, rfl⟩
  held := ended.passes.held
  reports := ended.passes.quiet.reports
  tickets := by
    have tickets : x.tickets + 2 + 1 ≤ y.tickets := ended.passes.tickets
    change x.tickets < y.tickets + 1
    omega
  fewer := ended.passes.fewer
  mem := ended.passes.mem
  same := by
    refine Eq.trans ?_ ended.same
    have shows : x.sheet.answer .main "Wait-Debugger" =
        (x.sheet.note "Wait-Debugger").write .normal (stopText breakEvent) true := rfl
    rw [if_pos rfl, shows]
    exact congrArg (read .stopped x.lines) (Scene.sheet_write (x := x.taken "Wait-Debugger") ..).symm
  calm := ended.calm
  known := by
    rintro _ ⟨⟩
    have here : y.past = x.past := ended.passes.past
    change 0 < x.past + 1 ∧ x.past + 1 ≤ y.past + 1
    omega

/-- The line that stops the debugger is run. -/
theorem runs_break {call : Nat} (home : x.Home) (few : x.sent.length + 1 < start + 256)
    (plain : ∀ line ∈ x.lines, trimmed line ≠ "Start-Sleep") (calm : isCalm .stopped x.lines = true) :
    (runs reader runner ne request loop none start (x.taken "Wait-Debugger")).Reaches
      (body (.runCommand top engineName (ask call (.script "Wait-Debugger")) .direct)) fun r Q =>
        ∃ o awaited y, Ran "Wait-Debugger" x awaited y ∧ r = .ok o ∧
          Q = runs reader runner ne request loop awaited start y := by
  change Situation.Reaches _ (Running.run top engineName (ask call (.script "Wait-Debugger")) .direct) _
  rw [Scene.run_ask]
  have sent : (x.sent ++ [Notice.progress .running false]).length < start + 256 := by simpa using few
  refine .leads (runs_leads (Backstage.does_of_scene (Scene.does_begin (.inl home.ready)))) ?_
  refine .bind (sends home.stop home.depth home.idle home.readers (.inr rfl) (Nat.succ_ne_zero _) sent plain calm) ?_
  rintro _ _ ⟨y, action, ended, rfl, rfl⟩
  obtain ⟨unshown, fine⟩ := verdict_remains action
  have usable : Scene.Usable (y.leaving action).phase := by
    unfold Scene.leaving
    split
    · exact ended.stopped.usable
    · exact .inr rfl
  have presented : Scene.Does runner (Running.present (ask call (.script "Wait-Debugger")) (.ofResult (remains action)))
      { y.leaving action with depth := 0 } () { y.leaving action with depth := 0 } := by
    have shows : Scene.Does runner _ { y.leaving action with depth := 0 } () _ :=
      Scene.does_present (q := ask call (.script "Wait-Debugger")) (.ofResult (remains action)) rfl rfl
    rwa [unshown] at shows
  refine .leads (runs_leads (Backstage.does_of_scene presented)) ?_
  refine .of_leads (runs_leads (Backstage.does_of_scene (Scene.does_conclude .top usable fine))) ?_
  exact ⟨_, _, _, ran_of_ended action ended _, rfl, rfl⟩

theorem runs_line {text : String} {call : Nat} (home : x.Home) (some_ : text ≠ "") (stays : text ≠ "exit")
    (awake : text ≠ "Start-Sleep") (few : x.sent.length + 1 < start + 256)
    (plain : ∀ line ∈ x.lines, trimmed line ≠ "Start-Sleep")
    (calm : isCalm (if text = "Wait-Debugger" then .stopped else .main) x.lines = true) :
    (runs reader runner ne request loop none start (x.taken text)).Reaches
      (body (.runCommand top engineName (ask call (.script text)) .direct)) fun r Q =>
        ∃ o awaited y, Ran text x awaited y ∧ r = .ok o ∧
          Q = runs reader runner ne request loop awaited start y := by
  by_cases breaks : text = "Wait-Debugger"
  · subst breaks
    exact runs_break home few plain calm
  · rw [if_neg breaks] at calm
    exact runs_plain home some_ stays ⟨awake, breaks⟩ calm

/-- Once a line has been run the lease is given back. -/
theorem routes {text : String} {call : Nat} (home : x.Home) (some_ : text ≠ "") (stays : text ≠ "exit")
    (awake : text ≠ "Start-Sleep") (few : x.sent.length + 1 < start + 256)
    (plain : ∀ line ∈ x.lines, trimmed line ≠ "Start-Sleep")
    (calm : isCalm (if text = "Wait-Debugger" then .stopped else .main) x.lines = true) :
    (runs reader runner ne request loop none start
      { x with holders := x.holders + 1, tickets := x.tickets + 1, history := x.history ++ [text] }).Reaches
      (body (.route (ask call (.script text)) none)) fun r Q =>
        ∃ o awaited y, Ran text x awaited y ∧ r = .ok o ∧
          Q = runs reader runner ne request loop awaited start { y with held := false } := by
  let z : Scene := { x with holders := x.holders + 1, tickets := x.tickets + 1, history := x.history ++ [text] }
  have around : Scene.Does runner (Routing.surroundings top) z _ z := Scene.does_surroundings home.depth home.idle
  refine .perform (runs_acts (.of_scene (Scene.acts_currentTop home.stop))) ?_
  refine .leads (runs_leads (Backstage.does_of_scene around)) ?_
  refine .bind (E := fun r Q => ∃ o awaited y, Ran text x awaited y ∧ r = .ok o ∧
    Q = runs reader runner ne request loop awaited start { y with held := false }) ?_ ?_
  · refine .leads (runs_leads (Backstage.does_of_scene Scene.does_currentEngine)) ?_
    refine .leads (runs_leads (Backstage.does_of_scene (Scene.does_acquireTop home.unheld rfl))) ?_
    refine .invoke (runs_line home some_ stays awake few plain calm) ?_
    rintro _ _ ⟨o, awaited, y, ran, rfl, rfl⟩
    exact .perform (runs_acts (.of_scene (Scene.acts_releaseTop ran.held))) (.done ⟨o, awaited, y, ran, rfl, rfl⟩)
  · rintro _ _ ⟨o, awaited, y, ran, rfl, rfl⟩
    exact .done ⟨o, awaited, y, ran, rfl, rfl⟩

/-- A line that the reader has handed over is run, and then nothing is left but to report its end. -/
theorem serves {text name : String} (home : x.Home) (some_ : text ≠ "") (stays : text ≠ "exit")
    (awake : text ≠ "Start-Sleep") (few : x.sent.length + 1 < start + 256)
    (plain : ∀ line ∈ x.lines, trimmed line ≠ "Start-Sleep")
    (calm : isCalm (if text = "Wait-Debugger" then .stopped else .main) x.lines = true)
    (h : ∀ o awaited y, Ran text x awaited y →
      (runs reader runner ne request loop awaited start
        { y with held := false, holders := y.holders - 1 }).Ensures
          ⟨.serveClient name (.execute (.script text) .interactive none),
            .act (.broker (.report name (.response (.ok o)))) .done, .root _⟩ goal) :
    (runs reader runner ne request loop none start x).Ensures
      ⟨.serveClient name (.execute (.script text) .interactive none),
        brokerMachine.body (.serveClient name (.execute (.script text) .interactive none)), .root _⟩ goal := by
  have submitted : (runs reader runner ne request loop none start { x with holders := x.holders + 1 }).Reaches
      (Clients.handle (.execute (.script text) .interactive none)) fun report Q =>
        ∃ o awaited y, Ran text x awaited y ∧ report = .response (.ok o) ∧
          Q = runs reader runner ne request loop awaited start { y with held := false } := by
    have remembered : Scene.Does runner
        (SessionChanges.currentEngine >>= fun e => Code.engine e (.remember text))
        { x with holders := x.holders + 1, tickets := x.tickets + 1 } ()
        { x with holders := x.holders + 1, tickets := x.tickets + 1, history := x.history ++ [text] } :=
      .bind Scene.does_currentEngine (.act (Scene.acts_remember text) (.done _ _))
    refine .bind (E := fun r Q => ∃ o awaited y, Ran text x awaited y ∧ r = .ok o ∧
      Q = runs reader runner ne request loop awaited start { y with held := false }) ?_ ?_
    · refine .perform (runs_acts (.of_scene Scene.acts_ticket)) (.invoke ?_ fun _ _ ends => .done ends)
      refine .perform (runs_acts (.of_scene (Scene.acts_phase home.ready))) ?_
      refine .leads (runs_leads (Backstage.does_of_scene remembered)) (.leads (.done ()) ?_)
      refine .invoke (routes home some_ stays awake few plain calm) ?_
      exact fun _ _ ends => .leads (.done ()) (.done ends)
    · rintro _ _ ⟨o, awaited, y, ran, rfl, rfl⟩
      exact .done ⟨o, awaited, y, ran, rfl, rfl⟩
  refine .performs (runs_acts (.of_scene Scene.acts_hold)) ?_
  refine submitted _ _ _ _ ?_
  rintro _ _ ⟨o, awaited, y, ran, rfl, rfl⟩
  exact .performs (runs_acts (.of_scene Scene.acts_letGo)) (h o awaited y ran)

end SessionBroker.Shell
