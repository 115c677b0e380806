import SessionBroker.Proofs.Shell.Cast
import SessionBroker.Proofs.Shell.Reading

/-!
# A session of the debugger

While the runner attends to a stop, the reader reads lines at the debugger's prompt and runs them, until one
of them, or the end of the input, resumes the debugger. What has been written and run by then is what the
reference says. From there on the runner is at work again, and the reader comes back to listening.
-/

namespace SessionBroker.Shell

variable {reader runner p q : Nat} {x y : Scene} {d : Desk} {request : String}
  {loop : Waiting brokerInterface (.shellLoop q)} {awaited : Option Nat} {goal : BrokerConfig → Prop}

/-- At work itself, the reader comes to listening with its own prompt on its desk. -/
theorem Coming.arrives {A : Scene × Desk → Situation brokerMachine reader}
    (sound : ∀ {action v r w}, Desk.Acts reader action v r w → (A v).Acts action r (A w))
    {f : Flow brokerInterface} {k : Nat} (coming : Coming request loop awaited p d f k)
    (known : ∀ id, awaited = some id → 0 < id ∧ id ≤ x.past)
    (h : ∀ wait, Hears request loop wait →
      (A (x, home)).Ensures ⟨.shellWait request p, brokerMachine.body (.shellWait request p), wait⟩ goal) :
    (A (x, d)).Ensures f goal := by
  induction coming with
  | listens hears => exact h _ hears
  | calls _ ih => exact .enters ih
  | returns _ ih => exact .returns ih
  | awaitFinish which _ ih =>
    obtain ⟨pos, le⟩ := known _ which
    exact .performs (sound (.of_scene (Scene.acts_awaitFinish pos le))) ih
  | leaveResume _ ih => exact .performs (sound (Desk.acts_leaveResume _)) ih
  | setPrompt _ ih => exact .performs (sound (Desk.acts_setPrompt _)) ih

/-- What stands on the desk while the debugger is stopped. -/
def desk : Desk := ⟨debuggerPrompt, []⟩

/-- What the reader does after a session of the debugger. -/
def afterSession (request : String) (position : Nat) (_ : Unit) : Code Nat := do
  Code.host (.setPrompt prompt)
  Code.invoke (.shellWait request position)

theorem heard_of_stop {news : News} {before : Nat} {event : StopEvent}
    (h : firstStop? news.notices = some (before, event)) :
    heard request p news = Running.write .normal (stopText event) >>= fun _ =>
      Code.host (.setPrompt debuggerPrompt) >>= fun _ =>
        Code.invoke .shellDebugger >>= afterSession request (p + news.lost + before + 1) := by
  unfold heard
  rw [h]
  rfl

/-- Who returns from a session of the debugger comes back to listening. -/
theorem coming_afterSession {p' : Nat} {wait : Waiting brokerInterface (.shellWait request p')}
    (hears : Hears request loop wait) :
    Coming request loop awaited p desk
      ⟨.shellDebugger, .done (),
        @Waiting.caller brokerInterface _ (.shellWait request p') (afterSession request p) wait⟩ 3 :=
  .returns (.setPrompt (.calls (.listens hears.again)))

section Attended

variable {proc : Proc} {next : ResumeAction → Code proc.Result} {wait : Waiting brokerInterface proc}
  {ne : runner ≠ reader}

/-- The reader gets to know of a stop, shows it and turns to the debugger's prompt. -/
theorem hears_stop {event : StopEvent} {listening : Waiting brokerInterface (.shellWait request p)}
    (more : p < x.sent.length) (few : x.sent.length ≤ p + 256)
    (stop : firstStop? (x.sent.drop p) = some (x.sent.length - p - 1, event))
    (h : (attended ne next wait
      ({ x with calls := .write .normal (stopText event) true :: x.calls }, desk)).Ensures
        ⟨.shellDebugger, brokerMachine.body .shellDebugger,
          @Waiting.caller brokerInterface _ (.shellWait request p) (afterSession request x.sent.length) listening⟩
        goal) :
    (attended ne next wait (x, home)).Ensures
      ⟨.shellWait request p, brokerMachine.body (.shellWait request p), listening⟩ goal := by
  rw [body_shellWait]
  refine .performs (attended_acts ne (Desk.acts_awaitNews rfl (.inl more))) ?_
  have first : max p (x.sent.length - 256) = p := by omega
  have position : p + (max p (x.sent.length - 256) - p) + (x.sent.length - p - 1) + 1 = x.sent.length := by omega
  change (attended ne next wait (x, home)).Ensures ⟨.shellWait request p,
    heard request p (newsAt x p ((x.reports.find? (·.1 = request)).map (·.2))), listening⟩ goal
  have stop' : firstStop? (newsAt x p ((x.reports.find? (·.1 = request)).map (·.2))).notices =
      some (x.sent.length - p - 1, event) := by rw [newsAt, first, stop]
  have code := @heard_of_stop p request _ _ _ stop'
  have whole : p + (newsAt x p ((x.reports.find? (·.1 = request)).map (·.2))).lost + (x.sent.length - p - 1) + 1 =
      x.sent.length := position
  rw [whole] at code
  rw [code]
  refine .performs (attended_acts ne (.of_scene (Scene.acts_call _))) ?_
  refine .performs (attended_acts ne (Desk.acts_setPrompt debuggerPrompt)) ?_
  exact .enters h

/-- The scene once the debugger has been resumed. -/
def resumed (action : ResumeAction) (x : Scene) : Scene :=
  { x with tickets := x.tickets + 1, stop := some { Stop.fresh with exit := some action } }

/-- Once the debugger is resumed the runner is at work, wherever it stood. -/
theorem exits {callee : Proc} {then_ : Bool → Code callee.Result} {below : Waiting brokerInterface callee}
    {s : Stop} {action : ResumeAction} {start k : Nat} (stop : x.stop = some s)
    (listens : Listens request x start p) (coming : Coming request loop awaited p d ⟨callee, then_ true, below⟩ k)
    (h : ∀ f j, Attends x.past next wait f j →
      (runs reader runner ne request loop awaited start
        { x with stop := some { s with exit := some action } }).Ensures f goal) :
    (attended ne next wait (x, d)).Ensures
      ⟨callee, .act (.frames (.tryExit (x.past + 1) action)) then_, below⟩ goal := by
  refine .act fun {n c} now hc => ?_
  obtain ⟨stage, open_, f, j, hf, attends, -⟩ := now
  obtain ⟨b, l, fits, other, shared⟩ := stage.stands
  obtain ⟨t, ht, stays, whole⟩ := exists_stop_of_isOpen open_
  obtain rfl : s = t := Option.some.inj (stop.symm.trans ht)
  refine ⟨_, _, fun pick => by rw [shared]; exact Scene.performs_tryExit stop fits stays whole pick, ?_⟩
  refine h f j attends _ _ ⟨d, _, k, p, ?_, Config.find?_update_self (c := { c with shared := _ }) hc, coming,
    listens.quiet (.of_eq rfl rfl), le_rfl⟩ ((Config.find?_update_of_ne ne).trans hf)
  have after : Stage (Scene.seen { x with stop := some { s with exit := some action } } reader d) reader runner
      { c with shared := Scene.world { x with stop := some { s with exit := some action } } d b l } :=
    stage.share ⟨b, l, ⟨fits.count, fits.torn⟩, other, rfl⟩
  exact (after.update (.inl rfl) _).swap

/-- The runner goes on as soon as it comes to know that the debugger was resumed. -/
theorem Attends.ends {past start k : Nat} {f : Flow brokerInterface} {s : Stop} {action : ResumeAction}
    (attends : Attends past next wait f k) (here : x.past = past) (stop : x.stop = some s)
    (exit : s.exit = some action)
    (h : (runs reader runner ne request loop awaited start x).Ensures ⟨proc, next action, wait⟩ goal) :
    (runs reader runner ne request loop awaited start x).Ensures f goal := by
  subst here
  have serves : (runs reader runner ne request loop awaited start x).Ensures
      ⟨.serveNext (stopRef x.past), brokerMachine.body (.serveNext (stopRef x.past)),
        @Waiting.caller brokerInterface _ (.messageLoop (stopRef x.past)) .done (.caller next wait)⟩ goal :=
    .performs (runs_acts (Backstage.acts_take stop rfl exit)) (.returns (.returns h))
  have comes : (runs reader runner ne request loop awaited start x).Ensures
      ⟨.messageLoop (stopRef x.past), brokerMachine.body (.messageLoop (stopRef x.past)), .caller next wait⟩ goal :=
    .performs (runs_acts (Backstage.acts_attach stop rfl ne)) (.enters serves)
  cases attends with
  | calls => exact .enters comes
  | comes => exact comes
  | attached => exact .enters serves
  | serves => exact serves

/-- The reader resumes the debugger, and waits then until the stop is torn down. -/
theorem resumes {action : ResumeAction} {below : Waiting brokerInterface .shellDebugger} {start k : Nat}
    (stop : x.stop = some .fresh) (listens : Listens request x start p)
    (back : Coming request loop (some (x.past + 1)) p desk ⟨.shellDebugger, .done (), below⟩ k)
    (h : (runs reader runner ne request loop (some (x.past + 1)) start (resumed action x)).Ensures
      ⟨proc, next action, wait⟩ goal) :
    (attended ne next wait (x, desk)).Ensures
      ⟨.shellDebugger, .call (.resumeDebugger action true) fun _ => .done (), below⟩ goal := by
  refine .enters (.performs (attended_acts ne (.of_scene Scene.acts_ticket)) ?_)
  refine .performs (attended_acts ne (Desk.acts_queueResume _)) ?_
  refine .performs (attended_acts ne (Desk.acts_awaitResume rfl)) ?_
  refine .performs (attended_acts ne (.of_scene Scene.acts_session)) ?_
  refine .performs (attended_acts ne (.of_scene (Scene.acts_live (x := { x with tickets := x.tickets + 1 }) stop rfl))) ?_
  refine .performs (attended_acts ne (.of_scene (Scene.acts_live (x := { x with tickets := x.tickets + 1 }) stop rfl))) ?_
  have left : ([] ++ [x.tickets]).filter (· ≠ x.tickets) = [] := by simp
  refine exits (x := { x with tickets := x.tickets + 1 }) (k := k + 3) stop
    (listens.quiet (.of_eq rfl rfl)) (.awaitFinish rfl (.leaveResume (.returns ?_))) fun f j attends =>
      attends.ends rfl rfl rfl h
  rw [desk, left]
  exact back

end Attended

/-! ## A whole session -/

/-- The debugger is stopped, and the reader is about to read. -/
structure Scene.Stopped (x : Scene) : Prop where
  stop : x.stop = some .fresh
  depth : x.depth = 1
  idle : x.reading = false
  readers : x.readers = []
  usable : Scene.Usable x.phase
  event : x.event.isSome = true

/-- What a session of the debugger, as far as it has come, keeps; it reads lines one by one. -/
structure Scene.Passes (x y : Scene) : Prop where
  past : y.past = x.past
  held : y.held = x.held
  quiet : x.Quiet y
  tickets : x.tickets ≤ y.tickets
  fewer : y.lines.length ≤ x.lines.length
  mem : ∀ line ∈ y.lines, line ∈ x.lines

theorem Scene.Quiet.trans {z : Scene} (h : x.Quiet y) (h' : y.Quiet z) : x.Quiet z := by
  obtain ⟨new, sent, unannounced⟩ := h.sent
  obtain ⟨new', sent', unannounced'⟩ := h'.sent
  refine ⟨h'.reports.trans h.reports, new ++ new', by rw [sent', sent, List.append_assoc], ?_⟩
  rw [firstStop?_append, unannounced, unannounced']
  rfl

theorem Scene.Passes.trans {z : Scene} (h : x.Passes y) (h' : y.Passes z) : x.Passes z where
  past := h'.past.trans h.past
  held := h'.held.trans h.held
  quiet := h.quiet.trans h'.quiet
  tickets := h.tickets.trans h'.tickets
  fewer := h'.fewer.trans h.fewer
  mem line hl := h.mem line (h'.mem line hl)

/-- The scene once a line has been read at the debugger's prompt. -/
def Scene.lineRead (x : Scene) : Scene := { x.afterReading debuggerPrompt with stop := some .fresh }

namespace Scene

theorem Stopped.lineRead (h : x.Stopped) : x.lineRead.Stopped :=
  ⟨rfl, h.depth, rfl, rfl, h.usable, h.event⟩

theorem passes_lineRead : x.Passes x.lineRead :=
  ⟨rfl, rfl, .of_eq rfl rfl, by simp [Scene.lineRead, afterReading], by simp [Scene.lineRead, afterReading],
    fun _ hl => List.mem_of_mem_tail hl⟩

theorem sheet_lineRead : x.lineRead.sheet = x.sheet.write .normal Mode.stopped.prompt false :=
  sheet_write ..

/-- The scene once a command has been run at the debugger's prompt. -/
def submitted (text : String) (x : Scene) : Scene :=
  { x.after (.named text) with
    tickets := x.tickets + 2
    history := x.history ++ [text]
    stop := some .fresh }

theorem Stopped.submitted (h : x.Stopped) (text : String) : (x.submitted text).Stopped :=
  ⟨rfl, h.depth, h.idle, h.readers, .inl rfl, h.event⟩

theorem passes_submitted (text : String) : x.Passes (x.submitted text) :=
  ⟨rfl, rfl, ⟨rfl, _, rfl, rfl⟩, by simp [Scene.submitted], le_rfl, fun _ hl => hl⟩

theorem sheet_submitted (text : String) : (x.submitted text).sheet = x.sheet.run text :=
  sheet_named text

end Scene

/-- How a session of the debugger ends: it has read lines up to one that resumes the debugger, or all of
them, and goes on as the reference does. -/
structure Ended (x y : Scene) : Prop where
  stopped : y.Stopped
  passes : x.Passes y
  same : read .stopped x.lines x.sheet = read .main y.lines y.sheet
  calm : isCalm .main y.lines = true

theorem isEmpty_trimmed {line : String} : (trimmed line).isEmpty = true ↔ trimmed line = "" :=
  String.isEmpty_iff

theorem Ended.of_passes {z : Scene} (passes : x.Passes z)
    (same : read .stopped x.lines x.sheet = read .stopped z.lines z.sheet) (h : Ended z y) : Ended x y :=
  ⟨h.stopped, passes.trans h.passes, same.trans h.same, h.calm⟩

/-- Where a line of the debugger's prompt leads to. -/
def Mode.next (word : String) : Mode := if word ∈ resumeWords then .main else .stopped

theorem after_stopped (word : String) : Mode.stopped.after word = some (.next word) := by
  rw [Mode.after, Mode.next]
  split <;> rfl

theorem read_stopped (line : String) (rest : List String) (s : Sheet) : read .stopped (line :: rest) s =
    read (.next (trimmed line)) rest ((s.write .normal Mode.stopped.prompt false).answer .stopped (trimmed line)) := by
  simp only [read, after_stopped]

theorem isCalm_stopped {line : String} {rest : List String} (h : isCalm .stopped (line :: rest) = true) :
    trimmed line ≠ "Wait-Debugger" ∧ isCalm (.next (trimmed line)) rest = true := by
  simpa [isCalm, after_stopped] using h

section Attended

variable {proc : Proc} {next : ResumeAction → Code proc.Result} {wait : Waiting brokerInterface proc}
  {ne : runner ≠ reader}

/-- The reader reads one line. -/
theorem reads_line {below : Waiting brokerInterface .shellDebugger} (stopped : x.Stopped)
    (h : (attended ne next wait (x.lineRead, desk)).Ensures
      ⟨.shellDebugger, debuggerRead (.ok x.lines.head?), below⟩ goal) :
    (attended ne next wait (x, desk)).Ensures ⟨.shellDebugger, brokerMachine.body .shellDebugger, below⟩ goal := by
  have going : ¬ x.event.isNone = true := by simpa using Option.isSome_iff_ne_none.mp stopped.event
  refine .performs (attended_acts ne (.of_scene Scene.acts_stopEvent)) ?_
  change (attended ne next wait (x, desk)).Ensures ⟨.shellDebugger,
    if x.event.isNone then pure () else Code.invoke (.readLine none) >>= debuggerRead, below⟩ goal
  rw [if_neg going]
  exact .calls (attended_leads ne (Scene.does_readLineStopped stopped.stop stopped.readers stopped.usable)) h

/-- While the debugger is stopped, the reader inevitably comes to resuming it, and what it has written and
run by then is what the reference says. -/
theorem session_ends {start k : Nat} {below : Waiting brokerInterface .shellDebugger} (stopped : x.Stopped)
    (plain : ∀ line ∈ x.lines, trimmed line ≠ "Start-Sleep") (calm : isCalm .stopped x.lines = true)
    (listens : Listens request x start p)
    (back : Coming request loop (some (x.past + 1)) p desk ⟨.shellDebugger, .done (), below⟩ k)
    (h : ∀ y action, Ended x y →
      (runs reader runner ne request loop (some (x.past + 1)) start (resumed action y)).Ensures
        ⟨proc, next action, wait⟩ goal) :
    (attended ne next wait (x, desk)).Ensures ⟨.shellDebugger, brokerMachine.body .shellDebugger, below⟩ goal := by
  induction lines_eq : x.lines generalizing x k below with
  | nil =>
    refine reads_line stopped ?_
    rw [lines_eq]
    refine .performs (attended_acts ne (.of_scene Scene.acts_isEnded)) ?_
    have none_left : x.lineRead.lines = [] := by simp [Scene.lineRead, Scene.afterReading, lines_eq]
    rw [none_left]
    refine resumes (x := x.lineRead) rfl (listens.quiet Scene.passes_lineRead.quiet) back (h _ _ ?_)
    refine ⟨stopped.lineRead, Scene.passes_lineRead, ?_, ?_⟩
    · rw [lines_eq, none_left, Scene.sheet_lineRead]
      rfl
    · rw [none_left]
      rfl
  | cons line rest ih =>
    rw [lines_eq] at plain calm
    obtain ⟨unstopped, calm⟩ := isCalm_stopped calm
    have left : x.lineRead.lines = rest := by simp [Scene.lineRead, Scene.afterReading, lines_eq]
    have plain_rest : ∀ l ∈ rest, trimmed l ≠ "Start-Sleep" := fun l hl => plain l (.tail _ hl)
    have wrote : read .stopped x.lines x.sheet = read (.next (trimmed line)) rest
        (x.lineRead.sheet.answer .stopped (trimmed line)) := by
      rw [lines_eq, read_stopped, ← Scene.sheet_lineRead]
    refine reads_line stopped ?_
    rw [lines_eq]
    change (attended ne next wait (x.lineRead, desk)).Ensures ⟨.shellDebugger, debuggerLine (trimmed line), below⟩ goal
    rw [debuggerLine]
    by_cases blank : trimmed line = ""
    · rw [if_pos (isEmpty_trimmed.mpr blank)]
      have again : Mode.next (trimmed line) = .stopped := by rw [blank]; decide
      rw [again] at wrote calm
      refine .enters (ih stopped.lineRead (by rwa [left]) (by rwa [left])
        (listens.quiet Scene.passes_lineRead.quiet) (.returns back) (fun y action ended => ?_) left)
      refine h y action (ended.of_passes Scene.passes_lineRead ?_)
      rw [wrote, left, Sheet.answer, if_pos blank]
    rw [if_neg (isEmpty_trimmed.not.mpr blank)]
    cases hw : ResumeAction.ofWord? (trimmed line) with
    | some action =>
      have word : trimmed line ∈ resumeWords := by
        by_contra no
        rw [ofWord?_eq_none.mpr no] at hw
        cases hw
      rw [Mode.next, if_pos word] at wrote calm
      refine resumes (x := x.lineRead) rfl (listens.quiet Scene.passes_lineRead.quiet) back (h _ _ ?_)
      refine ⟨stopped.lineRead, Scene.passes_lineRead, ?_, by rwa [left]⟩
      rw [wrote, left, Sheet.answer, if_neg blank]
      simp only [if_pos word]
    | none =>
      have word : trimmed line ∉ resumeWords := ofWord?_eq_none.mp hw
      rw [Mode.next, if_neg word] at wrote calm
      have passes : x.Passes (x.lineRead.submitted (trimmed line)) :=
        Scene.passes_lineRead.trans (Scene.passes_submitted _)
      have left : (x.lineRead.submitted (trimmed line)).lines = rest := left
      rw [← passes.past] at back h
      refine .leads (attended_leads ne (Desk.does_submit stopped.lineRead.stop stopped.lineRead.depth
        stopped.lineRead.idle stopped.lineRead.usable ⟨plain line (.head _), unstopped⟩
        ((wordOf?_trimmed line).trans hw))) ?_
      refine .enters (ih (x := x.lineRead.submitted (trimmed line)) (stopped.lineRead.submitted _) (by rwa [left])
        (by rwa [left]) (listens.quiet passes.quiet) (.returns back) (fun y action ended => ?_) left)
      refine h y action (ended.of_passes passes ?_)
      rw [wrote, left, Scene.sheet_submitted, Sheet.answer, if_neg blank]
      simp only [if_neg word]

end Attended

end SessionBroker.Shell
