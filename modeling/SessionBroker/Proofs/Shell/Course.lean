import SessionBroker.Proofs.Shell.Loop

/-!
# The course of the shell

How the shell gets under way, and that it inevitably comes to its end then: with exit code zero, and with the
transcript of the reference.
-/

namespace SessionBroker

variable {I : Interface} {σ : Type} {m : Machine I σ} {id next : Nat}

/-- There is only one flow. -/
def Config.single (s : σ) (id : Nat) (f : Flow I) (next : Nat) : Config I σ := ⟨s, [(id, f)], next⟩

namespace Machine

theorem step?_single (s : σ) (f : Flow I) :
    m.step? (.single s id f next) id false = m.stepFlow (.single s id f next) id false f := by
  simp [step?, Config.single, Config.find?]

theorem update_single (s : σ) (f g : Flow I) : (Config.single s id f next).update id g = .single s id g next := by
  simp [Config.single, Config.update]

theorem advance_step {c d : Config I σ} (h : m.step? c id false = some d) (fuel : Nat) :
    m.advance (fuel + 1) id c = m.advance fuel id d := by
  rw [advance, h]

/-- What a program comes to, and in how many steps, if its flow is the only one. -/
inductive Takes (m : Machine I σ) (id : Nat) : {α : Type} → Nat → Program I α → σ → α → σ → Prop where
  | done {α : Type} (a : α) (s : σ) : Takes m id 0 (.done a) s a s
  | act {α : Type} {action : I.Action} {next : I.Reply action → Program I α} {r : I.Reply action} {s t u : σ} {a : α}
      {n : Nat} : m.perform id false action s = some (r, t) → Takes m id n (next r) t a u →
      Takes m id (n + 1) (.act action next) s a u
  | call {α : Type} {proc : I.Proc} {next : I.Result proc → Program I α} {b : I.Result proc} {s t u : σ} {a : α}
      {k n : Nat} : Takes m id k (m.body proc) s b t → Takes m id n (next b) t a u →
      Takes m id (n + 1 + k + 1) (.call proc next) s a u

theorem Takes.bind {α β : Type} {n k : Nat} {p : Program I α} {f : α → Program I β} {s t u : σ} {a : α} {b : β}
    (first : m.Takes id k p s a t) (rest : m.Takes id n (f a) t b u) : m.Takes id (n + k) (p >>= f) s b u := by
  induction first with
  | done => exact rest
  | act hp _ ih => exact .act hp (ih rest)
  | @call _ _ _ _ _ _ _ _ l j inside _ _ ih =>
    have count : n + (j + 1 + l + 1) = n + j + 1 + l + 1 := by omega
    rw [count]
    exact .call inside (ih rest)

theorem Takes.advance {α : Type} {n : Nat} {p : Program I α} {s u : σ} {a : α} (h : m.Takes id n p s a u) {proc : I.Proc}
    (k : α → Program I (I.Result proc)) (wait : Waiting I proc) (fuel : Nat) :
    m.advance (fuel + n) id (.single s id ⟨proc, p.bind k, wait⟩ next) =
      m.advance fuel id (.single u id ⟨proc, k a, wait⟩ next) := by
  induction h generalizing proc fuel with
  | done => rfl
  | @act _ action next' r s t _ _ n hp _ ih =>
    have moves : m.step? (.single s id ⟨proc, (Program.act action next').bind k, wait⟩ next) id false =
        some (.single t id ⟨proc, (next' r).bind k, wait⟩ next) := by
      rw [step?_single]
      change m.stepFlow _ id false ⟨proc, .act action fun r => (next' r).bind k, wait⟩ = _
      rw [stepFlow_act]
      simp only [Config.single, hp, Option.map_some, Config.update]
      simp
    rw [← Nat.add_assoc, advance_step moves]
    exact ih k wait fuel
  | @call _ callee next' b s t _ _ l n _ _ ihb ih =>
    have enters : m.step? (.single s id ⟨proc, (Program.call callee next').bind k, wait⟩ next) id false =
        some (.single s id ⟨callee, (m.body callee).bind .done, .caller (fun b => (next' b).bind k) wait⟩ next) := by
      rw [step?_single, Program.bind_done]
      exact congrArg some (update_single s _ _)
    have returns : m.step? (.single t id ⟨callee, .done b, .caller (fun b => (next' b).bind k) wait⟩ next) id false =
        some (.single t id ⟨proc, (next' b).bind k, wait⟩ next) := by
      rw [step?_single]
      exact congrArg some (update_single t _ _)
    have split : fuel + (n + 1 + l + 1) = fuel + n + 1 + l + 1 := by omega
    rw [split, advance_step enters, ihb .done _ (fuel + n + 1), advance_step returns]
    exact ih k wait fuel

theorem advance_of_find?_eq_none {c : Config I σ} (h : c.find? id = none) (fuel : Nat) : m.advance fuel id c = c := by
  cases fuel with
  | zero => rfl
  | succ fuel => simp [advance, step?, h]

end Machine

/-- A flow that is launched alone and does not take too long leaves nothing but its effect. -/
theorem Scenario.launch_of_takes {proc : Proc} {w u : World} {a : proc.Result} {n : Nat}
    (h : brokerMachine.Takes next n (body proc) w a u) (few : n < plenty) :
    launch proc ⟨w, [], next⟩ = ⟨u, [], next + 1⟩ := by
  obtain ⟨fuel, enough⟩ : ∃ fuel, plenty = fuel + 1 + n := ⟨plenty - n - 1, by omega⟩
  have begun : begin proc ⟨w, [], next⟩ = ⟨u, [], next + 1⟩ := by
    have runs : brokerMachine.advance _ _ (.single _ _ _ (next + 1)) = _ :=
      h.advance .done (@Waiting.root brokerInterface proc) (fuel + 1)
    rw [Program.bind_done] at runs
    rw [begin, enough]
    refine runs.trans ?_
    have ends : brokerMachine.step? (.single u next ⟨proc, .done a, @Waiting.root brokerInterface proc⟩ (next + 1))
        next false = some ⟨u, [], next + 1⟩ := by
      rw [Machine.step?_single]
      simp [Machine.stepFlow, Config.single, Config.remove]
    rw [Machine.advance_step ends]
    exact Machine.advance_of_find?_eq_none rfl fuel
  rw [launch, begun]
  rfl

namespace Shell

/-- The scene in which the shell begins. -/
def opening (lines : List String) : Scene where
  calls := []
  lines := lines
  readers := []
  reading := false
  history := []
  depth := 0
  phase := .ready
  past := 0
  held := false
  stop := none
  sent := []
  event := none
  holders := 1
  tickets := 0
  reports := [(attachName, .nothing), (setUpName, .lease (.ok ()))]

def openingCounts : Counts := ⟨[⟨engineName, .probe, true, false⟩], 0, ⟨1, 0, 1, 0, 0, 0, 0, 1⟩⟩

/-- The shell's world before the broker is at work, when a first command has come to the engine. -/
def asked (lines : List String) (c : Command) (active : Nat) : World :=
  { world .standard lines true with
    endpoints := [(engineName,
      ⟨{ demoEngine with active := active, tally := ⟨1, 0, 0, 0, 0, 0, 0, 0⟩ }, false, none, none⟩)]
    engineCalls := [⟨engineName, c, true, false⟩] }

theorem answers (lines : List String) : brokerMachine.Takes 0 2 (Engines.run engineName .probe) (asked lines .probe 1)
    (.ok (.ofOutput [identity.toJson])) (asked lines .probe 1) := by
  unfold Engines.run
  rw [Scene.isProbe_probe]
  exact .act rfl (.act rfl (.done _ _))

theorem goes_through (lines : List String) {c : Command} {r : Except EngineFailure Invocation}
    (runs : brokerMachine.Takes 0 2 (Engines.run engineName c) (asked lines c 1) r (asked lines c 1)) :
    brokerMachine.Takes 0 7 (Engines.through engineName c false true) (world .standard lines true) r
      (asked lines c 0) := by
  let came : World := { world .standard lines true with engineCalls := [⟨engineName, c, true, false⟩] }
  have arrives : World.perform 0 false (.engine engineName (.arrive c false true)) (world .standard lines true) =
      some (none, came) := by
    have unanswered : Endpoint.perform ⟨demoEngine, false, none, none⟩ (.arrive c false true) =
        some (none, ⟨demoEngine, false, none, none⟩) := by
      change some (if c.isProbe then none else none, _) = _
      rw [ite_self]
    have found : (world .standard lines true).endpoint? engineName = some ⟨demoEngine, false, none, none⟩ := rfl
    rw [World.perform, World.performEngine, found]
    simp only [unanswered]
    rfl
  have enters : World.perform 0 false (.engine engineName .enter) came = some (.ok (), asked lines c 1) := rfl
  have leaves : World.perform 0 false (.engine engineName .leave) (asked lines c 1) = some ((), asked lines c 0) := rfl
  have invokes : brokerMachine.Takes 0 4 (body (.invoke engineName c false true)) came r (asked lines c 0) :=
    .act enters (.bind runs (.act leaves (.done _ _)))
  exact .act arrives (.call (k := 4) (n := 0) invokes (.done _ _))

theorem probes (lines : List String) : brokerMachine.Takes 0 7 (SessionChanges.probe engineName false)
    (world .standard lines true) (.ok [identity.toJson]) (asked lines .probe 0) :=
  .bind (k := 7) (n := 0) (goes_through lines (answers lines)) (.done _ _)

theorem sets_up (lines : List String) :
    Scenario.launch (.serveClient setUpName (.setUp engineName true)) (Scenario.still (world .standard lines true)) =
      ⟨{ (opening lines).world home ⟨[], none⟩ openingCounts with
          attached := false, reports := [(setUpName, .lease (.ok ()))] }, [], 1⟩ := by
  have understood : Identity.ofProbe [identity.toJson] = .ok identity := by decide +kernel
  have setUp : brokerMachine.Takes 0 15 (Clients.setUp engineName true) (world .standard lines true) (.ok ())
      { (opening lines).world home ⟨[], none⟩ openingCounts with attached := false, reports := [] } := by
    refine .act rfl (.act rfl (.bind (n := 6) (probes lines) ?_))
    simp only [understood]
    exact .act rfl (.act rfl (.act rfl (.act rfl (.act rfl (.act rfl (.done _ _))))))
  have handled : brokerMachine.Takes 0 15 (Clients.handle (.setUp engineName true)) (world .standard lines true)
      (.lease (.ok ())) { (opening lines).world home ⟨[], none⟩ openingCounts with attached := false, reports := [] } :=
    .bind (n := 0) setUp (.done _ _)
  have served : brokerMachine.Takes 0 16 (body (.serveClient setUpName (.setUp engineName true)))
      (world .standard lines true) ()
      { (opening lines).world home ⟨[], none⟩ openingCounts with
        attached := false, reports := [(setUpName, .lease (.ok ()))] } :=
    .bind (n := 1) (k := 15) handled (.act rfl (.done _ _))
  exact Scenario.launch_of_takes served (by decide)

theorem prepares (lines : List String) :
    Scenario.launch (.serveClient attachName (.attach true))
        ⟨{ (opening lines).world home ⟨[], none⟩ openingCounts with
          attached := false, reports := [(setUpName, .lease (.ok ()))] }, [], 1⟩ =
      ⟨(opening lines).world home ⟨[], none⟩ openingCounts, [], 2⟩ := by
  refine Scenario.launch_of_takes (n := 2) (.act rfl (.act rfl (.done _ _))) ?_
  decide

/-- The shell before its loop begins. -/
def prepared (lines : List String) : BrokerConfig :=
  ⟨(opening lines).world home ⟨[], none⟩ openingCounts, [], 2⟩

theorem start_eq (lines : List String) :
    start .standard lines true = .ok (Scenario.launch (.serveClient loopName .shell) (prepared lines)) := by
  unfold start
  rw [sets_up]
  change Except.ok (Scenario.launch _ (Scenario.launch (.serveClient attachName (.attach true)) _)) = _
  rw [prepares]
  rfl

/-- From its start on, whatever flows move when, the shell inevitably comes to its end. -/
theorem inevitably_over {lines : List String} (plain : ∀ line ∈ lines, trimmed line ≠ "Start-Sleep")
    (calm : isCalm .main lines = true) :
    brokerMachine.Inevitably (Over (read .main lines .empty))
      ((prepared lines).spawn brokerMachine (.serveClient loopName .shell)) := by
  have at_home : (opening lines).Home := ⟨rfl, rfl, rfl, rfl, rfl, rfl⟩
  have fresh : (opening lines).Fresh := by
    intro r hr n hn
    have first : r.1.toList.head? = some 'c' := by rw [hn, String.toList_append]; rfl
    have named : r.1 = attachName ∨ r.1 = setUpName := by
      simp only [opening, List.mem_cons, List.not_mem_nil, or_false] at hr
      rcases hr with rfl | rfl
      · exact .inl rfl
      · exact .inr rfl
    rcases named with e | e <;> rw [e] at first <;> exact absurd first (by decide)
  have ensures : (alone 2 (opening lines, home)).Ensures
      ⟨.serveClient loopName .shell, brokerMachine.body (.serveClient loopName .shell), .root _⟩
      (Over (read .main lines .empty)) :=
    .performs (alone_acts (.of_scene Scene.acts_listen))
      (.enters (loop_ends at_home fresh (.first fun _ => rfl) plain calm))
  have found : ((prepared lines).spawn brokerMachine (.serveClient loopName .shell)).find? 2 =
      some ⟨.serveClient loopName .shell, brokerMachine.body (.serveClient loopName .shell), .root _⟩ := rfl
  have stage : Stage ((opening lines).seen 2 home) 2 2
      ((prepared lines).spawn brokerMachine (.serveClient loopName .shell)) := by
    refine ⟨⟨by simp [prepared, Config.spawn], by simp [prepared, Config.spawn]⟩,
      ⟨⟨[], none⟩, openingCounts, ⟨rfl, by simp⟩, by simp, rfl⟩, fun id f ne _ hf => ?_⟩
    rw [Config.find?_spawn_of_ne (c := prepared lines) ne] at hf
    cases hf
  exact ensures _ _ ⟨stage, le_rfl⟩ found

/-- With no arguments and no environment the standard settings hold, whatever files there are. -/
theorem begin_standard (files : Settings.Files) : Shell.begin [] [] files = .ok .standard := by
  have parsed : CommandLine.parse [] = .ok .none := by rw [CommandLine.parse, CommandLine.read]
  have loaded : Settings.load .none [] files = .ok .standard := rfl
  have oldest : Version.parse? Settings.standard.minimumVersion = some ⟨5, 1⟩ := by decide +kernel
  have broker : Settings.standard.broker? = some .standard := by rw [Settings.broker?, oldest]; rfl
  simp only [Shell.begin, parsed, loaded, broker]
  rfl

/-- Run with no arguments and no environment, on lines of which none waits to be stopped and none stops the
debugger at its own prompt: whatever flows move when, the shell inevitably comes to its end, and it has written
and run then what the reference says. -/
theorem transcript_as_read (files : Settings.Files) {lines : List String}
    (plain : ∀ line ∈ lines, trimmed line ≠ "Start-Sleep") (calm : isCalm .main lines = true) :
    Shell.begin [] [] files = .ok .standard ∧ ∃ c,
      start .standard lines true = .ok (Scenario.launch (.serveClient loopName .shell) c) ∧
      brokerMachine.Inevitably (Over (read .main lines .empty))
        (c.spawn brokerMachine (.serveClient loopName .shell)) := by
  exact ⟨begin_standard files, prepared lines, start_eq lines, inevitably_over plain calm⟩

/-- Two prompts, two lines that are scripted, one that is echoed, and words that mean something at one prompt
only. -/
theorem transcript_of_two_prompts :
    (∀ line ∈ ["Get-Date", "", " hi ", "Wait-Debugger", "exit", "throw", "q", "exit", "x"],
      trimmed line ≠ "Start-Sleep") ∧
    isCalm .main ["Get-Date", "", " hi ", "Wait-Debugger", "exit", "throw", "q", "exit", "x"] = true ∧
    ∃ c, start .standard ["Get-Date", "", " hi ", "Wait-Debugger", "exit", "throw", "q", "exit", "x"] true =
        .ok (Scenario.launch (.serveClient loopName .shell) c) ∧
      brokerMachine.Inevitably
        (Over ⟨⟨none, "PS> Monday, January 1, 2024 12:00:00 PM\nPS> PS> hi\nPS> Hit breakpoint at interactive:1\n" ++
            "[DBG]: PS> exit\n[DBG]: PS> [DBG]: PS> PS> ", "ScriptHalted\n"⟩,
          ["Get-Date", "hi", "Wait-Debugger", "exit", "throw"]⟩)
        (c.spawn brokerMachine (.serveClient loopName .shell)) := by
  have plain : ∀ line ∈ ["Get-Date", "", " hi ", "Wait-Debugger", "exit", "throw", "q", "exit", "x"],
      trimmed line ≠ "Start-Sleep" := by decide +kernel
  have calm : isCalm .main ["Get-Date", "", " hi ", "Wait-Debugger", "exit", "throw", "q", "exit", "x"] = true := by
    decide +kernel
  have sheet : read .main ["Get-Date", "", " hi ", "Wait-Debugger", "exit", "throw", "q", "exit", "x"] .empty =
      ⟨⟨none, "PS> Monday, January 1, 2024 12:00:00 PM\nPS> PS> hi\nPS> Hit breakpoint at interactive:1\n" ++
          "[DBG]: PS> exit\n[DBG]: PS> [DBG]: PS> PS> ", "ScriptHalted\n"⟩,
        ["Get-Date", "hi", "Wait-Debugger", "exit", "throw"]⟩ := by decide +kernel
  obtain ⟨-, c, started, ends⟩ := transcript_as_read (fun _ => .error .notFound) plain calm
  rw [sheet] at ends
  exact ⟨plain, calm, c, started, ends⟩

/-- A shell that has ended makes no step any more. -/
theorem no_step_of_over {s : Sheet} {c d : BrokerConfig} (ended : Over s c) : ¬ Machine.Step brokerMachine c d := by
  rintro ⟨id, pick, h⟩
  simp [Machine.step?, Config.find?, ended.1] at h

/-- As long as no line stops the debugger at its own prompt, the shell never hangs: from wherever it has come to
some flow can move, unless it has ended, and it inevitably ends with exit code zero. -/
theorem never_hangs {lines : List String} (plain : ∀ line ∈ lines, trimmed line ≠ "Start-Sleep")
    (calm : isCalm .main lines = true) : ∃ c,
    start .standard lines true = .ok (Scenario.launch (.serveClient loopName .shell) c) ∧
    brokerMachine.Inevitably (fun d => d.flows = [] ∧ (transcript d).code = some 0)
      (c.spawn brokerMachine (.serveClient loopName .shell)) ∧
    ∀ d, Machine.Run brokerMachine (c.spawn brokerMachine (.serveClient loopName .shell)) d →
      (∃ e, Machine.Step brokerMachine d e) ∨ (d.flows = [] ∧ (transcript d).code = some 0) := by
  have ended : ∀ d, Over (read .main lines .empty) d → d.flows = [] ∧ (transcript d).code = some 0 :=
    fun d ends => ⟨ends.1, by rw [ends.2.1]⟩
  have inevitably := inevitably_over plain calm
  refine ⟨prepared lines, start_eq lines, inevitably.imp ended, fun d run => ?_⟩
  cases inevitably.reached (fun _ ends _ => no_step_of_over ends) run with
  | here ends => exact .inr (ended d ends)
  | later can _ => exact .inl can

/-- Also if the input ends while the debugger is stopped. -/
theorem never_hangs_while_stopped :
    (∀ line ∈ ["Wait-Debugger", "hi"], trimmed line ≠ "Start-Sleep") ∧
    isCalm .main ["Wait-Debugger", "hi"] = true ∧ ∃ c,
      start .standard ["Wait-Debugger", "hi"] true = .ok (Scenario.launch (.serveClient loopName .shell) c) ∧
      brokerMachine.Inevitably (fun d => d.flows = [] ∧ (transcript d).code = some 0)
        (c.spawn brokerMachine (.serveClient loopName .shell)) := by
  have plain : ∀ line ∈ ["Wait-Debugger", "hi"], trimmed line ≠ "Start-Sleep" := by decide +kernel
  have calm : isCalm .main ["Wait-Debugger", "hi"] = true := by decide +kernel
  obtain ⟨c, started, ends, -⟩ := never_hangs plain calm
  exact ⟨plain, calm, c, started, ends⟩

/-- Flows are left, but none of them can move. -/
def isStuck (c : BrokerConfig) : Bool :=
  !c.flows.isEmpty && c.flows.all fun p =>
    (brokerMachine.step? c p.1 true).isNone && (brokerMachine.step? c p.1 false).isNone

theorem no_step_of_isStuck {c d : BrokerConfig} (stuck : isStuck c = true) : ¬ Machine.Step brokerMachine c d := by
  rintro ⟨id, pick, h⟩
  obtain ⟨f, hf, -⟩ := Option.bind_eq_some_iff.mp h
  obtain ⟨p, hp, -⟩ := Option.map_eq_some_iff.mp hf
  have named : p.1 = id := by simpa using List.find?_some hp
  simp only [isStuck, Bool.and_eq_true, List.all_eq_true, Option.isNone_iff_eq_none] at stuck
  obtain ⟨with_, without⟩ := stuck.2 p (List.mem_of_find?_eq_some hp)
  rw [named] at with_ without
  cases pick with
  | true => rw [h] at with_; cases with_
  | false => rw [h] at without; cases without

/-- A line that stops the debugger at its own prompt leaves everybody waiting for everybody else. -/
theorem second_stop_hangs :
    (∀ line ∈ ["Wait-Debugger", "Wait-Debugger"], trimmed line ≠ "Start-Sleep") ∧
    ∃ c, start .standard ["Wait-Debugger", "Wait-Debugger"] true = .ok c ∧ c.flows ≠ [] ∧
      (transcript c).code = none ∧ ∀ d, ¬ Machine.Step brokerMachine c d := by
  have hangs : ((start .standard ["Wait-Debugger", "Wait-Debugger"] true).toOption.any fun c =>
      isStuck c && (transcript c).code = none) = true := by decide +kernel
  refine ⟨by decide +kernel, ?_⟩
  cases started : start .standard ["Wait-Debugger", "Wait-Debugger"] true with
  | error f =>
    rw [started] at hangs
    cases hangs
  | ok c =>
    rw [started] at hangs
    have both : isStuck c = true ∧ (transcript c).code = none := by simpa [Except.toOption] using hangs
    refine ⟨c, rfl, fun none_ => ?_, both.2, fun d => no_step_of_isStuck both.1⟩
    have stuck := both.1
    rw [isStuck, none_] at stuck
    cases stuck

end Shell

end SessionBroker
