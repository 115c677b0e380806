import SessionBroker.Proofs.Announcements
import SessionBroker.Proofs.Lore
import SessionBroker.Proofs.Losses
import SessionBroker.Proofs.Routine

/-!
# What an abort stops

An abort that is accepted looks which session is current and stops its engine; it does nothing else
before. A command runs on the engine of the session that was current when it was asked for. So while the
current session stays on one engine, an abort stops the commands that were asked for meanwhile. An abort
does NOT reach a command that was left behind on another engine.
-/

namespace SessionBroker.Aborts

/-! ## What is remembered -/

/-- How far one who aborts has come. -/
inductive Stage where
  | free
  /-- An abort of a command has been accepted. -/
  | begun
  /-- The engine to be stopped is known. -/
  | aimed (e : EngineName)
  deriving DecidableEq

def note : (action : Action) → action.Reply → World → Stage → Stage
  | .broker (.beginAbort _), (begun : Option (Phase × Bool)), _, .free =>
    if begun.any (!·.2) then .begun else .free
  | .sessions .current, _, w, .begun => .aimed w.sessions.current.engine
  | .engine _ .stop, _, _, .aimed _ => .free
  | _, _, _, k => k

/-- An abort that has been accepted comes first. -/
def acts (action : Action) : Stage → Prop
  | .free => True
  | .begun => action = .sessions .current
  | .aimed e => action = .engine e .stop

def lore : Lore brokerInterface World Stage :=
  ⟨.free, note, acts, fun _ k => k = .free, fun _ k => k = .free, fun _ _ _ k => k = .free⟩

/-! ## Programs -/

/-- Everything but aborts. -/
def scope : Scope brokerInterface := ⟨Action.IsRoutine, fun _ => True, fun _ => True⟩

@[simp] theorem scope_acts {a : Action} : scope.acts a ↔ a.IsRoutine := Iff.rfl
@[simp] theorem scope_calls {p : Proc} : scope.calls p ↔ True := Iff.rfl
@[simp] theorem scope_starts {p : Proc} : scope.starts p ↔ True := Iff.rfl

instance : scope.Routine := ⟨fun _ h => h, fun _ _ => trivial, fun _ _ => trivial⟩

variable {α β : Type}

/-- Programs that have no abort to carry out before and after. -/
abbrev Frees (p : Code α) : Prop := p.Minds lore brokerMachine (fun _ k => k = .free) .free

theorem note_routine {action : Action} (routine : action.IsRoutine) (r : action.Reply) (w : World) :
    note action r w .free = .free := by
  rcases action with ⟨_, op⟩ | _ | op | _ | _ | op
  case broker => cases op <;> first | rfl | exact routine.elim
  case engine | sessions => cases op <;> rfl
  all_goals rfl

theorem frees_of_within {p : Code α} (h : p.Within scope) : Frees p := by
  refine h.minds (K := fun k : Stage => k = .free) ?_ (fun _ _ _ free => ⟨free, fun _ _ free => free⟩)
    (fun _ _ _ free => free) rfl
  rintro action k routine rfl
  exact ⟨trivial, fun r w => note_routine routine r w⟩

theorem frees_bind {p : Code β} {f : β → Code α} (h : Frees p) (hf : ∀ b, Frees (f b)) :
    Frees (p >>= f) := by
  refine h.bind ?_
  rintro b k rfl
  exact hf b

/-- Whatever is no abort may come first. -/
theorem frees_then {p : Code β} {f : β → Code α} (h : p.Within scope) (hf : ∀ b, Frees (f b)) :
    Frees (p >>= f) :=
  frees_bind (frees_of_within h) hf

/-- Once an abort is accepted, the engine of the current session is stopped. -/
theorem frees_abort (debug : Bool) : Frees (Aborting.abort debug) := by
  refine ⟨trivial, fun flow pick w begun t _ => ?_⟩
  rcases begun with _ | ⟨before, debugger⟩
  · rfl
  · have announced : Frees (do
        Code.broker (.notify (.progress .aborted false))
        if before ≠ .running then
          let _ : Bool ← Code.broker (.setPhase .ready)) := frees_of_within (by simp)
    cases debugger with
    | true =>
      exact frees_then (p := SessionChanges.currentEngine) (by simp) fun e => frees_of_within (by simp)
    | false =>
      refine ⟨rfl, fun flow pick w s t hp => ?_⟩
      cases hp
      exact ⟨rfl, fun _ _ _ _ _ _ => announced⟩

theorem frees_conclude (frame : FrameRef) (e : EngineName) (q : Request) (route : Route) (v : Verdict) :
    Frees (Running.conclude frame e q route v) := by
  refine frees_then (by simp) fun availability => ?_
  split
  · exact frees_of_within (by simp)
  · exact frees_bind (frees_abort false) fun _ => frees_of_within (by simp)

theorem frees_run (frame : FrameRef) (e : EngineName) (q : Request) (route : Route) :
    Frees (Running.run frame e q route) := by
  refine frees_then (by simp) fun _ => ?_
  have sent : Frees (do
      let v := Verdict.ofResult (← Running.send frame e q route)
      Running.present q v
      Running.conclude frame e q route v) :=
    frees_then (by simp) fun r => frees_then (by simp) fun _ => frees_conclude frame e q route _
  split
  · exact frees_then (by simp) fun _ => sent
  · exact sent

theorem frees_dispose : Frees Aborting.dispose := by
  refine frees_then (by simp) fun phase => ?_
  split
  · exact frees_of_within (by simp)
  · refine frees_bind (frees_abort true) fun _ => frees_of_within ?_
    refine Program.within_bind (by simp) fun live => Program.within_bind (by simp) fun served => ?_
    simp

theorem within_leased (frame : FrameRef) (q : Request) (route : Route) (token : Option Token) :
    (Routing.leased frame q route token).Within scope := by
  refine Program.within_bind (by simp) fun e => Program.within_bind (by simp) fun lease => ?_
  cases lease <;> simp

theorem within_route (q : Request) (token : Option Token) : (Routing.route q token).Within scope := by
  refine Program.within_bind (by simp) fun frame => Program.within_bind (by simp) fun around => ?_
  refine Program.within_bind ?_ fun r => ?_
  · cases Route.choose q.options around with
    | idle =>
      refine Program.within_bind (by simp) fun r => ?_
      cases r with
      | none => exact within_leased frame q .direct token
      | some r => simp
    | mailbox => simp [Routing.attempt]
    | prompt => exact within_leased frame q .prompt token
    | direct => exact within_leased frame q .direct token
  · split
    · refine Program.within_bind (by simp) fun phase => ?_
      split <;> simp
    · simp

theorem within_serve (frame : FrameRef) (ticket : Nat) (q : Request) :
    (Routing.serve frame ticket q).Within scope := by
  refine Program.within_bind (by simp) fun e => Program.within_bind (by simp) fun lease => ?_
  cases lease <;> simp

theorem frees_serve (name : String) (request : ClientRequest) : Frees (Clients.serve name request) := by
  by_cases routine : request.IsRoutine
  · exact frees_of_within (Clients.routine_serve (Clients.routine_handle routine))
  · cases request
    case abort debug =>
      exact frees_bind (frees_bind (frees_abort debug) fun _ => frees_of_within (by simp)) fun report =>
        frees_of_within (by simp [Clients.holdsBroker])
    all_goals exact absurd trivial routine

theorem bodies : lore.Bodies brokerMachine := by
  refine ⟨?_, fun _ _ _ => rfl⟩
  rintro proc _ rfl
  by_cases routine : proc.IsRoutinely
  · exact frees_of_within (routine_body routine)
  · cases proc
    case route q token => exact frees_of_within (within_route q token)
    case serve frame ticket q => exact frees_of_within (within_serve frame ticket q)
    case runCommand frame e q way => exact frees_run frame e q way
    case dispose => exact frees_dispose
    case serveClient name request => exact frees_serve name request
    all_goals exact absurd trivial routine

/-! ## Engines that are stopped -/

variable {x : EngineName} {w u : World} {flow : Nat} {pick : Bool} {action : Action} {r : action.Reply}

/-- How often an engine has been asked to stop. -/
def stops (x : EngineName) (w : World) : Nat := ((w.endpoint? x).map (·.engine.tally.stops)).getD 0

theorem stops_perform (h : World.perform flow pick action w = some (r, u)) : stops x w ≤ stops x u := by
  rcases World.endpoint?_perform h x with ⟨op, reply, p, q, -, hp, hq, hu⟩ | ⟨-, same⟩
  · simp [stops, hp, hu, (Endpoint.counted_perform hq).stops]
  · rw [stops, stops, same]

/-- An engine that exists can be asked to stop at any time. -/
theorem perform_stop (known : (w.endpoint? x).isSome) (flow : Nat) (pick : Bool) :
    ∃ u, World.perform flow pick (.engine x .stop) w = some ((), u) ∧ stops x w < stops x u := by
  obtain ⟨p, hp⟩ := Option.isSome_iff_exists.mp known
  have able : World.perform flow pick (.engine x .stop) w =
      some ((), w.modifyEndpoint x fun _ => p.map Engine.stop) := by
    simp [World.perform, World.performEngine, hp, Endpoint.perform]
  refine ⟨_, able, ?_⟩
  simp [stops, World.endpoint?_modifyEndpoint, hp, Endpoint.map, Engine.stop]

theorem endpoint?_apply (change : Outside) (w : World) (x : EngineName) :
    ((change.apply w).endpoint? x).map (·.engine) = (w.endpoint? x).map (·.engine) := by
  cases change with
  | probeOutput e output =>
    rw [Outside.apply, World.endpoint?_modifyEndpoint, Option.map_map]
    refine Option.map_congr fun p _ => ?_
    simp only [Function.comp]
    split <;> rfl
  | _ => rfl

theorem stops_move (p : Play) (m : Move) : stops x p.config.shared ≤ stops x (p.move m).config.shared := by
  rcases p.shared_move m with same | ⟨change, -, same⟩ | ⟨flow, pick, action, r, -, -, hp⟩
  · rw [same]
  · have engines := congrArg (Option.map fun e : Engine => e.tally.stops)
      (endpoint?_apply change p.config.shared x)
    simp only [Option.map_map] at engines
    exact le_of_eq (congrArg (·.getD 0) (same ▸ engines.symm))
  · exact stops_perform hp

theorem stops_moves (p : Play) (ms : List Move) :
    stops x p.config.shared ≤ stops x (p.moves ms).config.shared :=
  Play.moves_keep (P := fun q => stops x p.config.shared ≤ stops x q.config.shared)
    (fun q m le => le.trans (stops_move q m)) le_rfl ms

/-- Engines stay. -/
theorem isSome_move {p : Play} (known : (p.config.shared.endpoint? x).isSome) (m : Move) :
    ((p.move m).config.shared.endpoint? x).isSome := by
  rcases p.shared_move m with same | ⟨change, -, same⟩ | ⟨flow, pick, action, r, -, -, hp⟩
  · rwa [same]
  · have engines := congrArg Option.isSome (endpoint?_apply change p.config.shared x)
    simp only [Option.isSome_map] at engines
    rwa [same, engines]
  · rcases World.endpoint?_perform hp x with ⟨op, reply, p, q, -, -, -, hu⟩ | ⟨-, same⟩
    · rw [hu]
      rfl
    · rwa [same]

/-! ## Plays -/

variable {t : Tale Stage} {f : Flow brokerInterface} {m : Move} {ms : List Move}

/-- A step of a certain flow. -/
def isStep (flow : Nat) : Move → Bool
  | .step id _ => id = flow
  | _ => false

/-- One who aborts does nothing but that. -/
theorem acts_next (keeps : t.Keeps lore) (hf : t.play.config.find? flow = some f)
    (busy : t.memory flow ≠ .free) : ∃ proc action next wait,
      f = ⟨proc, .act action next, wait⟩ ∧ acts action (t.memory flow) := by
  obtain ⟨p, hp, rfl⟩ := Option.map_eq_some_iff.mp hf
  have found : p.1 = flow := by simpa using List.find?_some hp
  obtain ⟨called, minds, -⟩ := keeps.2 p (List.mem_of_find?_eq_some hp)
  rw [found] at minds
  obtain ⟨number, proc, code, wait⟩ := p
  cases code with
  | act action next => exact ⟨proc, action, next, wait, rfl, minds.1⟩
  | done a => exact absurd minds busy
  | call callee next => exact absurd minds.1 busy
  | fork other next => exact absurd minds.1 busy

/-- One who knows the engine stops it with the next step. -/
theorem stops_of_aimed (keeps : t.Keeps lore) (here : (t.play.config.find? flow).isSome)
    (known : (t.play.config.shared.endpoint? x).isSome) (aimed : t.memory flow = .aimed x)
    (one : 1 ≤ ms.countP (isStep flow)) :
    stops x t.play.config.shared < stops x (t.play.moves ms).config.shared := by
  induction ms generalizing t with
  | nil => simp at one
  | cons m ms ih =>
    obtain ⟨f, hf⟩ := Option.isSome_iff_exists.mp here
    rw [Play.moves_cons]
    by_cases mine : isStep flow m
    · cases m with
      | step id pick =>
        obtain rfl : id = flow := by simpa [isStep] using mine
        obtain ⟨proc, action, next, wait, rfl, act⟩ := acts_next keeps hf (by rw [aimed]; simp)
        rw [aimed] at act
        obtain rfl : action = .engine x .stop := act
        obtain ⟨u, hp, lt⟩ := perform_stop known id pick
        have now : stops x t.play.config.shared < stops x (t.play.move (.step id pick)).config.shared := by
          rw [Play.move_act hf hp]
          exact lt
        exact now.trans_le (stops_moves _ ms)
      | _ => cases mine
    · have other : ∀ pick, m ≠ .step flow pick := by
        rintro pick rfl
        simp [isStep] at mine
      have rest : 1 ≤ ms.countP (isStep flow) := by rwa [List.countP_cons_of_neg mine] at one
      exact (stops_move t.play m).trans_lt (ih (keeps.move bodies (fun _ _ => rfl) m)
        (Option.isSome_of_eq_some (Play.find?_move other hf)) (isSome_move known m)
        ((Tale.memory_move keeps.1 other hf).trans aimed) rest)

/-- One whose abort was accepted stops the engine of the current session with the next two steps. -/
theorem stops_of_begun (keeps : t.Keeps lore) (here : (t.play.config.find? flow).isSome)
    (known : (t.play.config.shared.endpoint? x).isSome) (begun : t.memory flow = .begun)
    (steady : t.play.Along (fun q _ => Losses.On x q) ms) (two : 2 ≤ ms.countP (isStep flow)) :
    stops x t.play.config.shared < stops x (t.play.moves ms).config.shared := by
  induction ms generalizing t with
  | nil => simp at two
  | cons m ms ih =>
    obtain ⟨f, hf⟩ := Option.isSome_iff_exists.mp here
    have keeps' : (t.move lore m).Keeps lore := keeps.move bodies (fun _ _ => rfl) m
    rw [Play.moves_cons]
    by_cases mine : isStep flow m
    · cases m with
      | step id pick =>
        obtain rfl : id = flow := by simpa [isStep] using mine
        obtain ⟨proc, action, next, wait, rfl, act⟩ := acts_next keeps hf (by rw [begun]; simp)
        rw [begun] at act
        obtain rfl : action = .sessions .current := act
        have hp : World.perform id pick (.sessions .current) t.play.config.shared =
          some (t.play.config.shared.sessions.current, t.play.config.shared) := rfl
        have rest : 1 ≤ ms.countP (isStep id) := by
          rw [List.countP_cons_of_pos mine] at two
          omega
        have aimed : (t.move lore (.step id pick)).memory id = .aimed x := by
          rw [Tale.memory_step hf hp, begun]
          exact congrArg Stage.aimed steady.1
        exact (stops_move t.play _).trans_lt (stops_of_aimed keeps'
          (Option.isSome_of_eq_some (Play.find?_move_act hf hp)) (isSome_move known _) aimed rest)
      | _ => cases mine
    · have other : ∀ pick, m ≠ .step flow pick := by
        rintro pick rfl
        simp [isStep] at mine
      have rest : 2 ≤ ms.countP (isStep flow) := by rwa [List.countP_cons_of_neg mine] at two
      exact (stops_move t.play m).trans_lt (ih keeps'
        (Option.isSome_of_eq_some (Play.find?_move other hf)) (isSome_move known m)
        ((Tale.memory_move keeps.1 other hf).trans begun) steady.2 rest)

theorem begun_of_accepted {debug : Bool}
    (accepted : w.abortOf? (.broker (.beginAbort debug)) = some false) :
    (w.beginAbort debug).1.any (!·.2) := by
  simp only [World.abortOf?] at accepted
  unfold World.beginAbort
  split at accepted
  · cases accepted
  · next live =>
    have command : (debug && w.frames.containsDebug) = false := Option.some.inj accepted
    rw [if_neg live, command]
    rfl

/-- Once its abort is accepted, a flow has one to carry out. -/
theorem memory_of_accepted (keeps : t.Keeps lore)
    (accepted : (t.play.action? (.step flow pick)).bind t.play.config.shared.abortOf? = some false) :
    (t.move lore (.step flow pick)).memory flow = .begun ∧
      ((t.move lore (.step flow pick)).play.config.find? flow).isSome := by
  obtain ⟨action, next, accepted⟩ := Option.bind_eq_some_iff.mp accepted
  obtain ⟨f, hf, next⟩ := Option.bind_eq_some_iff.mp next
  obtain ⟨debug, rfl⟩ : ∃ debug, action = .broker (.beginAbort debug) := by
    rcases action with _ | _ | _ | _ | _ | op
    case broker => cases op <;> first | exact ⟨_, rfl⟩ | cases accepted
    all_goals cases accepted
  have idle : t.memory flow = .free := by
    by_contra busy
    obtain ⟨proc, action', next', wait, rfl, act⟩ := acts_next keeps hf busy
    cases next
    cases stage : t.memory flow <;> rw [stage] at act <;> first | exact busy stage | cases act
  obtain ⟨proc, code, wait⟩ := f
  cases code with
  | act action' next' =>
    cases next
    have begun := begun_of_accepted accepted
    rcases hb : t.play.config.shared.beginAbort debug with ⟨reply, u⟩
    have hp : World.perform flow pick (.broker (.beginAbort debug)) t.play.config.shared =
      some (reply, u) := congrArg some hb
    constructor
    · rw [Tale.memory_step hf hp, idle]
      exact if_pos (by rwa [hb] at begun)
    · exact Option.isSome_of_eq_some (Play.find?_move_act hf hp)
  | done | call | fork => cases next

/-- An engine with which a broker begins stays. -/
theorem isSome_moves {settings : BrokerSettings} {endpoints : List (EngineName × Endpoint)}
    {main : EngineName} {host : Host} (engine : x ∈ endpoints.map Prod.fst) (ms : List Move) :
    (((Play.new settings endpoints main host).moves ms).config.shared.endpoint? x).isSome := by
  refine Play.moves_keep (P := fun q => (q.config.shared.endpoint? x).isSome)
    (fun q m known => isSome_move known m) ?_ ms
  obtain ⟨e, he, rfl⟩ := List.mem_map.mp engine
  show ((endpoints.find? (·.1 = e.1)).map (·.2)).isSome
  rw [Option.isSome_map, List.find?_isSome]
  exact ⟨e, he, by simp⟩

/-- While the current session stays on one engine, the commands that are asked for run on it, and an
abort that is accepted meanwhile has stopped it once its flow has made two more steps. So no such
command is left running by an abort that has not stopped it. -/
theorem abort_reaches_commands (settings : BrokerSettings) (endpoints : List (EngineName × Endpoint))
    (main : EngineName) (host : Host) (before during after : List Move) (x : EngineName) (flow : Nat)
    (pick : Bool) :
    let p := (Play.new settings endpoints main host).moves before
    let q := p.moves during
    let r := (q.move (.step flow pick)).moves after
    x ∈ endpoints.map Prod.fst →
      (q.action? (.step flow pick)).bind q.config.shared.abortOf? = some false →
      p.Along (fun s _ => Losses.On x s) (during ++ .step flow pick :: after) →
      2 ≤ after.countP (isStep flow) →
      (∀ frame e a route, .runCommand frame e a route ∈ q.config.procs →
        p.config.shared.nextTicket ≤ a.call → e = x) ∧
      stops x q.config.shared < stops x r.config.shared := by
  intro p q r engine accepted steady two
  obtain ⟨earlier, -, later⟩ := Play.along_append.mp steady
  refine ⟨Losses.runs_on_steady settings endpoints main host before during x earlier, ?_⟩
  let t := (Tale.new lore settings endpoints main host).moves lore (before ++ during)
  have play : t.play = q := by
    rw [show t.play = _ from Tale.play_moves _]
    exact List.foldl_append
  have keeps : t.Keeps lore :=
    Tale.keeps_moves bodies (fun _ _ => rfl) settings endpoints main host _
  have known : (q.config.shared.endpoint? x).isSome := by
    have same : (Play.new settings endpoints main host).moves (before ++ during) = q :=
      List.foldl_append
    rw [← same]
    exact isSome_moves engine _
  obtain ⟨begun, here⟩ := memory_of_accepted keeps (by rw [play]; exact accepted)
  have moved : (t.move lore (.step flow pick)).play = q.move (.step flow pick) := by
    rw [← play]
    rfl
  have stopped : stops x (q.move (.step flow pick)).config.shared < stops x r.config.shared := by
    rw [← moved] at later
    have reached := stops_of_begun (keeps.move bodies (fun _ _ => rfl) (.step flow pick)) here
      (by rw [moved]; exact isSome_move known _) begun later two
    rwa [moved] at reached
  exact (stops_move q _).trans_lt stopped

/-! ### A command that waits to be stopped -/

/-- Two engines; a command can wait on the first. -/
def waitingEndpoints : List (EngineName × Endpoint) :=
  [("main", [("wait", .block)]), ("second", [])].map fun (name, scripts) =>
    (name, ⟨.new ⟨5, 1⟩ ⟨1, "localhost", "host"⟩ scripts, false, none, none⟩)

/-- The first becomes a broker. -/
def setUp : List Move :=
  [.arrive "set up" (.setUp "main" true)] ++ turns 0 40

def wait : List Move :=
  [.arrive "wait" (.execute (.script "wait") .standard none)] ++ turns 1 40

def push : List Move :=
  [.arrive "second" (.pushSession "second" ⟨2, "second", "host"⟩ none none none)] ++ turns 2 20

/-- A command that was asked for since a number was next, on an engine. -/
def runsOn (n : Nat) (x : EngineName) : Proc → Bool
  | .runCommand _ e a _ => n ≤ a.call && e = x
  | _ => false

theorem exists_runsOn {n : Nat} {x : EngineName} {procs : List Proc} (running : procs.any (runsOn n x)) :
    ∃ frame e a route, .runCommand frame e a route ∈ procs ∧ n ≤ a.call := by
  obtain ⟨proc, mem, late⟩ := List.any_eq_true.mp running
  cases proc
  case runCommand frame e a route =>
    rw [runsOn, Bool.and_eq_true, decide_eq_true_eq] at late
    exact ⟨frame, e, a, route, mem, late.1⟩
  all_goals cases late

/-- An abort stops the engine of a command that waits. -/
theorem abort_reaches_waiting_command :
    let p := (Play.new .standard waitingEndpoints "main" .new).moves setUp
    let q := p.moves (wait ++ [.arrive "abort" (.abort false)])
    (q.action? (.step 2 false)).bind q.config.shared.abortOf? = some false ∧
      (∃ frame e a route, .runCommand frame e a route ∈ q.config.procs ∧ e = "main") ∧
      stops "main" q.config.shared < stops "main" ((q.move (.step 2 false)).moves (turns 2 2)).config.shared := by
  intro p q
  have accepted : (q.action? (.step 2 false)).bind q.config.shared.abortOf? = some false := by
    decide +kernel
  have running : q.config.procs.any (runsOn p.config.shared.nextTicket "main") := by decide +kernel
  have steady : p.Along (fun s _ => Losses.On "main" s)
      ((wait ++ [.arrive "abort" (.abort false)]) ++ .step 2 false :: turns 2 2) := by
    decide +kernel
  have reached := abort_reaches_commands .standard waitingEndpoints "main" .new setUp
    (wait ++ [.arrive "abort" (.abort false)]) (turns 2 2) "main" 2 false (by decide)
  replace reached := reached accepted steady (by decide)
  -- from here on the broker need not be computed any more
  rw [show (Play.new .standard waitingEndpoints "main" .new).moves setUp = p from rfl,
    show p.moves (wait ++ [.arrive "abort" (.abort false)]) = q from rfl] at reached
  clear_value q
  obtain ⟨right, stopped⟩ := reached
  obtain ⟨frame, e, a, route, mem, late⟩ := exists_runsOn running
  exact ⟨accepted, ⟨frame, e, a, route, mem, right frame e a route mem late⟩, stopped⟩

/-- Where a session on the second engine was pushed meanwhile, an abort stops that engine and leaves the
command on the first one running. The phase stays as the abort has set it, and another abort is not even
begun. -/
theorem abort_misses_command :
    let p := (Play.new .standard waitingEndpoints "main" .new).moves setUp
    let q := p.moves (wait ++ push ++ [.arrive "abort" (.abort false)])
    let r := q.moves (turns 3 20 ++ [.arrive "again" (.abort false)] ++ turns 4 20)
    (q.action? (.step 3 false)).bind q.config.shared.abortOf? = some false ∧
      q.config.procs.any (runsOn p.config.shared.nextTicket "main") ∧
      r.phase = .aborting ∧ r.config.procs.any (runsOn p.config.shared.nextTicket "main") ∧
      stops "main" r.config.shared = 0 ∧ stops "second" r.config.shared = 1 ∧
      r.config.procs.all fun proc => !proc.aborts || proc.isCommand := by
  decide +kernel

end SessionBroker.Aborts
