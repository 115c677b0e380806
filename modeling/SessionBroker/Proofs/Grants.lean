import SessionBroker.Proofs.Lore
import SessionBroker.Proofs.Quiet
import SessionBroker.Proofs.Routine

/-!
# Where commands run

One who asks for a command looks which session is current, waits for a lease, and runs the command on the
engine of the session that it saw. Whatever happens while it waits, the engine stays the same; so it is
that of the session which is current at the grant if this session is on the engine that was seen, and
only then.
-/

namespace SessionBroker

/-- The engine on which the procedure under way is about to run a command. -/
def Flow.runsOn? : Flow brokerInterface → Option EngineName
  | ⟨_, .act (.engine e (.arrive ..)) _, _⟩ => some e
  | ⟨_, .call (.invoke e ..) _, _⟩ => some e
  | _ => none

namespace Grants

/-! ## What is remembered -/

/-- A lease that was granted. -/
structure Grant where
  frame : Nat
  /-- The engine of the session that was current when the flow last looked. -/
  seen : Option EngineName
  /-- The engine of the session that was current at the grant. -/
  current : EngineName
  deriving DecidableEq

structure Memory where
  /-- The engine of the session that was current at the last look. -/
  seen : Option EngineName
  /-- The last lease. -/
  grant : Option Grant

def note : (action : Action) → action.Reply → World → Memory → Memory
  | .sessions .current, _, w, k => { k with seen := some w.sessions.current.engine }
  | .frames (.look frame _ _), (answer : Gate.Answer), w, k =>
    if answer = .granted then { k with grant := some ⟨frame, k.seen, w.sessions.current.engine⟩ } else k
  | _, _, _, k => k

/-- A command is run on the engine that was seen before the lease was granted. -/
def calls : Proc → Memory → Prop
  | .runCommand frame e _ way, k =>
    way ≠ .idle → ∃ g, k.grant = some g ∧ g.frame = frame.id ∧ g.seen = some e
  | _, _ => True

/-- A lease that somebody waited for is granted to what was seen before the wait. -/
def back : (proc : Proc) → Memory → proc.Result → Memory → Prop
  | .awaitLease frame _ _, k, (r : Except Failure Unit), k' =>
    r.isOk → ∃ current, k'.grant = some ⟨frame, k.seen, current⟩
  | _, _, _, _ => True

def lore : Lore brokerInterface World Memory :=
  ⟨⟨none, none⟩, note, fun _ _ => True, calls, fun proc _ => calls proc ⟨none, none⟩, back⟩

/-! ## Programs -/

/-- Everything but commands under a lease. -/
def scope : Scope brokerInterface := ⟨fun _ => True, Proc.IsRoutine, Proc.IsRoutine⟩

@[simp] theorem scope_acts {a : Action} : scope.acts a ↔ True := Iff.rfl
@[simp] theorem scope_calls {p : Proc} : scope.calls p ↔ p.IsRoutine := Iff.rfl

instance : scope.Routine := ⟨fun _ _ => trivial, fun _ h => h, fun _ h => h⟩

instance : scope.Outer where
  acts _ _ := trivial
  calls p h := by cases p <;> first | exact h.elim | trivial
  starts p h := by cases p <;> first | exact h.elim | trivial

variable {α β : Type} {post : α → Memory → Prop} {k : Memory}

abbrev Minds (post : α → Memory → Prop) (p : Code α) (k : Memory) : Prop :=
  p.Minds lore brokerMachine post k

theorem calls_of_isRoutine {proc : Proc} (routine : proc.IsRoutine) (k : Memory) : calls proc k := by
  cases proc
  case runCommand => exact fun other => absurd routine other
  all_goals trivial

theorem minds_of_within {p : Code α} (h : p.Within scope) : Minds (fun _ _ => True) p k :=
  h.minds (K := fun _ => True) (fun _ _ _ _ => ⟨trivial, fun _ _ => trivial⟩)
    (fun _ k routine _ => ⟨calls_of_isRoutine routine k, fun _ _ _ => trivial⟩)
    (fun _ _ routine _ => calls_of_isRoutine routine _) trivial

/-- Whatever was done before, something else may be done. -/
theorem minds_then {p : Code β} {f : β → Code α} (h : p.Within scope)
    (hf : ∀ b k, Minds post (f b) k) : Minds post (p >>= f) k :=
  (minds_of_within h).bind fun b k _ => hf b k

theorem minds_engine {f : EngineName → Code α} (hf : ∀ e k, k.seen = some e → Minds post (f e) k) :
    Minds post (SessionChanges.currentEngine >>= f) k := by
  refine ⟨trivial, fun flow pick w s t hp => ?_⟩
  cases hp
  exact hf _ _ rfl

/-- A lease is waited for, and granted to what was seen before. -/
theorem minds_acquire {frame : Nat} {caller : Gate.Caller} {e : EngineName}
    {f : Except Failure Unit → Code α} (seen : k.seen = some e)
    (failed : ∀ fault k, Minds post (f (.error fault)) k)
    (got : ∀ k current, k.grant = some ⟨frame, some e, current⟩ → Minds post (f (.ok ())) k) :
    Minds post (Leases.acquire frame caller >>= f) k := by
  refine ⟨trivial, fun flow pick w ticket t _ => ⟨trivial, fun r k' granted => ?_⟩⟩
  cases r with
  | error fault => exact failed fault k'
  | ok _ =>
    obtain ⟨current, grant⟩ := granted rfl
    exact got k' current (seen ▸ grant)

theorem minds_await (frame ticket : Nat) (caller : Gate.Caller) :
    Minds (back (.awaitLease frame ticket caller) k) (Leases.await frame ticket caller) k := by
  refine ⟨trivial, fun flow pick w answer t _ => ?_⟩
  cases answer with
  | granted => exact fun _ => ⟨w.sessions.current.engine, rfl⟩
  | exited => rintro ⟨⟩
  | cancelled => rintro ⟨⟩
  | waiting => exact ⟨trivial, fun r k' granted => granted⟩

/-- To look at what is around a frame is not to fetch a lease. -/
theorem minds_surroundings {frame : FrameRef} {g : Grant} {f : Surroundings → Code α}
    (grant : k.grant = some g) (hf : ∀ around k, k.grant = some g → Minds post (f around) k) :
    Minds post (Routing.surroundings frame >>= f) k := by
  have within : (Routing.surroundings frame).Within
      ⟨Action.IsPlain, fun _ => False, fun _ => False⟩ := by
    simp [Routing.surroundings, SessionChanges.current, Engines.isStopped]
  refine (within.minds (K := fun k => k.grant = some g) ?_ (fun _ _ => False.elim)
    (fun _ _ => False.elim) grant).bind hf
  intro action k plain grant
  refine ⟨trivial, fun r w => ?_⟩
  show (note action r w k).grant = some g
  rcases action with _ | op | op | _ | _ | _
  case frames => cases op <;> first | exact plain.elim | exact grant
  case sessions => cases op <;> exact grant
  all_goals exact grant

/-- A lease that was granted serves to run a command on the engine that was seen. -/
theorem minds_run {frame : FrameRef} {e current : EngineName} {q : Request} {route : Route}
    {f : Response → Code α} (grant : k.grant = some ⟨frame.id, some e, current⟩)
    (hf : ∀ r k, Minds post (f r) k) :
    Minds post ((Code.invoke (.runCommand frame e q route) : Code Response) >>= f) k :=
  ⟨fun _ => ⟨_, grant, rfl, rfl⟩, fun r k' _ => hf r k'⟩

theorem minds_leased (frame : FrameRef) (q : Request) (route : Route) (token : Option Token) :
    Minds (fun _ _ => True) (Routing.leased frame q route token) k := by
  refine minds_engine fun e k seen => minds_acquire seen (fun _ _ => trivial) ?_
  intro k current grant
  exact minds_run grant fun r k => minds_of_within (by simp [Leases.release])

theorem minds_attempt (frame : FrameRef) (q : Request) (token : Option Token) (route : Route) :
    Minds (fun _ _ => True) (Routing.attempt frame q token route) k := by
  cases route with
  | idle =>
    refine minds_then (by simp) fun r k => ?_
    cases r with
    | none => exact minds_leased frame q .direct token
    | some r => trivial
  | mailbox => exact minds_of_within (by simp [Routing.attempt])
  | prompt => exact minds_leased frame q .prompt token
  | direct => exact minds_leased frame q .direct token

theorem minds_route (q : Request) (token : Option Token) :
    Minds (fun _ _ => True) (Routing.route q token) k := by
  refine minds_then (by simp) fun frame k => minds_then (by simp) fun around k => ?_
  refine (minds_attempt frame q token _).bind fun r k _ => minds_of_within ?_
  split
  · refine Program.within_bind (by simp) fun phase => ?_
    split <;> simp
  · simp

theorem minds_serve (frame : FrameRef) (ticket : Nat) (q : Request) :
    Minds (fun _ _ => True) (Routing.serve frame ticket q) k := by
  refine minds_engine fun e k seen => minds_acquire seen ?_ ?_
  · exact fun fault k => minds_of_within (by simp)
  · intro k current grant
    refine minds_surroundings grant fun around k grant => minds_run grant fun r k => ?_
    exact minds_of_within (by simp)

theorem within_handle (request : ClientRequest) : (Clients.handle request).Within scope := by
  by_cases routine : request.IsRoutine
  · exact Clients.routine_handle routine
  · cases request
    case abort => simp [Clients.handle]
    all_goals exact absurd trivial routine

/-- What nobody has to remember a lease for. -/
theorem within_body_of_ne {proc : Proc} (unleased : ∀ q token, proc ≠ .route q token)
    (unserved : ∀ frame ticket q, proc ≠ .serve frame ticket q) : (body proc).Within scope := by
  by_cases routine : proc.IsRoutinely
  · exact routine_body routine
  · by_cases quiet : proc.IsQuiet
    · exact within_body quiet
    · cases proc
      case serveClient name request => exact Clients.routine_serve (within_handle request)
      case route q token => exact absurd rfl (unleased q token)
      case serve frame ticket q => exact absurd rfl (unserved frame ticket q)
      all_goals first | exact absurd trivial routine | exact absurd trivial quiet

/-- Every procedure runs commands on engines that were seen before the grant. -/
theorem bodies : lore.Bodies brokerMachine := by
  refine ⟨?_, fun proc k may => may⟩
  rintro proc k -
  have ended : (∀ r k', back proc k r k') → Minds (fun _ _ => True) (body proc) k →
      Minds (back proc k) (body proc) k :=
    fun all h => h.imp fun r k' _ => all r k'
  cases proc
  case awaitLease frame ticket caller => exact minds_await frame ticket caller
  case route q token => exact ended (fun _ _ => trivial) (minds_route q token)
  case serve frame ticket q => exact ended (fun _ _ => trivial) (minds_serve frame ticket q)
  all_goals
    refine ended (fun _ _ => trivial) (minds_of_within (within_body_of_ne ?_ ?_)) <;> rintro _ _ <;> simp

/-! ## What a command runs -/

/-- A step that runs no command on another engine. -/
def StaysOn (e : EngineName) : Action → Prop
  | .engine x (.arrive ..) => x = e
  | _ => True

/-- What may be done if commands are run on one engine only. -/
def on (e : EngineName) : Scope brokerInterface where
  acts := StaysOn e
  calls
    | .invoke x .. => x = e
    | _ => True
  starts _ := True

section

variable {e : EngineName}

@[local simp] theorem on_acts {a : Action} : (on e).acts a ↔ StaysOn e a := Iff.rfl

@[local simp] theorem on_calls {p : Proc} : (on e).calls p ↔ match p with
    | .invoke x .. => x = e
    | _ => True := Iff.rfl

attribute [local simp] StaysOn

theorem on_push (s : Session) : (SessionChanges.push s).Within (on e) := by
  simp [SessionChanges.push]

theorem on_pop (change : SessionChange) : (SessionChanges.pop change).Within (on e) := by
  refine Program.within_bind (by simp) fun popped => ?_
  cases popped <;> simp

theorem on_adjust (probed : Identity) (changes : List Adjustment) :
    (SessionChanges.adjust probed changes).Within (on e) := by
  induction changes with
  | nil => simp [SessionChanges.adjust]
  | cons change rest ih =>
    cases change with
    | pop => exact Program.within_bind (on_pop .exit) fun _ => ih
    | push origin location =>
      exact Program.within_bind (by simp) fun s => Program.within_bind (on_push s) fun _ => ih

theorem on_atPrompt (c : Command) : (Engines.atPrompt e c).Within (on e) := by
  refine Program.within_bind (by simp) fun debugger => ?_
  simp only []
  split
  · simp
  · split
    · simp
    · split <;> simp

theorem on_through (c : Command) (merge nested : Bool) :
    (Engines.through e c merge nested).Within (on e) := by
  refine Program.within_bind (by simp) fun answer => ?_
  cases answer <;> simp

theorem on_refresh (atPrompt : Bool) : (SessionChanges.refresh e atPrompt).Within (on e) := by
  refine Program.within_bind ?_ fun answer => ?_
  · unfold SessionChanges.probe
    split
    · exact Program.within_bind (on_atPrompt _) fun _ => by simp
    · exact Program.within_bind (on_through _ _ _) fun _ => by simp
  · split
    · simp
    · exact Program.within_bind (by simp) fun stop => Program.within_bind (by simp) fun changes =>
        on_adjust _ changes

theorem on_leavePrompts (x : EngineName) (frames : List FrameRef) :
    (Aborting.leavePrompts x frames).Within (on e) := by
  induction frames with
  | nil => simp [Aborting.leavePrompts]
  | cons f rest ih => simp [Aborting.leavePrompts, ih]

theorem on_exitDebugger (action : ResumeAction) : (Aborting.exitDebugger action).Within (on e) := by
  refine Program.within_bind (by simp) fun live => ?_
  split <;> simp

theorem on_abort (debug : Bool) : (Aborting.abort debug).Within (on e) := by
  refine Program.within_bind (by simp) fun begun => ?_
  cases begun with
  | none => simp
  | some b =>
    refine Program.within_bind (by simp [SessionChanges.currentEngine, SessionChanges.current])
      fun x => ?_
    have unwound : Aborting.unwindPrompts.Within (on e) :=
      Program.within_bind (by simp [SessionChanges.currentEngine, SessionChanges.current]) fun x =>
        Program.within_bind (by simp) fun live => on_leavePrompts x live
    simp [unwound, on_exitDebugger]

theorem on_writeLines (lines : List String) : (Running.writeLines lines).Within (on e) := by
  induction lines with
  | nil => simp [Running.writeLines]
  | cons line rest ih => simp [Running.writeLines, Running.write, ih]

variable {frame : FrameRef} {q : Request} {route : Route}

theorem on_send : (Running.send frame e q route).Within (on e) := by
  unfold Running.send
  split
  · refine Program.within_bind (on_atPrompt _) fun r => ?_
    cases r with
    | error f => simp
    | ok reply =>
      simp only []
      split <;> simp
  · exact on_through _ _ _

theorem on_conclude (v : Verdict) : (Running.conclude frame e q route v).Within (on e) := by
  have finished : (Running.finish v.progress v.outcome.hadErrors).Within (on e) := by
    simp [Running.finish]
  refine Program.within_bind (by simp) fun availability => ?_
  split
  · refine Program.within_bind ?_ fun _ => Program.within_bind finished fun _ => by simp
    simp [Running.probeAfter, on_refresh]
  · refine Program.within_bind (on_abort false) fun _ => Program.within_bind (on_pop .exit) fun _ => ?_
    exact Program.within_bind finished fun _ => by simp

/-- A command runs nothing on any engine but its own. -/
theorem on_run : (Running.run frame e q route).Within (on e) := by
  have shown : ∀ v, (Running.present q v).Within (on e) := by
    intro v
    unfold Running.present
    cases v.errorText <;> simp [Running.write, on_writeLines]
  have rest : (do
      let v := Verdict.ofResult (← Running.send frame e q route)
      Running.present q v
      Running.conclude frame e q route v).Within (on e) :=
    Program.within_bind on_send fun r => Program.within_bind (shown _) fun _ => on_conclude _
  refine Program.within_bind (by simp [Running.begin]) fun _ => ?_
  split
  · exact Program.within_bind (by simp [Running.write]) fun _ => rest
  · exact rest

end

/-- Commands keep to their engines. -/
def scopeOf : Proc → Scope brokerInterface
  | .runCommand _ e _ _ => on e
  | _ => .all

theorem within_scopeOf (proc : Proc) : (body proc).Within (scopeOf proc) := by
  cases proc
  case runCommand => exact on_run
  all_goals exact Program.within_all _

theorem runsOn_of_within {e x : EngineName} {f : Flow brokerInterface} (h : f.code.Within (on e))
    (runs : x ∈ f.runsOn?) : x = e := by
  obtain ⟨proc, code, wait⟩ := f
  cases code with
  | act action next =>
    rcases action with ⟨y, op⟩ | _ | _ | _ | _ | _
    case engine =>
      cases op
      case arrive =>
        cases runs
        exact h.1
      all_goals cases runs
    all_goals cases runs
  | call callee next =>
    cases callee
    case invoke =>
      cases runs
      exact h.1
    all_goals cases runs
  | done | fork => cases runs

/-! ## Commands run where they were sent -/

/-- One who has a lease and is about to run a command runs it on the engine of the session that was
current when it looked before it waited. So this is the engine of the session that was current at the
grant exactly if that session was on the engine that it saw. What a command runs, it runs there. -/
theorem runs_where_seen (settings : BrokerSettings) (endpoints : List (EngineName × Endpoint))
    (main : EngineName) (host : Host) (ms : List Move) :
    let t := (Tale.new lore settings endpoints main host).moves lore ms
    (∀ flow frame e q route,
      t.play.event? flow = some (.entered (.runCommand frame e q route)) → route ≠ .idle →
        ∃ g, (t.memory flow).grant = some g ∧ g.frame = frame.id ∧ g.seen = some e ∧
          (g.current = e ↔ g.seen = some g.current)) ∧
    ∀ f ∈ t.play.config.flows, ∀ frame e q route, f.2.proc = .runCommand frame e q route →
      ∀ x ∈ f.2.runsOn?, x = e := by
  intro t
  obtain ⟨-, kept⟩ : t.Keeps lore :=
    Tale.keeps_moves bodies (fun _ _ => trivial) settings endpoints main host ms
  constructor
  · intro flow frame e q route enters leased
    obtain ⟨f, hf, event⟩ := Option.bind_eq_some_iff.mp enters
    obtain ⟨p, hp, rfl⟩ := Option.map_eq_some_iff.mp hf
    have here : p.1 = flow := by simpa using List.find?_some hp
    subst here
    obtain ⟨called, minds, -⟩ := kept p (List.mem_of_find?_eq_some hp)
    obtain ⟨number, proc, code, wait⟩ := p
    cases code with
    | call callee next =>
      cases event
      obtain ⟨g, grant, frame, seen⟩ := minds.1 leased
      exact ⟨g, grant, frame, seen, by rw [seen, Option.some.injEq, eq_comm]⟩
    | fork callee next =>
      cases event
      obtain ⟨g, ⟨⟩, -⟩ := minds.1 leased
    | done | act => cases event
  · intro f hf frame e q route command x runs
    have keeps : f.2.KeepsTo scopeOf := by
      rw [show t.play = _ from Tale.play_moves ms] at hf
      exact Play.keepsTo_moves (p := .new settings endpoints main host) within_scopeOf (by rintro f ⟨⟩)
        ms f hf
    have code : f.2.code.Within (on e) := by simpa only [command, scopeOf] using keeps.1
    exact runsOn_of_within code runs

/-! ### A session that is pushed meanwhile -/

/-- Two engines; a command can wait on the first. -/
def twoEndpoints : List (EngineName × Endpoint) :=
  [("main", [("wait", .block)]), ("second", [])].map fun (name, scripts) =>
    (name, ⟨.new ⟨5, 1⟩ ⟨1, "localhost", "host"⟩ scripts, false, none, none⟩)

/-- A command runs on the first engine and another one waits for its lease while a session on the second
engine is pushed; then the first command is stopped, and the other one gets the lease. -/
def pushedMeanwhile : List Move :=
  [.arrive "set up" (.setUp "main" true)] ++ turns 0 40
    ++ [.arrive "wait" (.execute (.script "wait") .standard none)] ++ turns 1 40
    ++ [.arrive "greet" (.execute (.script "greet") .standard none)] ++ turns 2 40
    ++ [.arrive "second" (.pushSession "second" ⟨2, "second", "host"⟩ none none none)] ++ turns 3 20
    ++ [.arrive "stop" (.engineStep "main" .stop)] ++ turns 4 20 ++ turns 1 10 ++ turns 2 3

abbrev tale : Tale Memory := (Tale.new lore .standard twoEndpoints "main" .new).moves lore pushedMeanwhile

/-- A command is about to begin on an engine under a lease of its own. -/
def begins (x : EngineName) : Event brokerInterface → Bool
  | .entered (.runCommand _ e _ route) => e = x && route ≠ .idle
  | _ => false

/-- The command that waited begins on the engine that was current when it looked. -/
theorem runs_where_seen_first : ∃ frame q route g,
    tale.play.event? 2 = some (.entered (.runCommand frame "main" q route)) ∧ route ≠ .idle ∧
      (tale.memory 2).grant = some g ∧ g.frame = frame.id ∧ g.seen = some "main" := by
  have beginning : (tale.play.event? 2).any (begins "main") := by decide +kernel
  have right : ∀ frame e q route, tale.play.event? 2 = some (.entered (.runCommand frame e q route)) →
      route ≠ .idle → ∃ g, (tale.memory 2).grant = some g ∧ g.frame = frame.id ∧ g.seen = some e ∧
        (g.current = e ↔ g.seen = some g.current) :=
    (runs_where_seen .standard twoEndpoints "main" .new pushedMeanwhile).1 2
  -- from here on the broker need not be computed any more
  generalize tale = t at beginning right ⊢
  rcases entered : t.play.event? 2 with _ | proc | _ <;> rw [entered] at beginning
  · cases beginning
  · cases proc
    case runCommand frame e q route =>
      obtain ⟨rfl, leased⟩ : e = "main" ∧ route ≠ .idle := by simpa [begins] using beginning
      obtain ⟨g, grant, at_frame, seen, -⟩ := right frame _ q route entered leased
      exact ⟨frame, q, route, g, rfl, leased, grant, at_frame, seen⟩
    all_goals cases beginning
  · cases beginning

/-- But its lease was granted while the session on the second engine was current, and so it runs on an
engine that is not that of the current session. -/
theorem runs_on_former_engine :
    (tale.play.event? 2).any (begins "main") ∧
      (tale.memory 2).grant.any (·.current = "second") ∧
      tale.play.config.shared.sessions.current.engine = "second" ∧
      (tale.play.moves (turns 2 4)).config.shared.engineCalls.head?.any fun call =>
        call.engine = "main" && call.command.text = "greet" := by
  decide +kernel

end Grants

end SessionBroker
