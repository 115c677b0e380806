import SessionBroker.Proofs.Duties.Terms

/-!
# Conduct

Whatever the procedures of a broker do, they discharge the duties they have.
-/

namespace SessionBroker.Duties

open Duty

/-! ## Programs -/

variable {α β : Type} {own x y z : Multiset Duty} {post : α → Multiset Duty → Prop}

/-- A program that begins with some duties and ends with others. -/
def Turns (x y : Multiset Duty) (p : Code α) : Prop := p.Obeys contract (fun _ got => got = y) x

/-- What a program does not need is there afterwards. -/
theorem Turns.then {p : Code α} {f : α → Code β} {post : β → Multiset Duty → Prop} (h : Turns x y p)
    (own_eq : own = x + z) (hf : ∀ a, (f a).Obeys contract post (y + z)) :
    (p >>= f).Obeys contract post own :=
  h.bind own_eq.ge fun a _ e => by rw [e]; exact hf a

/-- A calm program has whatever it had. -/
theorem turns_calm {p : Code α} (calm : p.Within calmScope) : Turns x x p := by
  have kept : (p >>= .done).Obeys contract (fun _ got => got = x) x :=
    Program.Within.then calm.calmly fun a => Program.obeys_done rfl
  rwa [show p >>= .done = p from Program.bind_done p] at kept

/-- Before anything else one may do what is calm. -/
theorem obeys_calm {p : Code α} {f : α → Code β} {post : β → Multiset Duty → Prop}
    (calm : p.Within calmScope) (hf : ∀ a, (f a).Obeys contract post own) :
    (p >>= f).Obeys contract post own :=
  Program.Within.then calm.calmly hf

/-- A step that discharges a duty. -/
theorem obeys_swap {action : Action} {f : action.Reply → Code α}
    (used : Discharges action (swap action x y)) (own_eq : own = x + z)
    (hf : ∀ r, (f r).Obeys contract post (y + z)) :
    ((Program.perform (I := brokerInterface) action : Code action.Reply) >>= f).Obeys contract post
      own := by
  refine Program.obeys_perform used own_eq.ge ?_
  rintro r _ rfl
  exact hf r

/-- What is lent comes back. -/
theorem obeys_lend {proc : Proc} {f : proc.Result → Code α}
    (served : Serves proc (lends proc x)) (own_eq : own = x + z)
    (hf : ∀ r, (f r).Obeys contract post (x + z)) :
    ((Code.invoke proc : Code proc.Result) >>= f).Obeys contract post own := by
  refine Program.obeys_invoke served own_eq.ge ?_
  rintro r _ rfl
  exact hf r

theorem turns_lend {proc : Proc} (served : Serves proc (lends proc x)) :
    Turns x x (Code.invoke proc : Code proc.Result) := by
  have kept : ((Code.invoke proc : Code proc.Result) >>= .done).Obeys contract (fun _ got => got = x) x :=
    obeys_lend served (add_zero x).symm fun r => Program.obeys_done (add_zero x)
  exact kept

theorem turns_swap {action : Action} (used : Discharges action (swap action x y)) :
    Turns x y (Program.perform (I := brokerInterface) action : Code action.Reply) := by
  have kept : ((Program.perform (I := brokerInterface) action : Code action.Reply) >>= .done).Obeys contract
      (fun _ got => got = y) x :=
    obeys_swap used (add_zero x).symm fun r => Program.obeys_done (add_zero y)
  exact kept

theorem turns_done {a : α} : Turns x x (.done a) := Program.obeys_done rfl

/-! ### Commands -/

/-- What a command has while it runs, for those it calls. -/
abbrev atWork : Multiset Duty := {running} + {hand}

namespace Engines

variable {e : EngineName}

theorem turns_atPrompt (c : Command) : Turns atWork atWork (Engines.atPrompt e c) := by
  refine obeys_calm (by simp) fun debugger => ?_
  simp only []
  split
  · exact turns_done
  · split
    · exact turns_done
    · split
      · exact turns_done
      · refine obeys_lend (.lent (by simp [lent])) (add_zero _).symm fun r => ?_
        exact Program.obeys_done (add_zero _)

theorem turns_through (c : Command) (merge nested : Bool) :
    Turns atWork atWork (Engines.through e c merge nested) := by
  refine obeys_calm (by simp) fun answer => ?_
  cases answer with
  | some output => exact turns_done
  | none => exact turns_lend (.lent (by simp [lent]))

theorem turns_runScript (s : Script) : Turns atWork atWork (Engines.runScript e s) := by
  cases s
  case «break» event =>
    refine obeys_calm (by simp) fun hooks => ?_
    cases hooks with
    | none => exact turns_done
    | some h =>
      refine obeys_calm (by simp) fun _ => ?_
      refine obeys_lend (.lent (by simp [lent])) (add_zero _).symm fun action => ?_
      rw [add_zero]
      exact turns_calm (by simp)
  case nestedPrompt =>
    refine turns_calm (Program.within_bind (by simp) fun hooks => ?_)
    cases hooks <;> simp
  all_goals exact turns_calm (by simp [Engines.runScript])

theorem turns_run (c : Command) : Turns atWork atWork (Engines.run e c) := by
  unfold Engines.run
  split
  · exact turns_calm (by simp)
  · refine obeys_calm (by simp) fun script => ?_
    cases script with
    | none => exact turns_done
    | some s => exact turns_runScript s

theorem turns_invoke (c : Command) (merge : Bool) :
    Turns atWork atWork (Engines.invoke e c merge) := by
  refine obeys_calm (by simp) fun entered => ?_
  cases entered with
  | error f => exact turns_done
  | ok _ =>
    refine (turns_run c).then (add_zero _).symm fun r => ?_
    rw [add_zero]
    exact turns_calm (by simp)

theorem turns_step (step : EngineStep) : Turns atWork atWork (Engines.step e step) := by
  by_cases calm : step.IsCalm
  · exact turns_calm (Engines.calm_step calm)
  · cases step
    case invoke c merge nested =>
      refine obeys_lend (.lent (by simp [lent])) (add_zero _).symm fun r => ?_
      exact Program.obeys_done (add_zero _)
    case atPrompt c foreign =>
      cases foreign with
      | true => exact turns_done
      | false =>
        refine (turns_atPrompt c).then (add_zero _).symm fun r => ?_
        exact Program.obeys_done (add_zero _)
    all_goals exact absurd trivial calm

theorem turns_playSteps (steps : List EngineStep) :
    Turns atWork atWork (Engines.playSteps e steps) := by
  induction steps with
  | nil => exact turns_done
  | cons s rest ih =>
    have noted : ∀ r, Turns atWork atWork (do
        Code.broker (.trace (.reply r))
        Engines.playSteps e rest) := fun r => obeys_calm (by simp) fun _ => ih
    cases s
    case register plans => exact noted _
    all_goals
      refine obeys_lend (.lent (by simp [lent])) (add_zero _).symm fun r => ?_
      rw [add_zero]
      exact noted r

theorem turns_playStop (event : StopEvent) : Turns atWork atWork (Engines.playStop e event) := by
  refine obeys_calm (by simp) fun stopped => obeys_calm (by simp) fun _ => ?_
  refine obeys_calm (by simp) fun plan => ?_
  rcases plan with _ | ⟨steps, action⟩
  · exact turns_done
  · refine (turns_playSteps steps).then (add_zero _).symm fun _ => ?_
    exact Program.obeys_done (add_zero _)

end Engines

namespace Leases

/-- With a free hand one fetches a lease, or has the hand free still. -/
theorem obeys_acquire {frame : Nat} {caller : Gate.Caller} {f : Except Failure Unit → Code α}
    (own_eq : own = {hand} + z) (failed : ∀ e, (f (.error e)).Obeys contract post ({hand} + z))
    (got : (f (.ok ())).Obeys contract post ({lease frame} + z)) :
    (Leases.acquire frame caller >>= f).Obeys contract post own := by
  refine obeys_swap (.calm trivial) (zero_add own).symm fun ticket => ?_
  rw [zero_add]
  refine Program.obeys_invoke (Serves.fetch frame ticket caller) own_eq.ge ?_
  rintro r _ rfl
  cases r with
  | error e => exact failed e
  | ok _ => exact got

theorem obeys_release {frame : Nat} {f : Unit → Code α} (own_eq : own = {lease frame} + z)
    (next : (f ()).Obeys contract post ({hand} + z)) :
    (Leases.release frame >>= f).Obeys contract post own :=
  obeys_swap (.release frame) own_eq fun _ => next

theorem obeys_await (frame ticket : Nat) (caller : Gate.Caller) :
    (Leases.await frame ticket caller).Obeys contract
      (fun r y => y = {if r.isOk then lease frame else hand}) {hand} := by
  refine Program.obeys_perform (Discharges.look frame ticket caller) (add_zero _).le ?_
  rintro answer _ rfl
  rw [add_zero]
  cases answer with
  | granted => exact Program.obeys_done rfl
  | exited => exact Program.obeys_done rfl
  | cancelled => exact Program.obeys_done rfl
  | waiting =>
    refine Program.obeys_invoke (Serves.fetch frame ticket caller) (add_zero _).le ?_
    rintro r _ rfl
    exact Program.obeys_done (add_zero _)

end Leases

namespace Aborting

/-- The abort is announced, and the phase set back unless a command will do so. -/
theorem turns_warn (before : Phase) : Turns {alarm before} {able} (do
    Code.broker (.notify (.progress .aborted false))
    if before ≠ .running then
      let _ : Bool ← Code.broker (.setPhase .ready)) := by
  refine obeys_swap (.warn before false) (add_zero _).symm fun _ => ?_
  rw [add_zero]
  by_cases runs : before = .running
  · rw [if_neg (not_not.mpr runs), announced, if_pos runs]
    exact turns_done
  · rw [if_pos runs, announced, if_neg runs]
    exact obeys_swap .setBack (add_zero _).symm fun _ => turns_done

theorem turns_abort (debug : Bool) : Turns {able} {able} (Aborting.abort debug) := by
  refine Program.obeys_perform (Discharges.abort debug) (add_zero _).le ?_
  rintro begun _ rfl
  rw [add_zero]
  rcases begun with _ | ⟨before, debugger⟩
  · exact turns_done
  · refine obeys_calm (by simp) fun e => ?_
    cases debugger with
    | false => exact obeys_calm (by simp) fun _ => turns_warn before
    | true =>
      refine obeys_calm (by simp) fun _ => obeys_calm (by simp) fun _ => ?_
      exact obeys_calm (by simp) fun _ => turns_warn before

theorem turns_dispose : Turns {able} {able} Aborting.dispose := by
  refine obeys_calm (by simp) fun phase => ?_
  split
  · exact turns_done
  · refine (turns_abort true).then (add_zero _).symm fun _ => ?_
    rw [add_zero]
    refine turns_calm ?_
    refine Program.within_bind (by simp) fun live => Program.within_bind (by simp) fun served => ?_
    simp

end Aborting

namespace Running

variable {frame : FrameRef} {e : EngineName} {q : Request} {route : Route}

theorem turns_begin : Turns {fresh} {running} Running.begin :=
  obeys_swap .begin (add_zero _).symm fun _ => turns_swap (.announce false)

theorem obeys_finish {progress : Progress} {hadErrors : Bool} (hp : progress ≠ .running) :
    (Running.finish progress hadErrors).Obeys contract (fun _ got => IsOver got) {running} := by
  refine Program.obeys_perform Discharges.end (add_zero _).le ?_
  rintro before _ rfl
  rw [add_zero]
  split
  · next aborting =>
    subst aborting
    exact obeys_swap .silent (add_zero _).symm fun _ => Program.obeys_done (.inl (add_zero _))
  · next alive =>
    split
    · next disposed => exact Program.obeys_done (.inr (by rw [disposed]))
    · next live =>
      split
      · next stopped =>
        subst stopped
        refine Program.obeys_perform (Discharges.ask alive live) (add_zero _).le ?_
        rintro known _ rfl
        rw [add_zero]
        cases known with
        | true => exact Program.obeys_done (.inl rfl)
        | false => exact (turns_swap (.speak hadErrors)).imp fun _ _ e => .inl e
      · next outcome => exact (turns_swap (.tell hadErrors hp outcome alive live)).imp fun _ _ e => .inl e

theorem turns_send : Turns atWork atWork (Running.send frame e q route) := by
  unfold Running.send
  split
  · refine (Engines.turns_atPrompt q.command).then (add_zero _).symm fun r => ?_
    rw [add_zero]
    refine turns_calm ?_
    cases r with
    | error f => simp
    | ok reply =>
      simp only []
      split <;> simp
  · exact Engines.turns_through _ _ _

/-- A verdict is about a command that has ended. -/
theorem progress_ofResult (r : Except EngineFailure Invocation) :
    (Verdict.ofResult r).progress ≠ .running := by
  rcases r with (_ | _ | _) | i
  case ok =>
    simp only [Verdict.ofResult]
    split <;> simp
  all_goals simp [Verdict.ofResult]

theorem obeys_conclude {v : Verdict} (hp : v.progress ≠ .running) :
    (Running.conclude frame e q route v).Obeys contract (fun _ got => IsDone got)
      ({running} + ({able} + {hand})) := by
  have finished : ∀ r : Response, (do
      Running.finish v.progress v.outcome.hadErrors
      return r).Obeys contract (fun _ got => IsDone got) ({running} + ({able} + {hand})) := by
    intro r
    refine (obeys_finish hp).bind le_rfl fun _ x hx => ?_
    exact Program.obeys_done ⟨x, hx, rfl⟩
  refine obeys_calm (by simp) fun availability => ?_
  split
  · exact obeys_calm (by simp) fun _ => finished v.response
  · refine (Aborting.turns_abort false).then (z := {running} + {hand}) (by abel) fun _ => ?_
    refine obeys_calm (by simp) fun _ => ?_
    rw [add_left_comm]
    exact finished _

theorem obeys_run : (Running.run frame e q route).Obeys contract (fun _ got => IsDone got)
    ({fresh} + ({able} + {hand})) := by
  refine turns_begin.then rfl fun _ => ?_
  have rest : ∀ r : Except EngineFailure Invocation, (do
      Running.present q (Verdict.ofResult r)
      Running.conclude frame e q route (Verdict.ofResult r)).Obeys contract
        (fun _ got => IsDone got) ({running} + ({able} + {hand})) :=
    fun r => obeys_calm (by simp) fun _ => obeys_conclude (progress_ofResult r)
  have sent : (do
      let r ← Running.send frame e q route
      Running.present q (Verdict.ofResult r)
      Running.conclude frame e q route (Verdict.ofResult r)).Obeys contract
        (fun _ got => IsDone got) ({running} + ({able} + {hand})) := by
    have swapped : {running} + ({able} + {hand}) = atWork + {able} := by
      unfold atWork
      abel
    refine turns_send.then swapped fun r => ?_
    rw [← swapped]
    exact rest r
  split
  · exact obeys_calm (by simp) fun _ => sent
  · exact sent

end Running

namespace Debugging

variable {frame : FrameRef} {e : EngineName}

theorem turns_probeStop (session : Session) :
    Turns {hand} {hand} (Debugging.probeStop frame session) := by
  refine Leases.obeys_acquire (add_zero _).symm (fun e => ?_) ?_
  · exact Program.obeys_done (add_zero _)
  · refine obeys_calm (by simp) fun _ => ?_
    exact (turns_swap (.release frame.id)).mono (add_zero _).ge

/-- A command that goes on sets the phase again. -/
theorem turns_leaveStop (action : ResumeAction) :
    Turns atWork atWork (Debugging.leaveStop frame action) := by
  refine obeys_calm (by simp) fun _ => obeys_calm (by simp) fun _ => ?_
  split
  · exact turns_calm (by simp)
  · exact obeys_swap .goOn rfl fun _ => turns_calm (by simp)

theorem turns_serviceStop (event : StopEvent) :
    Turns atWork atWork (Debugging.serviceStop event) := by
  refine obeys_calm (by simp) fun _ => obeys_calm (by simp) fun attached => ?_
  refine obeys_calm (by simp) fun _ => obeys_calm (by simp) fun active => ?_
  refine obeys_calm (by simp) fun _ => obeys_calm (by simp) fun session => ?_
  refine obeys_calm (by simp) fun frame => obeys_calm (by simp) fun settings => ?_
  refine obeys_calm (by simp) fun _ => ?_
  have probed : Turns {hand} {hand} (Program.onlyIf settings.probes
      (Debugging.probeStop frame session)) := by
    unfold Program.onlyIf
    split
    · exact turns_probeStop session
    · exact turns_done
  refine probed.then (add_comm _ _) fun _ => ?_
  rw [add_comm]
  refine obeys_calm (by simp) fun exited => obeys_calm (by simp) fun _ => ?_
  refine obeys_calm (by simp) fun action => ?_
  exact (turns_leaveStop action).then (add_zero _).symm fun _ => Program.obeys_done (add_zero _)

theorem turns_stopped (hooks : Hooks) (event : StopEvent) :
    Turns atWork atWork (Debugging.stopped hooks e event) := by
  cases hooks with
  | plans => exact Engines.turns_playStop event
  | broker =>
    refine obeys_calm (by simp) fun alive => ?_
    split
    · exact turns_done
    · refine (turns_serviceStop event).then (add_zero _).symm fun action => ?_
      rw [add_zero]
      exact turns_calm (by simp)

end Debugging

namespace Routing

theorem turns_leased (frame : FrameRef) (q : Request) (route : Route) (token : Option Token) :
    Turns {hand} {hand} (Routing.leased frame q route token) := by
  refine obeys_calm (by simp) fun e => ?_
  refine Leases.obeys_acquire (add_zero _).symm (fun e => ?_) ?_
  · exact Program.obeys_done (add_zero _)
  · refine Program.obeys_invoke (Serves.command frame e q route) (zero_add _).le fun r _ _ => ?_
    refine Leases.obeys_release (zero_add _) ?_
    exact Program.obeys_done (add_zero _)

theorem turns_attempt (frame : FrameRef) (q : Request) (token : Option Token) (route : Route) :
    Turns {hand} {hand} (Routing.attempt frame q token route) := by
  cases route with
  | idle =>
    refine obeys_calm (by simp) fun r => ?_
    cases r with
    | none => exact turns_leased frame q .direct token
    | some r => exact turns_done
  | mailbox => exact turns_calm (by simp [Routing.attempt])
  | prompt => exact turns_leased frame q .prompt token
  | direct => exact turns_leased frame q .direct token

theorem turns_route (q : Request) (token : Option Token) :
    Turns {hand} {hand} (Routing.route q token) := by
  refine obeys_calm (by simp) fun frame => obeys_calm (by simp) fun around => ?_
  refine (turns_attempt frame q token _).then (add_zero _).symm fun r => ?_
  rw [add_zero]
  split
  · refine obeys_calm (by simp) fun phase => ?_
    split
    · exact turns_done
    · exact turns_lend (.lent (by simp [lent]))
  · exact turns_done

theorem turns_execute (q : Request) (token : Option Token) :
    Turns {hand} {hand} (Routing.execute q token) := by
  refine obeys_calm (by simp) fun phase => ?_
  split
  · exact turns_done
  · refine obeys_calm (by simp) fun _ => obeys_calm (by simp) fun _ => ?_
    refine obeys_lend (.lent (by simp [lent])) (add_zero _).symm fun r => ?_
    rw [add_zero]
    exact turns_calm (by simp)

theorem turns_submit (c : Command) (o : RequestOptions) (token : Option Token) :
    Turns {hand} {hand} (Routing.submit c o token) :=
  obeys_calm (by simp) fun _ => turns_lend (.lent (by simp [lent]))

theorem turns_serve (frame : FrameRef) (ticket : Nat) (q : Request) :
    Turns {hand} {hand} (Routing.serve frame ticket q) := by
  refine obeys_calm (by simp) fun e => ?_
  refine Leases.obeys_acquire (add_zero _).symm (fun e => ?_) ?_
  · rw [add_zero]
    exact turns_calm (by simp)
  · refine obeys_calm (by simp) fun around => ?_
    refine Program.obeys_invoke (Serves.command frame e q _) (zero_add _).le fun r _ _ => ?_
    refine Leases.obeys_release (zero_add _) ?_
    rw [add_zero]
    exact turns_calm (by simp)

end Routing

namespace Reading

theorem turns_readLine (token : Option Token) : Turns {hand} {hand} (Reading.readLine token) := by
  refine obeys_calm (by simp) fun phase => ?_
  split
  · exact turns_done
  · refine obeys_calm (by simp) fun frame => ?_
    refine Leases.obeys_acquire (add_zero _).symm (fun e => ?_) ?_
    · exact Program.obeys_done (add_zero _)
    · refine obeys_lend (.calm trivial) (zero_add _).symm fun line => ?_
      refine Leases.obeys_release (zero_add _) ?_
      exact Program.obeys_done (add_zero _)

theorem turns_onPipeline (n : Nat) : Turns {hand} {hand} (Reading.onPipeline n) := by
  refine obeys_calm (by simp) fun phase => ?_
  split
  · exact turns_done
  · refine obeys_calm (by simp) fun behind => ?_
    cases behind with
    | some v => exact turns_done
    | none =>
      refine obeys_calm (by simp) fun taken => ?_
      cases taken with
      | none => exact turns_done
      | some v =>
        refine obeys_calm (by simp) fun frame => ?_
        refine Leases.obeys_acquire (add_zero _).symm (fun e => ?_) ?_
        · exact Program.obeys_done (add_zero _)
        · refine obeys_lend (.calm trivial) (zero_add _).symm fun v => ?_
          refine Leases.obeys_release (zero_add _) ?_
          exact Program.obeys_done (add_zero _)

end Reading

namespace Shell

theorem turns_debuggerLine (line : String) : Turns {hand} {hand} (Shell.debuggerLine line) := by
  unfold Shell.debuggerLine
  split
  · exact turns_lend (.lent (by simp [lent]))
  · split
    · exact turns_calm (by simp)
    · refine (Routing.turns_submit _ _ _).then (add_zero _).symm fun r => ?_
      rw [add_zero]
      cases r with
      | error f => exact obeys_calm (by simp) fun _ => turns_lend (.lent (by simp [lent]))
      | ok _ => exact turns_lend (.lent (by simp [lent]))

theorem turns_debuggerLoop : Turns {hand} {hand} Shell.debuggerLoop := by
  refine obeys_calm (by simp) fun stop => ?_
  split
  · exact turns_done
  · refine obeys_lend (.lent (by simp [lent])) (add_zero _).symm fun read => ?_
    rw [add_zero]
    rcases read with f | _ | line
    · cases f <;> exact turns_calm (by simp [Shell.debuggerRead])
    · refine obeys_calm (by simp) fun ended => ?_
      split
      · exact turns_calm (by simp)
      · exact turns_lend (.lent (by simp [lent]))
    · exact turns_debuggerLine _

theorem turns_wait (request : String) (position : Nat) :
    Turns {hand} {hand} (Shell.wait request position) := by
  refine obeys_calm (by simp) fun news => ?_
  split
  · refine obeys_calm (by simp) fun _ => obeys_calm (by simp) fun _ => ?_
    refine obeys_lend (.lent (by simp [lent])) (add_zero _).symm fun _ => ?_
    rw [add_zero]
    exact obeys_calm (by simp) fun _ => turns_lend (.lent (by simp [lent]))
  · split
    · exact turns_lend (.lent (by simp [lent]))
    · exact turns_calm (by simp)
    · exact turns_done

theorem turns_loop (position : Nat) : Turns {hand} {hand} (Shell.loop position) := by
  refine obeys_lend (.lent (by simp [lent])) (add_zero _).symm fun read => ?_
  rw [add_zero]
  have again : ∀ position, Turns {hand} {hand} (Code.invoke (.shellLoop position)) :=
    fun position => turns_lend (.lent (by simp [lent]))
  have ends : Turns {hand} {hand} (do
      Code.invoke .dispose
      return (.ok () : Except Failure Unit)) :=
    Program.obeys_invoke Serves.dispose (zero_add _).le fun _ _ _ => Program.obeys_done (zero_add _)
  rcases read with f | _ | line
  · exact turns_done
  · refine obeys_calm (by simp) fun ended => ?_
    split
    · exact ends
    · exact again position
  · simp only []
    split
    · exact again position
    · split
      · exact ends
      · refine obeys_calm (by simp) fun ticket => ?_
        refine Program.obeys_start (Serves.client _ trivial) (zero_add _).le ?_
        refine obeys_lend (.lent (by simp [lent])) (add_zero _).symm fun position => ?_
        exact (again position).mono (add_zero _).ge

end Shell

/-! ### Clients -/

namespace Clients

theorem turns_handle {request : ClientRequest} (call : request.IsCall) :
    Turns (purse request) (purse request) (Clients.handle request) := by
  by_cases calm : request.IsCalm
  · exact turns_calm (Clients.calm_handle calm)
  · cases request
    case execute c o token =>
      refine (Routing.turns_submit c o token).then (add_zero _).symm fun r => ?_
      exact Program.obeys_done (add_zero _)
    case executeBuffered c o buffer =>
      refine (Routing.turns_submit c o none).then (add_zero _).symm fun r => ?_
      cases r <;> exact Program.obeys_done (add_zero _)
    case readLine token =>
      refine obeys_lend (.lent (by simp [lent])) (add_zero _).symm fun r => ?_
      exact Program.obeys_done (add_zero _)
    case onPipeline v =>
      have submitted : Turns {hand} {hand} (Reading.submit v) :=
        obeys_calm (by simp) fun action => turns_lend (.lent (by simp [lent]))
      exact submitted.then (add_zero _).symm fun r => Program.obeys_done (add_zero _)
    case abort debug => exact (Aborting.turns_abort debug).then rfl fun _ => turns_done
    case dispose =>
      exact Program.obeys_invoke Serves.dispose (zero_add _).le fun _ _ _ =>
        Program.obeys_done (zero_add _)
    case shell =>
      refine obeys_calm (by simp) fun position => ?_
      refine obeys_lend (.lent (by simp [lent])) (add_zero _).symm fun r => ?_
      exact Program.obeys_done (add_zero _)
    case engineStep e step => exact absurd call calm
    all_goals first | exact call.elim | exact absurd trivial calm

theorem turns_serve (name : String) {request : ClientRequest} (call : request.IsCall) :
    Turns (purse request) (purse request) (Clients.serve name request) := by
  have handled : ∀ f : Report → Code Unit, (∀ report, (f report).Within calmScope) →
      Turns (purse request) (purse request) (Clients.handle request >>= f) := by
    intro f calm
    refine (turns_handle call).then (add_zero _).symm fun report => ?_
    rw [add_zero]
    exact turns_calm (calm report)
  unfold Clients.serve
  split
  · exact obeys_calm (by simp) fun _ => handled _ fun report => by simp
  · exact handled _ fun report => by simp

end Clients

/-! ## All procedures -/

theorem turns_lent (proc : Proc) (some : lent proc ≠ 0) : Turns (lent proc) (lent proc) (body proc) := by
  cases proc
  case invoke e c merge _ => exact Engines.turns_invoke c merge
  case debuggerStopped hooks e event => exact Debugging.turns_stopped hooks event
  case engineStep e step => exact Engines.turns_step step
  case execute q token => exact Routing.turns_execute q token
  case route q token => exact Routing.turns_route q token
  case readLine token => exact Reading.turns_readLine token
  case onPipeline n => exact Reading.turns_onPipeline n
  case shellLoop position => exact Shell.turns_loop position
  case shellWait request position => exact Shell.turns_wait request position
  case shellDebugger => exact Shell.turns_debuggerLoop
  all_goals exact absurd rfl some

/-- Everybody does what he has to do. -/
theorem bodies : contract.Bodies brokerMachine := by
  rintro proc e served
  cases served with
  | command => exact Running.obeys_run
  | mail frame ticket q => exact Routing.turns_serve frame ticket q
  | client name call => exact Clients.turns_serve name call
  | dispose => exact Aborting.turns_dispose
  | fetch frame ticket caller => exact Leases.obeys_await frame ticket caller
  | lent some => exact turns_lent proc some
  | calm calm => exact turns_calm (calm_body calm)

end SessionBroker.Duties
