import SessionBroker.Proofs.Accounts.Events

/-!
# How procedures keep their terms

The body of every procedure keeps the contract: nobody runs a request without the right to, nobody
gives up the right and runs the request all the same, and nobody tells a result that is not so.
-/

namespace SessionBroker.Accounts

open Mailbox (Answer Next)
open Program (obeys_done obeys_perform obeys_invoke obeys_start)

variable {α β : Type} {own rest more : Multiset Stake} {post : α → Multiset Stake → Prop}
  {frame : FrameRef} {q : Request} {i t n : Nat}

/-- A program keeps the contract and needs nothing. -/
abbrev Fair {α : Type} (p : Code α) : Prop := p.Fair contract

theorem Ends.imp {unrun unrun' : Response → Prop} {r : Response} (ends : Ends unrun q r own)
    (h : unrun r → unrun' r) : Ends unrun' q r own :=
  Or.imp_right (And.imp_left h) ends

/-! ## Leases -/

theorem keeps_awaitLease (ticket : Nat) (caller : Gate.Caller) :
    (Leases.await i ticket caller).Obeys contract (fun r _ =>
      ∀ e, r = .error e → e = .frameExited ∨ e = .cancelled ∧ caller.token.isSome) 0 := by
  refine obeys_perform rfl (zero_add 0).le fun answer got given => ?_
  obtain ⟨gaveUp, rfl⟩ := given
  cases answer with
  | granted => exact obeys_done (by rintro _ ⟨⟩)
  | exited => exact obeys_done (by rintro _ ⟨⟩; exact .inl rfl)
  | cancelled => exact obeys_done (by rintro _ ⟨⟩; exact .inr ⟨rfl, gaveUp rfl⟩)
  | waiting => exact obeys_invoke rfl (zero_add 0).le fun r y why => obeys_done why

/-- Who gets no lease is told that the frame exited, or gave up himself. -/
theorem obeys_acquire {caller : Gate.Caller} {f : Except Failure Unit → Code α}
    (failed : ∀ e, e = .frameExited ∨ e = .cancelled ∧ caller.token.isSome →
      (f (.error e)).Obeys contract post own)
    (got : (f (.ok ())).Obeys contract post own) :
    (Leases.acquire i caller >>= f).Obeys contract post own := by
  refine obeys_perform (u := ⟨0, fun n got => got = {Stake.fresh n}⟩)
    ⟨_, .inl rfl, rfl⟩ (zero_add own).le fun ticket got' _ => ?_
  refine obeys_invoke (z := own) rfl ?_ fun r y why => ?_
  · exact (zero_add own).le.trans (Multiset.le_add_left _ _)
  · show (f r).Obeys contract post (0 + own)
    rw [zero_add]
    cases r with
    | error e => exact failed e (why e rfl)
    | ok _ => exact got

theorem obeys_release {f : Unit → Code α} (hf : ∀ u, (f u).Obeys contract post own) :
    (Leases.release i >>= f).Obeys contract post own := by
  refine obeys_perform rfl (zero_add own).le fun u got given => ?_
  obtain rfl : got = 0 := given
  rw [zero_add]
  exact hf u

theorem obeys_run {engine : EngineName} {route : Route} {f : Response → Code α} {z : Multiset Stake}
    (le : {.right q} + z ≤ own)
    (next : ∀ r, hasRun r → (f r).Obeys contract post ({.ran q} + z)) :
    ((Code.invoke (.runCommand frame engine q route) : Code Response) >>= f).Obeys contract post own :=
  obeys_invoke rfl le fun r _ run => next r run

/-! ## Running -/

theorem hasRun_response (v : Verdict) : hasRun v.response := by
  unfold Verdict.response
  split <;> rfl

/-- A command that runs ends with its outcome, with a failure of the engine, or with the loss of the
session. -/
theorem keeps_run (engine : EngineName) (route : Route) :
    (Running.run frame engine q route).Obeys contract (fun r _ => hasRun r) 0 := by
  have concluded : ∀ v,
      (Running.conclude frame engine q route v).Obeys contract (fun r _ => hasRun r) 0 := by
    intro v
    refine obeys_then (by simp) fun availability => ?_
    split
    · refine obeys_then (by simp) fun _ => obeys_then (by simp) fun _ => ?_
      exact obeys_done (hasRun_response v)
    · refine obeys_then (by simp) fun _ => obeys_then (by simp) fun _ => ?_
      exact obeys_then (by simp) fun _ => obeys_done rfl
  have sent : (do
      let v := Verdict.ofResult (← Running.send frame engine q route)
      Running.present q v
      Running.conclude frame engine q route v : Code Response).Obeys contract
        (fun r _ => hasRun r) 0 := by
    refine obeys_then (by simp) fun r => obeys_then (by simp) fun _ => ?_
    exact concluded (Verdict.ofResult r)
  refine obeys_then (by simp) fun _ => ?_
  split
  · exact obeys_then (by simp) fun _ => sent
  · exact sent

/-! ## Mail -/

theorem obeys_answered {a : Option (Answer Response)}
    (h : match a with
      | none => own = {.deposit i t q}
      | some a => Told q a own) :
    (Routing.answered i t a).Obeys contract (Told q) own := by
  cases a with
  | some a => exact obeys_done h
  | none =>
    obtain rfl := h
    refine obeys_invoke ⟨q, rfl⟩ (add_zero _).le fun a own told => ?_
    exact obeys_done (by rw [add_zero]; exact told)

theorem keeps_awaitAnswer :
    (Routing.awaitAnswer i t).Obeys contract (Told q) {.deposit i t q} := by
  refine obeys_perform ⟨q, rfl⟩ (add_zero _).le fun a got given => ?_
  rw [add_zero]
  exact obeys_answered given

/-- Who has a request served by another has it run, or gets it back because the frame went away. -/
theorem obeys_ask : (Routing.ask i q).Obeys contract (Ends IsGone q) {.right q} := by
  refine obeys_perform (u := ⟨0, fun n got => got = {Stake.fresh n}⟩)
    ⟨_, .inl rfl, rfl⟩ (zero_add _).le fun ticket got given => ?_
  obtain rfl : got = {.fresh ticket} := given
  refine obeys_perform rfl (add_zero _).le fun first got given => ?_
  have answered : (Routing.answered i ticket first).Obeys contract (Told q) got := by
    cases first with
    | none => exact obeys_answered given
    | some a =>
      obtain ⟨rfl, rfl⟩ := given
      exact obeys_done rfl
  refine answered.bind le_rfl fun a own told => ?_
  rw [add_zero]
  cases a with
  | served r => exact obeys_done told
  | refused => exact obeys_done (.inr ⟨rfl, told⟩)

theorem obeys_byMail : (Routing.byMail frame q).Obeys contract (Ends IsGone q) {.right q} := by
  refine obeys_ask.bind (add_zero _).le fun r own ends => ?_
  rw [add_zero]
  split
  · exact obeys_then (by simp) fun _ => obeys_done ends
  · exact obeys_done ends

/-! ## Routes -/

/-- An attempt to run a request did not get that far. -/
def IsUnrun (r : Response) : Prop := IsGone r ∨ isRest r

theorem obeys_leased (route : Route) (token : Option Token) :
    (Routing.leased frame q route token).Obeys contract (Ends IsUnrun q) {.right q} := by
  refine obeys_then (by simp) fun engine => obeys_acquire (fun f why => ?_) ?_
  · obtain rfl | ⟨rfl, -⟩ := why
    · exact obeys_done (.inr ⟨.inl rfl, rfl⟩)
    · exact obeys_done (.inr ⟨.inr rfl, rfl⟩)
  · refine obeys_run (add_zero _).le fun r run => obeys_release fun _ => ?_
    exact obeys_done (.inl ⟨run, rfl⟩)

/-- A command behind the read loop has been run, or there was no loop to run it. -/
theorem obeys_behindLoop : (Routing.behindLoop frame q).Obeys contract
    (fun r own => r.elim (own = {.right q}) fun r => hasRun r ∧ own = {.ran q}) {.right q} := by
  refine obeys_then (by simp) fun engine => ?_
  refine obeys_perform rfl (add_zero _).le fun promise got given => ?_
  obtain rfl := given
  cases promise with
  | none => exact obeys_done rfl
  | some p =>
    refine obeys_perform (.inr ⟨_, rfl⟩) le_rfl fun payload got given => ?_
    rw [add_zero]
    cases payload with
    | none => exact obeys_done given
    | some payload =>
      cases payload with
      | response r => exact obeys_done given
      | _ => exact given.elim

theorem obeys_attempt (token : Option Token) (route : Route) :
    (Routing.attempt frame q token route).Obeys contract (Ends IsUnrun q) {.right q} := by
  cases route with
  | idle =>
    refine obeys_behindLoop.bind (add_zero _).le fun r own ends => ?_
    rw [add_zero]
    cases r with
    | none =>
      obtain rfl : own = {.right q} := ends
      exact obeys_leased .direct token
    | some r => exact obeys_done (.inl ends)
  | mailbox =>
    exact obeys_byMail.imp fun r own ends => ends.imp .inl
  | prompt => exact obeys_leased .prompt token
  | direct => exact obeys_leased .direct token

/-- A request that could not be run because a frame went away is routed again, unless the broker is at
its end. -/
theorem keeps_route (token : Option Token) :
    (Routing.route q token).Obeys contract (Ends (isRest ·) q) {.right q} := by
  refine obeys_then (by simp) fun frame => obeys_then (by simp) fun around => ?_
  refine (obeys_attempt token _).bind (add_zero _).le fun r own ends => ?_
  rw [add_zero]
  have again : ∀ own, own = {.right q} → (do
      let phase : Phase ← Code.broker .phase
      if phase = .disposed then return .error .disposed
      Code.invoke (.route q token) : Code Response).Obeys contract (Ends (isRest ·) q) own := by
    rintro _ rfl
    refine obeys_then (by simp) fun phase => ?_
    split
    · exact obeys_done (.inr ⟨rfl, rfl⟩)
    · refine obeys_invoke rfl (add_zero _).le fun r own ends => obeys_done ?_
      rw [add_zero]
      exact ends
  split
  · exact again own (ends.resolve_left fun ⟨run, _⟩ => Bool.noConfusion run).2
  · next other =>
    refine obeys_done ?_
    obtain run | ⟨gone | rest, have'⟩ := ends
    · exact .inl run
    · exact absurd gone other
    · exact .inr ⟨rest, have'⟩

theorem keeps_execute (token : Option Token) :
    (Routing.execute q token).Obeys contract (Ends (isRest ·) q) {.right q} := by
  refine obeys_then (by simp) fun phase => ?_
  split
  · exact obeys_done (.inr ⟨rfl, rfl⟩)
  · refine obeys_then (by simp) fun _ => obeys_then (by simp) fun _ => ?_
    refine obeys_invoke rfl (add_zero _).le fun r own ends => ?_
    rw [add_zero]
    refine obeys_then (by simp) fun _ => obeys_done ?_
    exact ends

/-- Each call gets a number of its own. -/
theorem fair_submit (c : Command) (o : RequestOptions) (token : Option Token) :
    Fair (Routing.submit c o token) := by
  refine obeys_perform (u := ⟨0, fun n got => got = {Stake.fresh n}⟩)
    ⟨_, .inl rfl, rfl⟩ (zero_add 0).le fun call got given => ?_
  obtain rfl : got = {.fresh call} := given
  exact obeys_invoke rfl le_rfl fun r own _ =>
    ⟨0, Multiset.zero_le _, trivial⟩

/-! ## Serving -/

/-- The thread that serves a frame runs a request and tells what came of it, or gives it back. -/
theorem keeps_serve : (Routing.serve frame t q).Obeys contract (fun _ _ => True)
    ({.duty frame.id t q} + {.right q}) := by
  have told : ∀ (a : Answer Response) own, Told q a own →
      (Code.frames (.answer frame.id t a) : Code Unit).Obeys contract (fun _ _ => True)
        ({.duty frame.id t q} + own) := fun a own told =>
    obeys_perform (f := Program.done) ⟨q, own, told, rfl⟩ (add_zero _).le
      fun _ _ _ => obeys_done trivial
  refine obeys_then (by simp) fun engine => obeys_acquire (fun f why => ?_) ?_
  · obtain rfl | ⟨-, token⟩ := why
    · exact told _ _ (.inr ⟨rfl, rfl⟩)
    · cases token
  · refine obeys_then (by simp) fun around => ?_
    refine obeys_run (add_comm _ _).le fun r run => obeys_release fun _ => ?_
    rw [add_comm]
    exact told _ _ (.inl ⟨run, rfl⟩)

theorem keeps_serveNext : Fair (Routing.serveNext frame) := by
  refine obeys_perform rfl (zero_add 0).le fun next got given => ?_
  obtain rfl : got = handed frame.id next := given
  cases next with
  | exit action => exact obeys_done trivial
  | request t q =>
    refine obeys_invoke rfl le_rfl fun _ _ _ => ?_
    exact obeys_invoke (z := 0) rfl (Multiset.zero_le _) fun _ _ _ => obeys_done trivial

/-! ## Behind the read loop -/

theorem obeys_keep {p : Nat} {j : Job} {payload : Payload} (gives : Gives j payload own)
    (le : {.owed p j} + own ≤ more) :
    (Code.broker (.keep p payload) : Code Unit).Obeys contract (fun _ _ => True) more :=
  obeys_perform (f := Program.done) ⟨j, own, gives, rfl⟩
    (by rw [add_zero]; exact le) fun _ _ _ => obeys_done trivial

theorem obeys_takeAction {f : Option Json.Value → Code α}
    (gone : (f none).Obeys contract post own)
    (got : ∀ v, (f (some v)).Obeys contract post ({.taken n} + own)) :
    ((Code.broker (.takeAction n) : Code (Option Json.Value)) >>= f).Obeys contract post own := by
  refine obeys_perform rfl (zero_add _).le fun v tokens given => ?_
  obtain rfl := given
  cases v with
  | none => exact gone.mono (Multiset.le_add_left _ _)
  | some v => exact got v

theorem obeys_compute {v : Json.Value} {f : Json.Value → Code α} {z : Multiset Stake}
    (le : {.taken n} + z ≤ own) (next : ∀ v, (f v).Obeys contract post ({.did n} + z)) :
    ((Code.invoke (.compute n v) : Code Json.Value) >>= f).Obeys contract post own :=
  obeys_invoke rfl le fun v _ _ => next v

theorem keeps_work (task : IdleTask) : (Reading.work task).Obeys contract (fun _ _ => True)
    ({.owed task.promise (jobOf task.work)} + price task.work) := by
  obtain ⟨p, work⟩ := task
  cases work with
  | command frame engine q =>
    refine obeys_run (add_comm _ _).le fun r run => obeys_keep (j := .command q) ⟨run, rfl⟩ ?_
    exact (add_comm _ _).le
  | action n =>
    refine obeys_takeAction (obeys_keep (j := .action n) rfl le_rfl) fun v => ?_
    refine obeys_compute le_rfl fun v => obeys_keep (j := .action n) rfl ?_
    exact (add_comm _ _).le
  | rehearsal name inner v =>
    refine obeys_then (by simp) fun _ => obeys_then (by simp) fun _ => ?_
    exact obeys_keep (j := .other) rfl le_rfl

theorem keeps_pump : Fair Reading.pump := by
  refine obeys_perform rfl (zero_add 0).le fun task got given => ?_
  obtain rfl := given
  cases task with
  | none => exact obeys_done trivial
  | some task =>
    refine obeys_then (by simp) fun _ => ?_
    refine (keeps_work task).bind le_rfl fun _ _ _ => ?_
    exact (fair_quiet (by simp)).mono (Multiset.zero_le _)

theorem keeps_promptThread {p : Nat} : (Debugging.promptThread frame p).Obeys contract
    (fun _ _ => True) {.owed p .other} := by
  refine obeys_then (by simp) fun action => obeys_then (by simp) fun _ => ?_
  refine (obeys_keep (j := .other) rfl (add_zero _).le).bind (add_zero _).le fun _ _ _ => ?_
  exact (fair_quiet (by simp)).mono (Multiset.zero_le _)

theorem fair_enterPrompt : Fair Debugging.enterPrompt := by
  refine obeys_then (by simp) fun phase => ?_
  split
  · exact obeys_done trivial
  · refine obeys_then (by simp) fun session => obeys_then (by simp) fun frame => ?_
    refine obeys_perform rfl (zero_add 0).le fun p got given => ?_
    obtain rfl : got = {.owed p .other} := given
    refine obeys_then (by simp) fun _ => obeys_start rfl le_rfl ?_
    exact obeys_then (by simp) fun _ => obeys_done trivial

/-! ## Actions on the pipeline's thread -/

/-- A value that comes from behind the read loop is that of an action that has been run. -/
theorem obeys_valueBehindLoop : (Reading.valueBehindLoop n).Obeys contract
    (fun v own => own = if v.isSome then {.did n} else 0) 0 := by
  refine obeys_then (by simp) fun active => obeys_then (by simp) fun invoking => ?_
  split
  · exact obeys_done rfl
  · refine obeys_perform rfl (zero_add 0).le fun promise got given => ?_
    obtain rfl := given
    cases promise with
    | none => exact obeys_done rfl
    | some p =>
      refine obeys_perform (.inr ⟨_, rfl⟩) le_rfl fun payload got given => ?_
      rw [add_zero]
      cases payload with
      | none => exact obeys_done given
      | some payload =>
        cases payload with
        | value v => exact obeys_done given
        | _ => exact given.elim

theorem keeps_onPipeline : (Reading.onPipeline n).Obeys contract
    (fun r own => r.isOk → own = {.did n}) 0 := by
  have failed : ∀ {e : Failure} {own : Multiset Stake}, (Program.done (.error e) :
      Code (Except Failure (Json.Value × Bool))).Obeys contract
        (fun r own => r.isOk → own = {.did n}) own := obeys_done Bool.noConfusion
  refine obeys_then (by simp) fun phase => ?_
  split
  · exact failed
  · refine obeys_valueBehindLoop.bind (add_zero 0).le fun behind own did => ?_
    rw [add_zero]
    obtain rfl := did
    cases behind with
    | some v => exact obeys_done fun _ => rfl
    | none =>
      refine obeys_takeAction failed fun v => ?_
      refine obeys_then (by simp) fun frame => obeys_acquire (fun f why => failed) ?_
      refine obeys_compute le_rfl fun v => obeys_release fun _ => obeys_done fun _ => ?_
      exact add_zero _

theorem fair_submitAction (v : Json.Value) : Fair (Reading.submit v) := by
  refine obeys_perform rfl (zero_add 0).le fun n got given => ?_
  obtain rfl : got = {.offered n} := given
  exact obeys_invoke rfl le_rfl fun r own _ => ⟨0, Multiset.zero_le _, trivial⟩

/-! ## Others -/

theorem fair_readLine (token : Option Token) : Fair (Reading.readLine token) := by
  refine obeys_then (by simp) fun phase => ?_
  split
  · exact obeys_done trivial
  · refine obeys_then (by simp) fun frame => obeys_acquire (fun _ _ => obeys_done trivial) ?_
    refine obeys_invoke rfl (zero_add 0).le fun line _ _ => obeys_release fun _ => obeys_done trivial

theorem fair_probeStop (session : Session) : Fair (Debugging.probeStop frame session) := by
  refine obeys_acquire (fun _ _ => obeys_done trivial) ?_
  exact obeys_then (by simp) fun _ => obeys_perform rfl (zero_add 0).le fun _ _ _ => obeys_done trivial

theorem fair_request (i : Nat) (c : Command) (o : RequestOptions) :
    Fair (Clients.handle (.request i c o)) := by
  refine obeys_perform (u := ⟨0, fun n got => got = {Stake.right ⟨n, c, o⟩}⟩)
    ⟨_, .inr ⟨c, o, rfl⟩, rfl⟩ (zero_add 0).le fun call got given => ?_
  obtain rfl : got = {.right ⟨call, c, o⟩} := given
  exact obeys_ask.bind le_rfl fun _ _ _ => ⟨0, Multiset.zero_le _, trivial⟩

theorem keeps_body (proc : Proc) (e : Errand brokerInterface Stake proc) (he : e ∈ errands proc) :
    (body proc).Obeys contract e.yields e.stock := by
  by_cases quiet : proc.IsQuiet
  · cases proc
    case runCommand frame engine q route =>
      obtain rfl := he
      exact keeps_run engine route
    all_goals first
      | exact quiet.elim
      | (obtain rfl := he
         exact (within_body (T := contract.scope) quiet).obeys fun _ => trivial)
  · cases proc
    case rehearsedLoop | rehearsedNext => exact he.elim
    case awaitAnswer i t =>
      obtain ⟨q, rfl⟩ := he
      exact keeps_awaitAnswer
    all_goals obtain rfl := he
    case awaitLease i ticket caller => exact keeps_awaitLease ticket caller
    case execute q token => exact keeps_execute token
    case route q token => exact keeps_route token
    case serve frame t q => exact keeps_serve
    case serveNext frame => exact keeps_serveNext
    case nestedPrompt frame p => exact keeps_promptThread
    case pump => exact keeps_pump
    case readLine token => exact fair_readLine token
    case onPipeline n => exact keeps_onPipeline
    case debuggerStopped hooks engine event => exact Debugging.fair_stopped (fun _ => fair_probeStop) hooks engine event
    case serveClient name request =>
      exact Clients.fair_serve fair_submit fair_submitAction fair_enterPrompt fair_request name request
    case shellDebugger => exact Shell.fair_debuggerLoop fair_submit
    all_goals exact absurd trivial quiet

end SessionBroker.Accounts
