import Mathlib.Algebra.Order.BigOperators.Group.List
import Mathlib.Algebra.Order.Group.Nat
import SessionBroker.Proofs.Calm
import SessionBroker.Proofs.Plays
import SessionBroker.Proofs.Quiet

/-!
# Exclusive access to frames

A lease that is granted is a token of the frame, and commands and read loops keep the token of their
frame while they are under way. A command behind a read loop has no token of its own: it is covered
by the token of the loop, which may be that of another frame.
-/

namespace SessionBroker.Exclusion

/-! ## The contract -/

/-- A lease is got by a look that is granted, and is handed in when it is given back. -/
def use : (action : Action) → Use brokerInterface Nat action
  | .frames (.look i _ _) => ⟨0, fun (r : Gate.Answer) got => got = if r = .granted then {i} else 0⟩
  | .frames (.release i) => ⟨{i}, fun _ got => got = 0⟩
  | _ => ⟨0, fun _ got => got = 0⟩

/-- One who needs a frame's lease as long as he is under way. -/
def needs (proc : Proc) (i : Nat) : Errand brokerInterface Nat proc :=
  ⟨{i}, 0, {i}, fun _ _ => True, fun _ _ => {i}⟩

/-- One who comes back with a frame's lease if all went well. -/
def fetches (frame ticket : Nat) (caller : Gate.Caller) :
    Errand brokerInterface Nat (.awaitLease frame ticket caller) :=
  ⟨0, 0, 0, fun (r : Except Failure Unit) got => got = if r.isOk then {frame} else 0, fun _ got => got⟩

/-- One who needs no lease. -/
def roams (proc : Proc) : Errand brokerInterface Nat proc := Errand.free (I := brokerInterface) proc

/-- Commands and read loops need the lease of their frame, but not commands behind a read loop. -/
def errand : (proc : Proc) → Errand brokerInterface Nat proc
  | .awaitLease frame ticket caller => fetches frame ticket caller
  | .runCommand frame e q .idle => roams (.runCommand frame e q .idle)
  | .runCommand frame e q route => needs (.runCommand frame e q route) frame.id
  | .readLoop frame => needs (.readLoop frame) frame.id
  | proc => roams proc

/-- Who holds which leases. -/
def contract : Contract brokerInterface Nat := ⟨fun a => {use a}, fun p => {errand p}⟩

/-- A frame's token is in circulation at most once, and only while its lease is out. -/
def books : Books brokerInterface Nat World :=
  fun _ w all => ∀ i, all.count i ≤ (w.frames.isOut i).toNat

attribute [local simp] use errand roams needs fetches Errand.free

instance : contract.scope.Outer where
  acts a quiet := by
    refine ⟨use a, rfl, ?_⟩
    rcases a with _ | op | _ | _ | _ | _
    case frames => cases op <;> first | rfl | exact quiet.elim
    all_goals rfl
  calls p outer := ⟨errand p, rfl, by cases p <;> first | rfl | exact outer.elim⟩
  starts p root := ⟨errand p, rfl, by cases p <;> first | rfl | exact root.elim⟩

instance : contract.scope.Calm where
  acts a calm := by
    refine ⟨use a, rfl, ?_⟩
    rcases a with _ | op | _ | _ | _ | _
    case frames => cases op <;> first | rfl | exact calm.elim
    all_goals rfl
  calls p calm := by
    refine ⟨errand p, rfl, ?_⟩
    cases p
    case runCommand => obtain rfl := calm; rfl
    all_goals first | rfl | exact calm.elim
  starts p thread := ⟨errand p, rfl, by cases p <;> first | rfl | exact thread.elim⟩

@[simp] theorem scope_acts {a : Action} : contract.scope.acts a ↔ (use a).takes = 0 := by
  simp [Contract.scope, contract]

@[simp] theorem scope_calls {p : Proc} : contract.scope.calls p ↔ (errand p).price = 0 := by
  simp [Contract.scope, contract]

@[simp] theorem scope_starts {p : Proc} : contract.scope.starts p ↔ (errand p).price = 0 := by
  simp [Contract.scope, contract]

/-! ## The books -/

variable {h : List (Event brokerInterface)} {w u : World} {all : Multiset Nat} {flow : Nat}
  {pick : Bool} {proc : Proc}

theorem books_loses {less : Multiset Nat} (le : less ≤ all) (right : books h w all) :
    books h w less :=
  fun i => (Multiset.count_le_of_le i le).trans (right i)

theorem books_acts {action : Action} {r : action.Reply} (right : books h w ((use action).takes + all))
    (hp : World.perform flow pick action w = some (r, u)) :
    ∃ got, (use action).gives r got ∧ books h u (got + all) := by
  have others : (use action).takes = 0 → (∀ i, u.frames.isOut i = w.frames.isOut i) →
      books h u (0 + all) := by
    intro zero same i
    have before := right i
    rw [zero] at before
    rw [same i]
    exact before
  cases action with
  | frames op =>
    obtain ⟨⟨reply, s⟩, hs, e⟩ := Option.map_eq_some_iff.mp hp
    cases e
    cases op
    case look i ticket caller =>
      obtain ⟨goesOut, stays⟩ := FrameStack.isOut_look hs
      refine ⟨_, rfl, fun j => ?_⟩
      have before := right j
      simp only [use, zero_add] at before
      by_cases mine : r = .granted ∧ j = i
      · obtain ⟨granted, rfl⟩ := mine
        obtain ⟨free, out⟩ := goesOut granted
        rw [free] at before
        have none : all.count j = 0 := Nat.le_zero.mp before
        simp [granted, none, out]
      · have same := stays j fun granted e => mine ⟨granted, e⟩
        have mine' : (if r = .granted then {i} else 0 : Multiset Nat).count j = 0 := by
          split
          · next granted =>
            exact Multiset.count_eq_zero.mpr (by simpa using fun e => mine ⟨granted, e⟩)
          · rfl
        show Multiset.count j (_ + all) ≤ (s.isOut j).toNat
        rw [Multiset.count_add, mine', zero_add, same]
        exact before
    case release i =>
      refine ⟨0, rfl, fun j => ?_⟩
      have before := right j
      show Multiset.count j (0 + all) ≤ (s.isOut j).toNat
      rw [FrameStack.isOut_release hs, zero_add]
      simp only [use, Multiset.count_add] at before
      by_cases mine : j = i
      · subst mine
        rw [Multiset.count_singleton_self] at before
        have most := Bool.toNat_le (w.frames.isOut j)
        omega
      · rw [Multiset.count_singleton, if_neg mine, zero_add] at before
        simpa [mine] using before
    all_goals
      exact ⟨0, rfl, others rfl fun i =>
        FrameStack.isOut_perform (by rintro _ _ _ ⟨⟩) (by rintro _ ⟨⟩) hs⟩
  | _ =>
    refine ⟨0, rfl, others rfl fun i => ?_⟩
    rw [World.frames_perform (by rintro _ ⟨⟩) hp]

theorem kept_add_stock (proc : Proc) : (errand proc).kept + (errand proc).stock = (errand proc).price := by
  cases proc
  case runCommand _ _ _ route => cases route <;> simp
  all_goals simp

theorem back_le (proc : Proc) (r : proc.Result) (y : Multiset Nat) :
    (errand proc).back r y ≤ (errand proc).kept + y := by
  cases proc
  case runCommand _ _ _ route =>
    cases route <;> first | exact Multiset.zero_le _ | exact Multiset.le_add_right _ _
  case readLoop frame => exact Multiset.le_add_right _ _
  case awaitLease frame ticket caller => exact Multiset.le_add_left _ _
  all_goals exact Multiset.zero_le _

/-! ## Bodies -/

/-- A program keeps the contract and ends with what a procedure has to have. -/
abbrev Keeps (proc : Proc) (p : Code proc.Result) : Prop :=
  p.Obeys contract (errand proc).yields (errand proc).stock

variable {α β : Type} {own : Multiset Nat} {post : α → Multiset Nat → Prop}

/-- To fetch a lease one needs nothing, and then has it if all went well. -/
theorem obeys_acquire {frame : Nat} {caller : Gate.Caller} {f : Except Failure Unit → Code α}
    (failed : ∀ e, (f (.error e)).Obeys contract post own)
    (got : (f (.ok ())).Obeys contract post ({frame} + own)) :
    (Leases.acquire frame caller >>= f).Obeys contract post own := by
  refine Program.obeys_perform rfl (zero_add own).le fun ticket none e => ?_
  obtain rfl : none = 0 := e
  refine Program.obeys_invoke rfl (zero_add _).le fun r y hy => ?_
  obtain rfl : y = if Except.isOk r then {frame} else 0 := hy
  show (f r).Obeys contract post ((if Except.isOk r then {frame} else 0) + (0 + own))
  rw [zero_add]
  cases r with
  | error e => simpa [Except.isOk, Except.toBool] using failed e
  | ok _ => exact got

/-- One who has a frame's lease has it still after something that needs it. -/
theorem obeys_needs {proc : Proc} {i : Nat} (he : errand proc = needs proc i)
    {f : proc.Result → Code α} (next : ∀ r, (f r).Obeys contract post ({i} + own)) :
    ((Code.invoke proc : Code proc.Result) >>= f).Obeys contract post ({i} + own) := by
  refine Program.obeys_invoke (e := needs proc i) he.symm le_rfl fun r y hy => ?_
  exact next r

theorem obeys_release {i : Nat} {f : Unit → Code α} (next : (f ()).Obeys contract post own) :
    (Leases.release i >>= f).Obeys contract post ({i} + own) := by
  refine Program.obeys_perform rfl le_rfl fun _ none e => ?_
  obtain rfl : none = 0 := e
  rw [zero_add]
  exact next

theorem keeps_awaitLease (frame ticket : Nat) (caller : Gate.Caller) :
    Keeps (.awaitLease frame ticket caller) (Leases.await frame ticket caller) := by
  refine Program.obeys_perform rfl (zero_add 0).le fun answer got e => ?_
  obtain rfl : got = if answer = .granted then {frame} else 0 := e
  cases answer with
  | granted => exact ⟨{frame}, by simp, rfl⟩
  | exited => exact ⟨0, Multiset.zero_le _, rfl⟩
  | cancelled => exact ⟨0, Multiset.zero_le _, rfl⟩
  | waiting =>
    refine Program.obeys_invoke rfl (zero_add _).le fun r y hy => ⟨y, ?_, hy⟩
    exact Multiset.le_add_right _ _

theorem errand_command {frame : FrameRef} {e : EngineName} {q : Request} {route : Route}
    (leased : route ≠ .idle) :
    errand (.runCommand frame e q route) = needs (.runCommand frame e q route) frame.id := by
  cases route <;> first | rfl | exact absurd rfl leased

/-- Programs that keep the contract and end with anything. -/
abbrev Fair {α : Type} (p : Code α) : Prop := p.Fair contract

theorem fair_under {frame : Nat} {caller : Gate.Caller} {f : Except Failure Unit → Code α}
    (failed : ∀ e, Fair (f (.error e)))
    (got : (f (.ok ())).Obeys contract (fun _ _ => True) ({frame} + 0)) :
    Fair (Leases.acquire frame caller >>= f) :=
  obeys_acquire failed got

theorem fair_leased (frame : FrameRef) (q : Request) {route : Route} (leased : route ≠ .idle)
    (token : Option Token) : Fair (Routing.leased frame q route token) := by
  refine Program.Within.then (by simp) fun e => fair_under (fun _ => Program.Within.fair (by simp)) ?_
  exact obeys_needs (errand_command leased) fun r => obeys_release (Program.Within.fair (by simp))

theorem fair_attempt (frame : FrameRef) (q : Request) (token : Option Token) (route : Route) :
    Fair (Routing.attempt frame q token route) := by
  cases route with
  | idle =>
    refine Program.Within.then (Routing.calm_behindLoop frame q) fun r => ?_
    cases r with
    | none => exact fair_leased frame q (by simp) token
    | some r => exact Program.Within.fair (by simp)
  | mailbox => exact Program.Within.fair (Routing.calm_byMail frame q)
  | prompt => exact fair_leased frame q (by simp) token
  | direct => exact fair_leased frame q (by simp) token

theorem fair_route (q : Request) (token : Option Token) : Fair (Routing.route q token) := by
  refine Program.Within.then (by simp) fun frame => Program.Within.then (by simp) fun around => ?_
  refine (fair_attempt frame q token _).then fun r => Program.Within.fair ?_
  split <;> simp

theorem fair_serve (frame : FrameRef) (ticket : Nat) (q : Request) :
    Fair (Routing.serve frame ticket q) := by
  refine Program.Within.then (by simp) fun e => fair_under (fun _ => Program.Within.fair (by simp)) ?_
  refine Program.Within.then (by simp) fun around => ?_
  refine obeys_needs (errand_command ?_) fun r => obeys_release (Program.Within.fair (by simp))
  split <;> simp

theorem fair_readLine (token : Option Token) : Fair (Reading.readLine token) := by
  refine Program.Within.then (by simp) fun phase => ?_
  split
  · exact Program.Within.fair (by simp)
  · refine Program.Within.then (by simp) fun frame => ?_
    refine fair_under (fun _ => Program.Within.fair (by simp)) ?_
    exact obeys_needs rfl fun line => obeys_release (Program.Within.fair (by simp))

theorem fair_onPipeline (n : Nat) : Fair (Reading.onPipeline n) := by
  refine Program.Within.then (by simp) fun phase => ?_
  split
  · exact Program.Within.fair (by simp)
  · refine Program.Within.then (Reading.calm_valueBehindLoop n) fun behind => ?_
    cases behind with
    | some v => exact Program.Within.fair (by simp)
    | none =>
      refine Program.Within.then (by simp) fun taken => ?_
      cases taken with
      | none => exact Program.Within.fair (by simp)
      | some v =>
        refine Program.Within.then (by simp) fun frame => ?_
        refine fair_under (fun _ => Program.Within.fair (by simp)) ?_
        refine Program.Within.then (by simp) fun v => obeys_release (Program.Within.fair (by simp))

theorem fair_probeStop (frame : FrameRef) (session : Session) :
    Fair (Debugging.probeStop frame session) := by
  refine fair_under (fun _ => Program.Within.fair (by simp)) ?_
  exact Program.Within.then (by simp) fun _ => obeys_release (Program.Within.fair (by simp))

theorem within_execute (q : Request) (token : Option Token) :
    (Routing.execute q token).Within contract.scope := by
  refine Program.within_bind (by simp) fun phase => ?_
  split
  · simp
  · refine Program.within_bind (by simp) fun _ => Program.within_bind (by simp) fun _ => ?_
    refine Program.within_bind (by simp) fun r => Program.within_bind (by simp) fun _ => ?_
    simp

theorem fair_submit (c : Command) (o : RequestOptions) (token : Option Token) :
    Fair (Routing.submit c o token) :=
  Program.Within.fair (by simp [Routing.submit])

theorem fair_submitAction (v : Json.Value) : Fair (Reading.submit v) :=
  Program.Within.fair (by simp [Reading.submit])

theorem fair_request (frame : Nat) (c : Command) (o : RequestOptions) :
    Fair (Clients.handle (.request frame c o)) := by
  exact Program.Within.fair (Clients.calm_handle trivial)

theorem keeps_body (proc : Proc) : Keeps proc (body proc) := by
  by_cases quiet : proc.IsQuiet
  · refine (within_body quiet).obeys fun r => ?_
    cases proc
    case runCommand _ _ _ route => cases route <;> trivial
    case awaitLease => exact quiet.elim
    all_goals trivial
  · cases proc
    case awaitLease frame ticket caller => exact keeps_awaitLease frame ticket caller
    case debuggerStopped hooks e event => exact Debugging.fair_stopped fair_probeStop hooks e event
    case route q token => exact fair_route q token
    case serve frame ticket q => exact fair_serve frame ticket q
    case readLine token => exact fair_readLine token
    case onPipeline n => exact fair_onPipeline n
    case execute q token => exact (within_execute q token).fair
    case serveClient name request =>
      exact Clients.fair_serve fair_submit fair_submitAction
        (Program.Within.fair Debugging.calm_enterPrompt) fair_request name request
    case shellDebugger => exact Shell.fair_debuggerLoop fair_submit
    case serveNext | pump | awaitAnswer | nestedPrompt | rehearsedNext | rehearsedLoop =>
      exact Program.Within.fair (calm_body trivial)
    all_goals exact absurd trivial quiet

theorem balances : contract.Balances brokerMachine books where
  loses := books_loses
  acts := by
    rintro h s t all flow pick action r _ rfl right hp
    exact books_acts right hp
  enters := by
    rintro h s all proc _ rfl right
    rw [kept_add_stock]
    exact right
  returns := by
    rintro h s all proc r y _ rfl - right
    exact books_loses (add_le_add_left (back_le proc r y) all) right
  bodies := by
    rintro proc _ rfl
    exact keeps_body proc

/-! ## Plays -/

theorem keeps_moves (settings : BrokerSettings) (endpoints : List (EngineName × Endpoint))
    (main : EngineName) (host : Host) (ms : List Move) :
    ((Play.new settings endpoints main host).moves ms).Keeps contract books := by
  refine balances.plays (fun name request => ⟨_, rfl, rfl⟩) (fun change h w all right i => ?_)
    (Play.keeps_new fun i => ?_) ms
  · rw [Outside.isOut_apply]
    exact right i
  · exact Nat.zero_le _

/-! ## Commands in flight -/

/-- A command on a frame. -/
def runsOn (i : Nat) : Proc → Bool
  | .runCommand frame .. => frame.id = i
  | _ => false

/-- A command on a frame that runs behind a read loop. -/
def runsBehind (i : Nat) : Proc → Bool
  | .runCommand frame _ _ route => frame.id = i && route = .idle
  | _ => false

/-- A command on a frame that runs under a lease of its own. -/
def runsLeased (i : Nat) : Proc → Bool
  | .runCommand frame _ _ route => frame.id = i && route ≠ .idle
  | _ => false

/-- A read loop of a frame. -/
def readsFor (i : Nat) : Proc → Bool
  | .readLoop frame => frame.id = i
  | _ => false

/-- How many commands are in flight on a frame. -/
def inFlight (c : BrokerConfig) (i : Nat) : Nat := c.procs.countP (runsOn i)

/-- Whatever runs on a frame behind a read loop runs behind a loop of that frame. -/
def OwnLoops (c : BrokerConfig) (i : Nat) : Prop :=
  ∀ p ∈ c.flows, p.2.procs.any (runsBehind i) → p.2.procs.any (readsFor i)

/-- A command runs under a lease of its own or behind a read loop. -/
theorem countP_runsOn (l : List Proc) (i : Nat) :
    l.countP (runsOn i) = l.countP (runsLeased i) + l.countP (runsBehind i) := by
  induction l with
  | nil => rfl
  | cons p rest ih =>
    have here : (runsOn i p).toNat = (runsLeased i p).toNat + (runsBehind i p).toNat := by
      cases p
      case runCommand frame e q route =>
        by_cases on : frame.id = i <;> by_cases idle : route = .idle <;>
          simp [runsOn, runsLeased, runsBehind, on, idle]
      all_goals rfl
    simp only [countP_cons_toNat]
    omega

theorem count_token (i j : Nat) : ({j} : Multiset Nat).count i = (decide (j = i)).toNat := by
  by_cases h : j = i
  · simp [h]
  · simp [h, Ne.symm h]

/-- What commands and read loops of a frame keep are tokens of the frame. -/
theorem count_kept (l : List Proc) (i : Nat) :
    (l.map fun p => (errand p).kept).sum.count i =
      l.countP (runsLeased i) + l.countP (readsFor i) := by
  induction l with
  | nil => rfl
  | cons p rest ih =>
    have here : (errand p).kept.count i = (runsLeased i p).toNat + (readsFor i p).toNat := by
      cases p
      case runCommand frame e q route =>
        cases route <;> simp [runsLeased, readsFor, count_token]
      case readLoop frame => simp [runsLeased, readsFor, count_token]
      all_goals rfl
    rw [List.map_cons, List.sum_cons, Multiset.count_add, ih, here]
    simp only [countP_cons_toNat]
    omega

/-! ## At most one command of a flow runs behind a read loop -/

/-- What may be under way inside a command. -/
def IsInside : Proc → Prop
  | .serve .. => True
  | .runCommand _ _ _ route => route ≠ .idle
  | p => p.IsInner

/-- What a command and those inside it may do. -/
def insideScope : Scope brokerInterface := ⟨fun _ => True, IsInside, fun _ => True⟩

instance : insideScope.Inner where
  acts _ _ := trivial
  calls p inner := by cases p <;> first | exact inner | exact inner.elim
  starts _ _ := trivial

@[simp] theorem insideScope_acts (a : Action) : insideScope.acts a := trivial
@[simp] theorem insideScope_calls {p : Proc} : insideScope.calls p ↔ IsInside p := Iff.rfl
@[simp] theorem insideScope_starts (p : Proc) : insideScope.starts p := trivial

attribute [local simp] IsInside

theorem inside_serve (frame : FrameRef) (ticket : Nat) (q : Request) :
    (Routing.serve frame ticket q).Within insideScope := by
  refine Program.within_bind (by simp) fun e => Program.within_bind (by simp) fun lease => ?_
  cases lease with
  | error f => simp
  | ok _ =>
    refine Program.within_bind (by simp) fun around => ?_
    simp only [Code.invoke, Program.invoke, Program.call_bind, Program.within_call]
    refine ⟨?_, fun r => by simp [Leases.release]⟩
    show (if _ then Route.prompt else .direct) ≠ .idle
    split <;> simp

theorem inside_probeStop (frame : FrameRef) (session : Session) :
    (Debugging.probeStop frame session).Within insideScope := by
  refine Program.within_bind (by simp) fun lease => ?_
  cases lease <;> simp [Leases.release]

theorem inside_serviceStop (event : StopEvent) :
    (Debugging.serviceStop event).Within insideScope := by
  refine Program.within_bind (by simp) fun _ => Program.within_bind (by simp) fun attached => ?_
  refine Program.within_bind (by simp) fun _ => Program.within_bind (by simp) fun active => ?_
  refine Program.within_bind (by simp) fun _ => Program.within_bind (by simp) fun session => ?_
  refine Program.within_bind (by simp) fun frame => Program.within_bind (by simp) fun settings => ?_
  refine Program.within_bind (by simp) fun _ => ?_
  refine Program.within_bind (by simp [inside_probeStop]) fun _ => ?_
  refine Program.within_bind (by simp) fun exited => Program.within_bind (by simp) fun _ => ?_
  exact Program.within_bind (by simp) fun action => Program.within_bind (by simp) fun _ => by simp

/-- Commands, and those inside commands, call only what may be inside a command. -/
def scopeOf : Proc → Scope brokerInterface
  | .runCommand .. | .serve .. | .invoke .. | .debuggerStopped .. | .nestedPromptEntered ..
  | .engineStep .. | .awaitLease .. | .messageLoop _ | .serveNext _ => insideScope
  | _ => .all

theorem within_scopeOf (proc : Proc) : (body proc).Within (scopeOf proc) := by
  cases proc
  case invoke e c merge _ => exact Engines.within_invoke (S := insideScope) c merge
  case nestedPromptEntered hooks e => exact Debugging.within_promptEntered (S := insideScope) hooks
  case engineStep e step => exact Engines.within_step (S := insideScope) step
  case runCommand => exact Running.within_run (S := insideScope)
  case serve frame ticket q => exact inside_serve frame ticket q
  case messageLoop frame => show (Routing.messageLoop frame).Within insideScope; simp [Routing.messageLoop]
  case awaitLease frame ticket caller =>
    show (Leases.await frame ticket caller).Within insideScope
    refine Program.within_bind (by simp) fun answer => ?_
    cases answer <;> simp
  case serveNext frame =>
    show (Routing.serveNext frame).Within insideScope
    refine Program.within_bind (by simp) fun next => ?_
    cases next <;> simp
  case debuggerStopped hooks e event =>
    show (Debugging.stopped hooks e event).Within insideScope
    cases hooks with
    | plans => simp [Debugging.stopped]
    | broker =>
      refine Program.within_bind (by simp) fun alive => ?_
      split
      · simp
      · exact Program.within_bind (inside_serviceStop event) fun action => by simp
  all_goals exact Program.within_all _

/-- If whoever is inside a marked one or inside somebody inside is not marked, at most one is. -/
theorem countP_le_one {α : Type} {R : α → α → Prop} {marked : α → Bool} {K : α → Prop}
    (goesOn : ∀ a b, R a b → K b ∨ marked b → K a) (apart : ∀ a, K a → marked a = false)
    {l : List α} (chain : l.IsChain R) :
    l.countP marked ≤ 1 ∧ (0 < l.countP marked → ∀ a ∈ l.head?, K a ∨ marked a) := by
  induction l with
  | nil => simp
  | cons a rest ih =>
    cases rest with
    | nil => cases h : marked a <;> simp [h]
    | cons b rest =>
      obtain ⟨step, chain⟩ := List.isChain_cons_cons.mp chain
      obtain ⟨most, first⟩ := ih chain
      rw [countP_cons_toNat]
      by_cases some : 0 < (b :: rest).countP marked
      · have here := goesOn a b step (first some b rfl)
        rw [apart a here]
        exact ⟨most, fun _ c hc => .inl (by cases hc; exact here)⟩
      · have none : (b :: rest).countP marked = 0 := by omega
        rw [none]
        refine ⟨by simpa using Bool.toNat_le (marked a), fun h c hc => .inr ?_⟩
        cases hc
        cases h' : marked a
        · simp [h'] at h
        · rfl

theorem countP_runsBehind_le {f : Flow brokerInterface} (keeps : f.KeepsTo scopeOf) (i : Nat) :
    f.procs.countP (runsBehind i) ≤ 1 := by
  refine (countP_le_one (K := IsInside) (fun a b may hb => ?_) (fun a ha => ?_)
    keeps.2.isChain).1
  · cases b <;> first | exact may | (rcases hb with hb | hb <;> first | exact hb.elim | cases hb)
  · cases a
    case runCommand frame e q route => simpa [runsBehind] using fun _ => ha
    all_goals rfl

/-- Whatever happens to a broker, everybody calls only whom he may call. -/
theorem keepsTo_moves (settings : BrokerSettings) (endpoints : List (EngineName × Endpoint))
    (main : EngineName) (host : Host) (ms : List Move) :
    ∀ p ∈ ((Play.new settings endpoints main host).moves ms).config.flows, p.2.KeepsTo scopeOf :=
  Play.keepsTo_moves within_scopeOf (by rintro f ⟨⟩) ms

/-! ## Exclusive access -/

variable {c : BrokerConfig} {i : Nat}

/-- Where commands behind read loops run behind loops of their frames, each of them has a loop. -/
theorem behind_le_reading (own : OwnLoops c i) (keeps : ∀ p ∈ c.flows, p.2.KeepsTo scopeOf) :
    c.procs.countP (runsBehind i) ≤ c.procs.countP (readsFor i) := by
  simp only [Config.procs, List.countP_flatMap]
  refine List.sum_le_sum fun p hp => ?_
  have most := countP_runsBehind_le (keeps p hp) i
  by_cases some : p.2.procs.any (runsBehind i)
  · have reads : 0 < p.2.procs.countP (readsFor i) :=
      List.countP_pos_iff.mpr (by simpa using own p hp some)
    exact most.trans reads
  · have none : p.2.procs.countP (runsBehind i) = 0 :=
      List.countP_eq_zero.mpr (by simpa using some)
    exact none.le.trans (Nat.zero_le _)

/-- Whatever happens to a broker, of the commands that run under a frame's own lease and the read
loops of the frame there is at most one at any moment. Commands behind read loops have no lease of
their own: at most one command is in flight on a frame while they run behind loops of that frame. -/
theorem exclusive_access (settings : BrokerSettings) (endpoints : List (EngineName × Endpoint))
    (main : EngineName) (host : Host) (ms : List Move) (i : Nat) :
    let c := ((Play.new settings endpoints main host).moves ms).config
    c.procs.countP (runsLeased i) + c.procs.countP (readsFor i) ≤ 1 ∧
      (OwnLoops c i → inFlight c i ≤ 1) := by
  intro c
  obtain ⟨all, kept, right⟩ :=
    (keeps_moves settings endpoints main host ms).kept_le (by rintro proc _ rfl; exact le_rfl)
  have leased : c.procs.countP (runsLeased i) + c.procs.countP (readsFor i) ≤ 1 := by
    rw [← count_kept]
    calc _ ≤ all.count i := Multiset.count_le_of_le i kept
      _ ≤ _ := right i
      _ ≤ 1 := Bool.toNat_le _
  refine ⟨leased, fun own => ?_⟩
  have behind := behind_le_reading own (keepsTo_moves settings endpoints main host ms)
  rw [inFlight, countP_runsOn]
  omega

/-! ### A loop of another frame -/

/-- An engine on which two commands can wait. -/
def blockingEngine : Engine :=
  .new ⟨5, 1⟩ ⟨1, "localhost", "host"⟩ [("first", .block), ("second", .block)]

/-- It is reached without a detour. -/
def blockingEndpoints : List (EngineName × Endpoint) := [("main", ⟨blockingEngine, false, none, none⟩)]

/-- A broker of that engine. -/
abbrev blocking : Play := .new .standard blockingEndpoints "main" .new

/-- A line is read at the top level, and a command runs behind that loop. -/
def readAndRun : List Move :=
  [.arrive "set up" (.setUp "main" true)] ++ turns 0 30
    ++ [.arrive "line" (.readLine none)] ++ turns 1 20
    ++ [.arrive "first" (.execute (.script "first") .standard none)] ++ turns 2 30
    ++ [.outside .hostPump] ++ turns 1 30

/-- A nested prompt is entered while a line is read at the top level. One command for the prompt runs
behind the loop of the top level, another one on the thread of the prompt. -/
def promptAndRun : List Move :=
  [.arrive "set up" (.setUp "main" true)] ++ turns 0 30
    ++ [.arrive "line" (.readLine none)] ++ turns 1 20
    ++ [.arrive "prompt" .enterNestedPrompt] ++ turns 2 20 ++ turns 3 10
    ++ [.arrive "first" (.execute (.script "first") .standard none)] ++ turns 4 30
    ++ [.outside .hostPump] ++ turns 1 30
    ++ [.arrive "second" (.execute (.script "second") .interactive none)] ++ turns 5 30
    ++ turns 3 30

instance (c : BrokerConfig) (i : Nat) : Decidable (OwnLoops c i) := by
  unfold OwnLoops
  infer_instance

/-- A command behind the loop of its own frame. -/
theorem exclusive_access_behind_own_loop :
    OwnLoops (blocking.moves readAndRun).config 0
      ∧ inFlight (blocking.moves readAndRun).config 0 = 1 := by
  have own : OwnLoops (blocking.moves readAndRun).config 0 := by decide +kernel
  have most : inFlight (blocking.moves readAndRun).config 0 ≤ 1 :=
    (exclusive_access .standard blockingEndpoints "main" .new readAndRun 0).2 own
  have some : 0 < inFlight (blocking.moves readAndRun).config 0 := by decide +kernel
  exact ⟨own, Nat.le_antisymm most some⟩

/-- A command behind the loop of another frame is in flight together with one on its own frame. -/
theorem two_in_flight : inFlight (blocking.moves promptAndRun).config 1 = 2 := by
  decide +kernel

end SessionBroker.Exclusion
