import SessionBroker.Proofs.Dealings
import SessionBroker.Proofs.Parts
import SessionBroker.Proofs.Quiet
import SessionBroker.Proofs.Requests

/-!
# Sessions that are given up

A command that ends on an unusable engine gives up the current session, whichever that is. While the
current session stays on one engine, the commands that are asked for run on that engine, so each of
them can give up only a session of its own. Nothing of the kind holds once the current session has
changed to another engine.
-/

namespace SessionBroker

namespace IdleQueue

variable {τ : Type}

theorem head_take (q : IdleQueue τ) : q.take.1 = q.tasks.head? := by
  unfold take
  cases h : q.tasks <;> rfl

theorem tasks_take (q : IdleQueue τ) : q.take.2.tasks = q.tasks.tail := by
  unfold take
  cases h : q.tasks <;> simp [h]

end IdleQueue

namespace Losses

/-! ## The contract

Requests are numbered. Those from the number `n` on carry a badge, and whoever has the badge knows
that the current session is on the engine `x`.
-/

/-- The badge of a late request. -/
def badge (n : Nat) (q : Request) : Multiset Unit := if n ≤ q.call then {()} else 0

/-- What a mailbox hands over with a request. -/
def carried (n : Nat) : Mailbox.Next Request → Multiset Unit
  | .request _ q => badge n q
  | .exit _ => 0

/-- If the work is a late command, it is to run on a certain engine. -/
def Bound (n : Nat) (x : EngineName) : IdleWork → Prop
  | .command _ e q => n ≤ q.call → e = x
  | _ => True

/-- A step that has nothing to do with badges. -/
def plain (action : Action) : Use brokerInterface Unit action := ⟨0, fun _ got => got = 0⟩

def uses (n : Nat) (x : EngineName) : (action : Action) → Set (Use brokerInterface Unit action)
  | .broker .ticket => {⟨0, fun (r : Nat) got => got = if n ≤ r then {()} else 0⟩}
  | .sessions .current => {plain (.sessions .current),
      ⟨{()}, fun (s : Session) got => got = {()} ∧ s.engine = x⟩}
  | .frames (.ask _ _ q) => {⟨badge n q, fun _ got => got = badge n q⟩}
  | .frames (.take _) => {⟨0, fun (r : Mailbox.Next Request) got => got = carried n r⟩}
  | .idle (.schedule work) => {u | u = plain (.idle (.schedule work)) ∧ Bound n x work}
  | .idle .take => {⟨0, fun (r : Option IdleTask) got => got = 0 ∧ ∀ t ∈ r, Bound n x t.work⟩}
  | action => {plain action}

/-- One who serves a request takes its badge. -/
def serves (n : Nat) (q : Request) (proc : Proc) : Errand brokerInterface Unit proc :=
  ⟨badge n q, badge n q, 0, fun _ _ => True, fun _ _ => 0⟩

def errands (n : Nat) (x : EngineName) : (proc : Proc) → Set (Errand brokerInterface Unit proc)
  | .runCommand frame e q route =>
    {d | d = Errand.free (I := brokerInterface) (.runCommand frame e q route) ∧ (n ≤ q.call → e = x)}
  | .execute q token => {serves n q (.execute q token)}
  | .route q token => {serves n q (.route q token)}
  | .serve frame ticket q => {serves n q (.serve frame ticket q)}
  | proc => {Errand.free (I := brokerInterface) proc}

/-- Late commands run on one engine. -/
def contract (n : Nat) (x : EngineName) : Contract brokerInterface Unit := ⟨uses n x, errands n x⟩

variable {n : Nat} {x : EngineName}

attribute [local simp] uses errands plain serves Errand.free Bound

instance : (contract n x).scope.Outer where
  acts a quiet := by
    rcases a with ⟨e, op⟩ | op | op | op | op | op
    case frames => cases op <;> first | exact quiet.elim | exact ⟨_, rfl, rfl⟩
    case sessions =>
      cases op
      case current => exact ⟨_, .inl rfl, rfl⟩
      all_goals exact ⟨_, rfl, rfl⟩
    case idle =>
      cases op
      case schedule work => cases work <;> first | exact quiet.elim | exact ⟨_, ⟨rfl, trivial⟩, rfl⟩
      all_goals exact ⟨_, rfl, rfl⟩
    case broker => cases op <;> exact ⟨_, rfl, rfl⟩
    all_goals exact ⟨_, rfl, rfl⟩
  calls p outer := by cases p <;> first | exact outer.elim | exact ⟨_, rfl, rfl⟩
  starts p root := by cases p <;> first | exact root.elim | exact ⟨_, rfl, rfl⟩

@[simp] theorem scope_acts {a : Action} :
    (contract n x).scope.acts a ↔ ∃ u ∈ uses n x a, u.takes = 0 := Iff.rfl

@[simp] theorem scope_calls {p : Proc} :
    (contract n x).scope.calls p ↔ ∃ d ∈ errands n x p, d.price = 0 := Iff.rfl

@[simp] theorem scope_starts {p : Proc} :
    (contract n x).scope.starts p ↔ ∃ d ∈ errands n x p, d.price = 0 := Iff.rfl

/-! ## Bodies -/

variable {α : Type} {own : Multiset Unit} {post : α → Multiset Unit → Prop} {q : Request}

/-- Programs that keep the contract and end with anything. -/
abbrev Fair (n : Nat) (x : EngineName) {α : Type} (p : Code α) : Prop := p.Fair (contract n x)

/-- Programs that have the badge of a request from beginning to end. -/
abbrev Wears (n : Nat) (x : EngineName) (q : Request) {α : Type} (p : Code α) : Prop :=
  p.Obeys (contract n x) (fun _ y => y = badge n q) (badge n q)

theorem wears_of_within {p : Code α} (h : p.Within (contract n x).scope) : Wears n x q p := by
  have kept : (p >>= .done).Obeys (contract n x) (fun _ y => y = badge n q) (badge n q) :=
    h.then fun a => Program.obeys_done rfl
  rwa [show p >>= .done = p from Program.bind_done p] at kept

/-- Whoever has the badge still has it afterwards. -/
theorem wears_then {β : Type} {p : Code β} {f : β → Code α} (h : Wears n x q p)
    (next : ∀ b, (f b).Obeys (contract n x) post (badge n q)) :
    (p >>= f).Obeys (contract n x) post (badge n q) := by
  refine h.bind (add_zero _).le fun b y e => ?_
  rw [e, add_zero]
  exact next b

/-- Whoever has the badge learns which engine it is. -/
theorem obeys_engine {f : EngineName → Code α}
    (next : ∀ e, (n ≤ q.call → e = x) → (f e).Obeys (contract n x) post (badge n q)) :
    (SessionChanges.currentEngine >>= f).Obeys (contract n x) post (badge n q) := by
  by_cases late : n ≤ q.call
  · have here : badge n q = {()} := if_pos late
    refine Program.obeys_perform (z := 0) (.inr rfl) (by rw [here]; exact (add_zero _).le) ?_
    rintro s _ ⟨rfl, engine⟩
    rw [add_zero, ← here]
    exact next _ fun _ => engine
  · refine Program.obeys_perform (z := badge n q) (.inl rfl) (zero_add _).le ?_
    rintro s _ rfl
    rw [zero_add]
    exact next _ fun late' => absurd late' late

theorem obeys_run {frame : FrameRef} {e : EngineName} {route : Route} {f : Response → Code α}
    (right : n ≤ q.call → e = x) (next : ∀ r, (f r).Obeys (contract n x) post own) :
    ((Code.invoke (.runCommand frame e q route) : Code Response) >>= f).Obeys (contract n x) post own := by
  refine Program.obeys_invoke (z := own) ⟨rfl, right⟩ (zero_add own).le fun r y _ => ?_
  exact (next r).mono (zero_add own).ge

theorem wears_leased (frame : FrameRef) (route : Route) (token : Option Token) :
    Wears n x q (Routing.leased frame q route token) := by
  refine obeys_engine fun e right => Program.Within.then (by simp) fun lease => ?_
  cases lease with
  | error f => exact Program.obeys_done rfl
  | ok _ => exact obeys_run right fun r => wears_of_within (by simp [Leases.release])

theorem wears_behindLoop (frame : FrameRef) : Wears n x q (Routing.behindLoop frame q) := by
  refine obeys_engine fun e right => ?_
  refine Program.obeys_perform (z := badge n q) ⟨rfl, right⟩ (zero_add _).le ?_
  rintro promise _ rfl
  rw [zero_add]
  cases promise with
  | none => exact Program.obeys_done rfl
  | some p =>
    refine Program.Within.then (by simp) fun payload => ?_
    rcases payload with _ | _ | _ | _ <;> exact Program.obeys_done rfl

theorem within_answered (frame ticket : Nat) (a : Option (Mailbox.Answer Response)) :
    (Routing.answered frame ticket a).Within (contract n x).scope := by
  cases a <;> simp [Routing.answered]

theorem wears_ask (frame : Nat) : Wears n x q (Routing.ask frame q) := by
  refine Program.Within.then (by simp) fun ticket => ?_
  refine Program.obeys_perform (z := 0) rfl (add_zero _).le ?_
  rintro first _ rfl
  rw [add_zero]
  refine wears_of_within (Program.within_bind (within_answered frame ticket first) fun answer => ?_)
  cases answer <;> simp

theorem wears_byMail (frame : FrameRef) : Wears n x q (Routing.byMail frame q) := by
  refine wears_then (wears_ask frame.id) fun r => ?_
  split
  · exact wears_of_within (by simp)
  · exact Program.obeys_done rfl

theorem wears_attempt (frame : FrameRef) (token : Option Token) (route : Route) :
    Wears n x q (Routing.attempt frame q token route) := by
  cases route with
  | idle =>
    refine wears_then (wears_behindLoop frame) fun r => ?_
    cases r with
    | none => exact wears_leased frame .direct token
    | some r => exact Program.obeys_done rfl
  | mailbox => exact wears_byMail frame
  | prompt => exact wears_leased frame .prompt token
  | direct => exact wears_leased frame .direct token

/-- To hand a request on, one hands its badge in. -/
theorem obeys_serves {proc : Proc} (he : errands n x proc = {serves n q proc})
    {f : proc.Result → Code α} (next : ∀ r, (f r).Obeys (contract n x) post 0) :
    ((Code.invoke proc : Code proc.Result) >>= f).Obeys (contract n x) post (badge n q) := by
  refine Program.obeys_invoke (e := serves n q proc) (z := 0) ?_ (add_zero _).le fun r y _ => ?_
  · show _ ∈ errands n x proc
    rw [he]
    rfl
  · exact next r

theorem obeys_route (token : Option Token) :
    (Routing.route q token).Obeys (contract n x) (fun _ _ => True) (badge n q) := by
  refine Program.Within.then (by simp) fun frame => Program.Within.then (by simp) fun around => ?_
  refine wears_then (wears_attempt frame token _) fun r => ?_
  split
  · refine Program.Within.then (by simp) fun phase => ?_
    split
    · exact Program.obeys_done trivial
    · exact obeys_serves rfl fun r => Program.obeys_done trivial
  · exact Program.obeys_done trivial

theorem obeys_execute (token : Option Token) :
    (Routing.execute q token).Obeys (contract n x) (fun _ _ => True) (badge n q) := by
  refine Program.Within.then (by simp) fun phase => ?_
  split
  · exact Program.obeys_done trivial
  · refine Program.Within.then (by simp) fun _ => Program.Within.then (by simp) fun _ => ?_
    exact obeys_serves rfl fun r => Program.Within.fair (by simp)

theorem obeys_serve (frame : FrameRef) (ticket : Nat) :
    (Routing.serve frame ticket q).Obeys (contract n x) (fun _ _ => True) (badge n q) := by
  refine obeys_engine fun e right => Program.Within.then (by simp) fun lease => ?_
  cases lease with
  | error f => exact Program.Within.obeys (by simp) fun _ => trivial
  | ok _ =>
    refine Program.Within.then (by simp) fun around => obeys_run right fun r => ?_
    exact Program.Within.obeys (by simp [Leases.release]) fun _ => trivial

theorem fair_serveNext (frame : FrameRef) : Fair n x (Routing.serveNext frame) := by
  refine Program.obeys_perform (z := 0) rfl (zero_add 0).le ?_
  rintro next _ rfl
  rw [add_zero]
  cases next with
  | exit action => exact Program.obeys_done trivial
  | request ticket q => exact obeys_serves rfl fun _ => Program.Within.fair (by simp)

theorem within_work {task : IdleTask} (right : Bound n x task.work) :
    (Reading.work task).Within (contract n x).scope := by
  unfold Reading.work
  split
  · next work =>
    rw [work] at right
    simpa using right
  · refine Program.within_bind (by simp) fun taken => ?_
    cases taken <;> simp
  · exact Program.within_bind (by simp) fun _ => by simp

theorem fair_pump : Fair n x Reading.pump := by
  refine Program.obeys_perform (z := 0) rfl (zero_add 0).le ?_
  rintro task _ ⟨rfl, right⟩
  cases task with
  | none => exact Program.obeys_done trivial
  | some t =>
    refine Program.Within.then (by simp) fun _ => ?_
    exact Program.Within.then (within_work (right t rfl)) fun _ => Program.Within.fair (by simp)

theorem fair_submit (c : Command) (o : RequestOptions) (token : Option Token) :
    Fair n x (Routing.submit c o token) := by
  refine Program.obeys_perform (z := 0) rfl (zero_add 0).le ?_
  rintro call _ rfl
  rw [add_zero]
  exact obeys_serves (q := ⟨call, c, o⟩) rfl fun _ => Program.obeys_done trivial

theorem fair_request (frame : Nat) (c : Command) (o : RequestOptions) :
    Fair n x (Clients.handle (.request frame c o)) := by
  refine Program.obeys_perform (z := 0) rfl (zero_add 0).le ?_
  rintro call _ rfl
  rw [add_zero]
  exact wears_then (wears_ask (q := ⟨call, c, o⟩) frame) fun r => Program.obeys_done trivial

theorem within_readLine (token : Option Token) :
    (Reading.readLine token).Within (contract n x).scope := by
  refine Program.within_bind (by simp) fun phase => ?_
  split
  · simp
  · refine Program.within_bind (by simp) fun frame => Program.within_bind (by simp) fun lease => ?_
    cases lease <;> simp [Leases.release]

theorem within_onPipeline (k : Nat) : (Reading.onPipeline k).Within (contract n x).scope := by
  refine Program.within_bind (by simp) fun phase => ?_
  split
  · simp
  · refine Program.within_bind ?_ fun behind => ?_
    · refine Program.within_bind (by simp) fun active => Program.within_bind (by simp) fun busy => ?_
      split
      · simp
      · refine Program.within_bind (by simp) fun promise => ?_
        cases promise with
        | none => simp
        | some p =>
          refine Program.within_bind (by simp) fun payload => ?_
          rcases payload with _ | _ | _ | _ <;> simp
    · cases behind with
      | some v => simp
      | none =>
        refine Program.within_bind (by simp) fun taken => ?_
        cases taken with
        | none => simp
        | some v =>
          refine Program.within_bind (by simp) fun frame => Program.within_bind (by simp) fun lease => ?_
          cases lease <;> simp [Leases.release]

theorem within_probeStop (frame : FrameRef) (session : Session) :
    (Debugging.probeStop frame session).Within (contract n x).scope := by
  refine Program.within_bind (by simp) fun lease => ?_
  cases lease <;> simp [Leases.release]

theorem within_rehearsedNext (frame : Nat) :
    (Rehearsal.next frame).Within (contract n x).scope := by
  refine Program.within_bind (by simp) fun next => ?_
  cases next with
  | exit action => simp
  | request ticket q =>
    refine Program.within_bind (by simp) fun own => Program.within_bind (by simp) fun _ => ?_
    refine Program.within_bind ?_ fun _ => by simp
    cases Rehearsal.Part.ofText q.command.text <;> simp [Rehearsal.play]

theorem fair_enterPrompt : Fair n x Debugging.enterPrompt := by
  refine Program.Within.then (by simp) fun phase => Program.Within.fair ?_
  split <;> simp

theorem obeys_body (proc : Proc) (d : Errand brokerInterface Unit proc) (hd : d ∈ errands n x proc) :
    (body proc).Obeys (contract n x) d.yields d.stock := by
  by_cases quiet : proc.IsQuiet
  · have yields : ∀ r y, d.yields r y := by
      cases proc
      case runCommand =>
        obtain ⟨rfl, -⟩ := hd
        exact fun _ _ => trivial
      case execute | route | serve => exact quiet.elim
      all_goals
        obtain rfl := hd
        exact fun _ _ => trivial
    exact (within_body quiet).obeys fun r => yields r 0
  · cases proc
    case execute q token => obtain rfl := hd; exact obeys_execute token
    case route q token => obtain rfl := hd; exact obeys_route token
    case serve frame ticket q => obtain rfl := hd; exact obeys_serve frame ticket
    all_goals first | exact absurd trivial quiet | obtain rfl := hd
    case debuggerStopped hooks e event =>
      exact Debugging.fair_stopped (fun _ _ => (within_probeStop _ _).fair) hooks e event
    case awaitLease frame ticket caller =>
      refine Program.Within.fair (Program.within_bind (by simp) fun answer => ?_)
      cases answer <;> simp
    case awaitAnswer frame ticket =>
      exact (Program.within_bind (by simp) fun _ => within_answered frame ticket _).fair
    case readLine token => exact (within_readLine token).fair
    case onPipeline k => exact (within_onPipeline k).fair
    case serveNext frame => exact fair_serveNext frame
    case pump => exact fair_pump
    case nestedPrompt frame promise => exact Program.Within.fair (by simp [body, Debugging.promptThread])
    case serveClient name request =>
      exact Clients.fair_serve fair_submit (fun v => Program.Within.fair (by simp [Reading.submit]))
        fair_enterPrompt fair_request name request
    case shellDebugger => exact Shell.fair_debuggerLoop fair_submit
    case rehearsedNext frame => exact (within_rehearsedNext frame).fair
    case rehearsedLoop frame pop => exact Program.Within.fair (by simp [body, Rehearsal.loop])

theorem bodies : (contract n x).Bodies brokerMachine := obeys_body

/-! ## The books

At first no request is late and nobody has a badge. Later on there may be any number of badges, and it
has to be found out with each step whether the current session is on the engine.
-/

/-- What waits for the read loop. -/
def Tasks (n : Nat) (x : EngineName) (w : World) : Prop := ∀ t ∈ w.idle.tasks, Bound n x t.work

/-- No request is late so far. -/
structure Early (n : Nat) (x : EngineName) (w : World) (all : Multiset Unit) : Prop where
  tasks : Tasks n x w
  mail : w.frames.Holds fun q => q.call < n
  badges : all = 0

def early (n : Nat) (x : EngineName) : Books brokerInterface Unit World := fun _ => Early n x

def late (n : Nat) (x : EngineName) : Books brokerInterface Unit World := fun _ w _ => Tasks n x w

variable {w u : World} {flow : Nat} {pick : Bool} {all : Multiset Unit}

theorem tasks_acts {action : Action} {r : action.Reply} {used : Use brokerInterface Unit action}
    (hu : used ∈ uses n x action) (tasks : Tasks n x w)
    (hp : World.perform flow pick action w = some (r, u)) : Tasks n x u := by
  cases action with
  | idle op =>
    cases op
    case setActive active =>
      cases hp
      rw [World.discard_eq]
      cases active with
      | true => exact tasks
      | false => rintro t ⟨⟩
    case schedule work =>
      simp only [World.perform, World.performIdle, IdleQueue.schedule] at hp
      split at hp
      · cases hp
        intro t ht
        rcases List.mem_append.mp ht with old | new
        · exact tasks t old
        · rw [List.mem_singleton.mp new]
          exact hu.2
      · cases hp
        exact tasks
    case take =>
      cases hp
      intro t ht
      have left : w.idle.take.2.tasks = w.idle.tasks.tail := w.idle.tasks_take
      exact tasks t (List.mem_of_mem_tail (left ▸ ht))
    all_goals
      cases hp
      exact tasks
  | _ =>
    intro t ht
    rw [(World.unmoved_perform hp).idle (by rintro _ ⟨⟩)] at ht
    exact tasks t ht

/-- A task that is taken was in the queue. -/
theorem bound_take {task : Option IdleTask} (tasks : Tasks n x w)
    (hp : World.perform flow pick (.idle .take) w = some (task, u)) : ∀ t ∈ task, Bound n x t.work := by
  cases hp
  intro t ht
  have first : w.idle.take.1 = w.idle.tasks.head? := w.idle.head_take
  exact tasks t (List.mem_of_mem_head? (first ▸ ht))

theorem early_acts {action : Action} {r : action.Reply} {used : Use brokerInterface Unit action}
    (hu : used ∈ uses n x action) (before : Early n x w (used.takes + all))
    (hp : World.perform flow pick action w = some (r, u)) (few : u.nextTicket ≤ n) :
    ∃ got, used.gives r got ∧ Early n x u (got + all) := by
  obtain ⟨tasks, mail, none⟩ := before
  have tasks' : Tasks n x u := tasks_acts hu tasks hp
  have free : used.takes = 0 := Multiset.le_zero.mp ((Multiset.le_add_right _ _).trans none.le)
  obtain rfl : all = 0 := Multiset.le_zero.mp ((Multiset.le_add_left _ _).trans none.le)
  have right : ∀ i ticket q, action = .frames (.ask i ticket q) → q.call < n := by
    rintro i ticket q rfl
    obtain rfl := hu
    by_contra late
    rw [show badge n q = {()} from if_pos (not_lt.mp late)] at free
    exact Multiset.singleton_ne_zero _ free
  have mail' : u.frames.Holds fun q => q.call < n := by
    cases action with
    | frames op =>
      obtain ⟨⟨reply, s⟩, hs, e⟩ := Option.map_eq_some_iff.mp hp
      cases e
      exact mail.perform hs fun i ticket q same => right i ticket q (by rw [same])
    | _ =>
      rw [World.frames_perform (by rintro _ ⟨⟩) hp]
      exact mail
  suffices gives : used.gives r 0 from ⟨0, gives, tasks', mail', rfl⟩
  cases action with
  | frames op =>
    cases op
    case ask i ticket q =>
      obtain rfl := hu
      exact free.symm
    case take i =>
      obtain rfl := hu
      obtain ⟨⟨next, s⟩, hs, e⟩ := Option.map_eq_some_iff.mp hp
      cases e
      cases r with
      | exit action => rfl
      | request ticket q => exact (if_neg (not_le.mpr (mail.take hs))).symm
    all_goals
      obtain rfl := hu
      rfl
  | broker op =>
    cases op
    case ticket =>
      obtain rfl := hu
      cases hp
      exact (if_neg (not_le.mpr few)).symm
    all_goals
      obtain rfl := hu
      rfl
  | sessions op =>
    cases op
    case current =>
      rcases hu with rfl | rfl
      · rfl
      · exact absurd free (Multiset.singleton_ne_zero _)
    all_goals
      obtain rfl := hu
      rfl
  | idle op =>
    cases op
    case schedule work =>
      obtain ⟨rfl, -⟩ := hu
      rfl
    case take =>
      obtain rfl := hu
      exact ⟨rfl, bound_take tasks hp⟩
    all_goals
      obtain rfl := hu
      rfl
  | engine e op | host op =>
    obtain rfl := hu
    rfl

theorem late_acts {action : Action} {r : action.Reply} {used : Use brokerInterface Unit action}
    (hu : used ∈ uses n x action) (tasks : Tasks n x w)
    (hp : World.perform flow pick action w = some (r, u)) (here : w.sessions.current.engine = x) :
    ∃ got, used.gives r got := by
  cases action with
  | sessions op =>
    cases op
    case current =>
      rcases hu with rfl | rfl
      · exact ⟨0, rfl⟩
      · cases hp
        exact ⟨{()}, rfl, here⟩
    all_goals
      obtain rfl := hu
      exact ⟨0, rfl⟩
  | idle op =>
    cases op
    case schedule work =>
      obtain ⟨rfl, -⟩ := hu
      exact ⟨0, rfl⟩
    case take =>
      obtain rfl := hu
      exact ⟨0, rfl, bound_take tasks hp⟩
    all_goals
      obtain rfl := hu
      exact ⟨0, rfl⟩
  | frames op | broker op =>
    cases op <;>
      obtain rfl := hu <;>
      exact ⟨_, rfl⟩
  | engine e op | host op =>
    obtain rfl := hu
    exact ⟨0, rfl⟩

/-! ## Plays -/

variable {p : Play} {m : Move} {ms : List Move}

theorem kept_add_stock {proc : Proc} {d : Errand brokerInterface Unit proc}
    (hd : d ∈ errands n x proc) : d.kept + d.stock = d.price ∧ ∀ r y, d.back r y = 0 := by
  cases proc
  case runCommand =>
    obtain ⟨rfl, -⟩ := hd
    exact ⟨rfl, fun _ _ => rfl⟩
  case execute | route | serve =>
    obtain rfl := hd
    exact ⟨zero_add _, fun _ _ => rfl⟩
  all_goals
    obtain rfl := hd
    exact ⟨rfl, fun _ _ => rfl⟩

theorem tasks_apply {change : Outside} (tasks : Tasks n x w) : Tasks n x (change.apply w) := by
  cases change <;> exact tasks

theorem holds_apply {P : Request → Prop} {change : Outside} (mail : w.frames.Holds P) :
    (change.apply w).frames.Holds P := by
  cases change with
  | cancel token => exact mail.grow (FrameStack.grows_map fun _ => rfl)
  | _ => exact mail

theorem keeps_early (keeps : p.Keeps (contract n x) (early n x))
    (few : (p.move m).config.shared.nextTicket ≤ n) : (p.move m).Keeps (contract n x) (early n x) := by
  apply keeps.move bodies
  constructor
  case arrive =>
    rintro name request rfl
    exact ⟨_, rfl, fun all right => ⟨right.tasks, right.mail, by simpa using right.badges⟩⟩
  case outside =>
    rintro change rfl all right
    exact ⟨tasks_apply right.tasks, holds_apply right.mail, right.badges⟩
  case waits =>
    intro flow pick _ _ all right
    exact right
  case step =>
    intro flow pick f d all _ _ right dealt shared
    rw [shared] at few
    have none : all = 0 := right.badges
    cases dealt with
    | act used others hu le hp owned =>
      have none : used.takes + others = 0 := Multiset.le_zero.mp (none ▸ le)
      obtain ⟨got, gives, right⟩ := early_acts hu ⟨right.tasks, right.mail, none⟩ hp few
      exact ⟨got + others, owned got gives, right⟩
    | enter d others _ hd le same owned =>
      refine ⟨_, owned, ?_⟩
      rw [same, (kept_add_stock hd).1]
      exact ⟨right.tasks, right.mail, Multiset.le_zero.mp (none ▸ le)⟩
    | «return» d y others hd yields le same owned =>
      refine ⟨_, owned, ?_⟩
      rw [same, (kept_add_stock hd).2, zero_add]
      exact ⟨right.tasks, right.mail,
        Multiset.le_zero.mp ((Multiset.le_add_left _ _).trans (none ▸ le))⟩

theorem keeps_late (keeps : p.Keeps (contract n x) (late n x))
    (here : p.config.shared.sessions.current.engine = x) :
    (p.move m).Keeps (contract n x) (late n x) := by
  apply keeps.move bodies
  constructor
  case arrive =>
    rintro name request rfl
    exact ⟨_, rfl, fun all right => right⟩
  case outside =>
    rintro change rfl all right
    exact tasks_apply right
  case waits =>
    intro flow pick _ _ all right
    exact right
  case step =>
    intro flow pick f d all _ _ right dealt _
    cases dealt with
    | act used others hu le hp owned =>
      obtain ⟨got, gives⟩ := late_acts hu right hp here
      exact ⟨got + others, owned got gives, tasks_acts hu right hp⟩
    | enter d others _ hd le same owned =>
      refine ⟨_, owned, ?_⟩
      rw [same]
      exact right
    | «return» d y others hd yields le same owned =>
      refine ⟨_, owned, ?_⟩
      rw [same]
      exact right

theorem nextTicket_le (p : Play) (m : Move) :
    p.config.shared.nextTicket ≤ (p.move m).config.shared.nextTicket := by
  cases m with
  | arrive name request => exact le_rfl
  | outside change => cases change <;> exact le_rfl
  | step flow pick =>
    simp only [Play.move]
    split
    · exact le_rfl
    · next d hs =>
      obtain ⟨⟨proc, code, wait⟩, -, hs⟩ := Option.bind_eq_some_iff.mp hs
      cases code with
      | done a => cases wait <;> cases hs <;> exact le_rfl
      | call | fork => cases hs; exact le_rfl
      | act action next =>
        simp only [Machine.stepFlow] at hs
        split at hs
        · cases hs
        · next hp =>
          cases hs
          by_cases ticket : action = .broker .ticket
          · subst ticket
            cases hp
            exact Nat.le_succ _
          · exact ((World.unmoved_perform hp).nextTicket ticket).ge

theorem nextTicket_le_moves (p : Play) (ms : List Move) :
    p.config.shared.nextTicket ≤ (p.moves ms).config.shared.nextTicket :=
  Play.moves_keep (P := fun q => p.config.shared.nextTicket ≤ q.config.shared.nextTicket)
    (fun q m le => le.trans (nextTicket_le q m)) le_rfl ms

theorem early_moves (keeps : p.Keeps (contract n x) (early n x))
    (few : (p.moves ms).config.shared.nextTicket ≤ n) :
    (p.moves ms).Keeps (contract n x) (early n x) := by
  induction ms generalizing p with
  | nil => exact keeps
  | cons m ms ih =>
    have soon : (p.move m).config.shared.nextTicket ≤ n := (nextTicket_le_moves _ ms).trans few
    exact ih (keeps_early keeps soon) few

/-- The current session is on an engine. -/
def On (x : EngineName) (p : Play) : Prop := p.config.shared.sessions.current.engine = x

/-- While the current session stays on one engine, the commands that are asked for run on it. -/
theorem runs_on_steady (settings : BrokerSettings) (endpoints : List (EngineName × Endpoint))
    (main : EngineName) (host : Host) (before after : List Move) (x : EngineName) :
    let p := (Play.new settings endpoints main host).moves before
    p.Along (fun q _ => On x q) after →
      ∀ frame e q route, .runCommand frame e q route ∈ (p.moves after).config.procs →
        p.config.shared.nextTicket ≤ q.call → e = x := by
  intro p steady frame e q route running later
  have fresh : (Play.new settings endpoints main host).Keeps (contract p.config.shared.nextTicket x)
      (early p.config.shared.nextTicket x) := by
    apply Play.keeps_new
    exact ⟨by rintro t ⟨⟩, FrameStack.holds_new, rfl⟩
  have begun : p.Keeps (contract p.config.shared.nextTicket x) (late p.config.shared.nextTicket x) := by
    obtain ⟨numbered, all, owned, right⟩ : p.Keeps (contract p.config.shared.nextTicket x)
      (early p.config.shared.nextTicket x) := early_moves fresh le_rfl
    exact ⟨numbered, all, owned, right.tasks⟩
  obtain ⟨-, all, owned, -⟩ := steady.moves_keep (fun q m here keeps => keeps_late keeps here) begun
  obtain ⟨f, hf, mine⟩ := List.mem_flatMap.mp running
  obtain ⟨d, -, right⟩ := owned.on_errand f hf _ mine
  exact right later

/-- While the current session stays on one engine, the commands that are asked for run on it, so the
session that one of them gives up is its own. -/
theorem gives_up_own_session (settings : BrokerSettings) (endpoints : List (EngineName × Endpoint))
    (main : EngineName) (host : Host) (before after : List Move) (x : EngineName) :
    let p := (Play.new settings endpoints main host).moves before
    let c := (p.moves after).config
    p.Along (fun q _ => On x q) after → On x (p.moves after) →
      ∀ frame e q route, .runCommand frame e q route ∈ c.procs → p.config.shared.nextTicket ≤ q.call →
        ∀ s below, c.shared.sessions.pop? = some (s, below) → s.engine = e := by
  intro p c steady now frame e q route running later s below top
  have right : e = x :=
    runs_on_steady settings endpoints main host before after x steady frame e q route running later
  calc s.engine = c.shared.sessions.current.engine := by rw [SessionStack.pop?_eq_some.mp top]; rfl
    _ = x := now
    _ = e := right.symm

/-! ### A lost engine -/

/-- The engine of a command that is about to give up the current session. -/
def givesUp : Flow brokerInterface → Option EngineName
  | ⟨.runCommand _ e _ _, .act (.sessions .pop) _, _⟩ => some e
  | _ => none

/-- A late command on an engine. -/
def runsLate (n : Nat) (x : EngineName) : Proc → Bool
  | .runCommand _ e q _ => n ≤ q.call && e = x
  | _ => false

/-- Three engines; a command can wait on the second. -/
def threeEndpoints : List (EngineName × Endpoint) :=
  [("main", []), ("second", [("wait", .block)]), ("third", [])].map fun (name, scripts) =>
    (name, ⟨.new ⟨5, 1⟩ ⟨1, "localhost", "host"⟩ scripts, false, none, none⟩)

/-- A broker of the first. -/
abbrev three : Play := .new .standard threeEndpoints "main" .new

def onSecond : List Move :=
  [.arrive "set up" (.setUp "main" true)] ++ turns 0 40
    ++ [.arrive "second" (.pushSession "second" ⟨2, "second", "host"⟩ none none none)] ++ turns 1 20

def wait : List Move :=
  [.arrive "wait" (.execute (.script "wait") .standard none)] ++ turns 2 40

def onThird : List Move :=
  [.arrive "third" (.pushSession "third" ⟨3, "third", "host"⟩ none (some true) none)] ++ turns 3 20

/-- The second engine cannot be used any more, and the command on it stops. -/
def lose (first : Nat) : List Move :=
  [.arrive "mark" (.setAvailability "second" .unavailable)] ++ turns first 20
    ++ [.arrive "stop" (.engineStep "second" .stop)] ++ turns (first + 1) 20 ++ turns 2 8

instance (x : EngineName) (p : Play) : Decidable (On x p) := by
  unfold On
  infer_instance

/-- A command on the second engine gives up the session there. -/
theorem gives_up_lost_session : ∃ frame e q route,
    .runCommand frame e q route ∈ ((three.moves onSecond).moves (wait ++ lose 3)).config.procs ∧
      e = "second" ∧ ∀ s below, ((three.moves onSecond).moves
        (wait ++ lose 3)).config.shared.sessions.pop? = some (s, below) → s.engine = e := by
  have running : ((three.moves onSecond).moves (wait ++ lose 3)).config.procs.any
      (runsLate (three.moves onSecond).config.shared.nextTicket "second") := by decide +kernel
  have steady : (three.moves onSecond).Along (fun q _ => On "second" q) (wait ++ lose 3) := by
    decide +kernel
  have now : On "second" ((three.moves onSecond).moves (wait ++ lose 3)) := by decide +kernel
  have own := gives_up_own_session .standard threeEndpoints "main" .new onSecond (wait ++ lose 3)
    "second" steady now
  -- from here on the broker need not be computed any more
  generalize three.moves onSecond = p at running own ⊢
  obtain ⟨proc, mem, late⟩ := List.any_eq_true.mp running
  cases proc
  case runCommand frame e q route =>
    obtain ⟨late, here⟩ : p.config.shared.nextTicket ≤ q.call ∧ e = "second" := by
      simpa [runsLate] using late
    exact ⟨frame, e, q, route, mem, here, own frame e q route mem late⟩
  all_goals cases late

/-- Where a session on the third engine was pushed meanwhile, the command on the second gives up that
one and closes its engine, which could be used. -/
theorem gives_up_other_session :
    let p := three.moves (onSecond ++ wait ++ onThird ++ lose 4)
    p.config.flows.any (fun f => givesUp f.2 = some "second")
      ∧ On "third" p ∧ (p.config.shared.endpoint? "third").any (·.engine.availability.isUsable)
      ∧ ((p.moves (turns 2 4)).config.shared.endpoint? "third").any (·.engine.closed) := by
  decide +kernel

end Losses

end SessionBroker
