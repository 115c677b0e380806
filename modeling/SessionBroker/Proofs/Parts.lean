import SessionBroker.Proofs.Ledger

/-!
# Parts of the world

The engines, the stack of sessions and the broker's own state each change by steps of their own kind
and by no others.
-/

namespace SessionBroker

/-! ## Engines -/

/-- Whether an engine is asked to stop. -/
def EngineOp.isStop : EngineOp → Bool
  | .stop => true
  | _ => false

/-- Whether a command is noted as run through an engine. -/
def EngineOp.isArrival : EngineOp → Bool
  | .arrive .. => true
  | _ => false

/-- What an engine counts with a step. -/
structure Endpoint.Counted (op : EngineOp) (p q : Endpoint) : Prop where
  stops : q.engine.tally.stops = p.engine.tally.stops + op.isStop.toNat
  invocations : op ≠ .enter → q.engine.tally.invocations = p.engine.tally.invocations
  registrations : (∀ h, op ≠ .register h) →
    q.engine.tally.registrations = p.engine.tally.registrations

theorem Endpoint.counted_perform {p q : Endpoint} {op : EngineOp} {r : op.Reply}
    (h : p.perform op = some (r, q)) : Counted op p q := by
  cases op
  case enter =>
    simp only [perform, Engine.enter] at h
    split at h
    · next ok =>
      split at ok
      · cases ok
      · cases ok
        cases h
        exact ⟨rfl, fun other => absurd rfl other, fun _ => rfl⟩
    · cases h
      exact ⟨rfl, fun _ => rfl, fun _ => rfl⟩
  case endBlock =>
    obtain ⟨e, he, h⟩ := Option.map_eq_some_iff.mp h
    cases h
    unfold Engine.endBlock? at he
    split at he <;> cases he
    exact ⟨rfl, fun _ => rfl, fun _ => rfl⟩
  case endHold =>
    obtain ⟨e, he, h⟩ := Option.map_eq_some_iff.mp h
    cases h
    unfold Engine.endHold? at he
    split at he <;> cases he
    exact ⟨rfl, fun _ => rfl, fun _ => rfl⟩
  case unregister =>
    cases h
    rcases hooks : p.engine.hooks with _ | hooks <;>
      exact ⟨by simp [map, Engine.unregister, hooks, EngineOp.isStop],
        fun _ => by simp [map, Engine.unregister, hooks],
        fun _ => by simp [map, Engine.unregister, hooks]⟩
  case wish wish =>
    cases h
    split
    · exact ⟨rfl, fun _ => rfl, fun _ => rfl⟩
    · cases wish <;> exact ⟨rfl, fun _ => rfl, fun _ => rfl⟩
  case register hooks =>
    cases h
    exact ⟨rfl, fun _ => rfl, fun other => absurd rfl (other hooks)⟩
  all_goals
    cases h
    exact ⟨rfl, fun _ => rfl, fun _ => rfl⟩

namespace World

variable {w u : World} {flow : Nat} {pick : Bool} {action : Action} {r : action.Reply}

/-! ## What one step leaves alone -/

theorem discard_eq (gone : List IdleTask) :
    gone.foldl (fun w t => w.setPromise t.promise .broken) w =
      { w with promises := breakAll w.promises gone } := by
  induction gone generalizing w with
  | nil => rfl
  | cons t rest ih => exact ih

/-- What the broker's own steps change, apart from promises and the like. -/
structure Standing where
  phase : Phase
  abortReported : Bool
  channel : Channel

def standing (w : World) : Standing := ⟨w.phase, w.abortReported, w.channel⟩

/-- What has not changed between two moments unless a step of its kind was made. -/
structure Unmoved (action : Action) (w u : World) : Prop where
  endpoints : (∀ e op, action ≠ .engine e op) → u.endpoints = w.endpoints
  sessions : (∀ op, action ≠ .sessions op) → u.sessions = w.sessions
  idle : (∀ op, action ≠ .idle op) → u.idle = w.idle
  host : (∀ op, action ≠ .host op) → u.host = w.host
  standing : (∀ op, action ≠ .broker op) → u.standing = w.standing
  nextTicket : action ≠ .broker .ticket → u.nextTicket = w.nextTicket
  availabilityChanges : action ≠ .broker .availabilityChanged → u.availabilityChanges = w.availabilityChanges

theorem unmoved_perform (h : perform flow pick action w = some (r, u)) : Unmoved action w u := by
  cases action with
  | engine name op =>
    simp only [perform, performEngine] at h
    split at h
    · cases h
    · obtain ⟨⟨reply, p⟩, -, h⟩ := Option.map_eq_some_iff.mp h
      have kept : u.sessions = w.sessions ∧ u.idle = w.idle ∧ u.host = w.host ∧ u.standing = w.standing ∧
          u.nextTicket = w.nextTicket ∧ u.availabilityChanges = w.availabilityChanges := by
        cases op <;> cases h <;> exact ⟨rfl, rfl, rfl, rfl, rfl, rfl⟩
      obtain ⟨sessions, idle, host, standing, tickets, changes⟩ := kept
      exact ⟨fun other => absurd rfl (other _ _), fun _ => sessions, fun _ => idle, fun _ => host,
        fun _ => standing, fun _ => tickets, fun _ => changes⟩
  | frames op =>
    obtain ⟨_, -, h⟩ := Option.map_eq_some_iff.mp h
    cases h
    exact ⟨fun _ => rfl, fun _ => rfl, fun _ => rfl, fun _ => rfl, fun _ => rfl, fun _ => rfl, fun _ => rfl⟩
  | host op =>
    obtain ⟨_, -, h⟩ := Option.map_eq_some_iff.mp h
    cases h
    exact ⟨fun _ => rfl, fun _ => rfl, fun _ => rfl, fun other => absurd rfl (other _), fun _ => rfl,
      fun _ => rfl, fun _ => rfl⟩
  | sessions op =>
    have kept : u.endpoints = w.endpoints ∧ u.idle = w.idle ∧ u.host = w.host ∧ u.standing = w.standing ∧
        u.nextTicket = w.nextTicket ∧ u.availabilityChanges = w.availabilityChanges := by
      cases op
      case pop =>
        simp only [perform, performSessions] at h
        split at h <;> cases h <;> exact ⟨rfl, rfl, rfl, rfl, rfl, rfl⟩
      all_goals cases h; exact ⟨rfl, rfl, rfl, rfl, rfl, rfl⟩
    obtain ⟨endpoints, idle, host, standing, tickets, changes⟩ := kept
    exact ⟨fun _ => endpoints, fun other => absurd rfl (other _), fun _ => idle, fun _ => host,
      fun _ => standing, fun _ => tickets, fun _ => changes⟩
  | idle op =>
    have kept : u.endpoints = w.endpoints ∧ u.sessions = w.sessions ∧ u.host = w.host ∧
        u.standing = w.standing ∧ u.nextTicket = w.nextTicket ∧
        u.availabilityChanges = w.availabilityChanges := by
      cases op
      case setActive active =>
        cases h
        rw [discard_eq]
        exact ⟨rfl, rfl, rfl, rfl, rfl, rfl⟩
      case schedule work =>
        simp only [perform, performIdle] at h
        split at h <;> cases h <;> exact ⟨rfl, rfl, rfl, rfl, rfl, rfl⟩
      all_goals cases h; exact ⟨rfl, rfl, rfl, rfl, rfl, rfl⟩
    obtain ⟨endpoints, sessions, host, standing, tickets, changes⟩ := kept
    exact ⟨fun _ => endpoints, fun _ => sessions, fun other => absurd rfl (other _), fun _ => host,
      fun _ => standing, fun _ => tickets, fun _ => changes⟩
  | broker op =>
    have kept : u.endpoints = w.endpoints ∧ u.sessions = w.sessions ∧ u.idle = w.idle ∧ u.host = w.host ∧
        (op ≠ .ticket → u.nextTicket = w.nextTicket) ∧
        (op ≠ .availabilityChanged → u.availabilityChanges = w.availabilityChanges) := by
      cases op
      case beginAbort debug =>
        obtain rfl : (w.beginAbort debug).2 = u := congrArg Prod.snd (Option.some.inj h)
        unfold beginAbort
        split <;> exact ⟨rfl, rfl, rfl, rfl, fun _ => rfl, fun _ => rfl⟩
      case awaitResume | awaitAvailability | upgrade | awaitUnhold | awaitNews | nextPlan | awaitPromise =>
        simp only [perform, performBroker] at h
        split at h <;> cases h <;> exact ⟨rfl, rfl, rfl, rfl, fun _ => rfl, fun _ => rfl⟩
      case ticket =>
        cases h
        exact ⟨rfl, rfl, rfl, rfl, fun other => absurd rfl other, fun _ => rfl⟩
      case availabilityChanged =>
        cases h
        exact ⟨rfl, rfl, rfl, rfl, fun _ => rfl, fun other => absurd rfl other⟩
      all_goals cases h; exact ⟨rfl, rfl, rfl, rfl, fun _ => rfl, fun _ => rfl⟩
    obtain ⟨endpoints, sessions, idle, host, tickets, changes⟩ := kept
    exact ⟨fun _ => endpoints, fun _ => sessions, fun _ => idle, fun _ => host, fun other => absurd rfl (other _),
      fun other => tickets fun same => other (by rw [same]),
      fun other => changes fun same => other (by rw [same])⟩

theorem endpoint?_modifyEndpoint {name : EngineName} (e : EngineName) (f : Endpoint → Endpoint) :
    (w.modifyEndpoint e f).endpoint? name =
      (w.endpoint? name).map fun p => if name = e then f p else p := by
  simp only [endpoint?, modifyEndpoint, List.find?_map, Option.map_map]
  have same : ((fun p : EngineName × Endpoint => decide (p.1 = name)) ∘
      fun p => if p.1 = e then (e, f p.2) else p) = fun p => decide (p.1 = name) := by
    funext p
    by_cases mine : p.1 = e <;> simp [mine]
  rw [same]
  refine Option.map_congr fun p hp => ?_
  have found : p.1 = name := by simpa using List.find?_some hp
  subst found
  by_cases mine : p.1 = e <;> simp [mine]

/-- A step is one on a certain engine, or does nothing to it. -/
theorem endpoint?_perform (h : perform flow pick action w = some (r, u)) (name : EngineName) :
    (∃ op reply p q, action = .engine name op ∧ w.endpoint? name = some p ∧
        p.perform op = some (reply, q) ∧ u.endpoint? name = some q) ∨
      (∀ op, action ≠ .engine name op) ∧ u.endpoint? name = w.endpoint? name := by
  cases action with
  | engine e op =>
    simp only [perform, performEngine] at h
    split at h
    · cases h
    · next p hp =>
      obtain ⟨⟨reply, q⟩, hq, h⟩ := Option.map_eq_some_iff.mp h
      have changed : u.endpoint? name = (w.modifyEndpoint e fun _ => q).endpoint? name := by
        cases op <;> cases h <;> rfl
      rw [changed, endpoint?_modifyEndpoint]
      by_cases mine : name = e
      · subst mine
        exact .inl ⟨op, reply, p, q, rfl, hp, hq, by simp [hp]⟩
      · refine .inr ⟨fun op' same => mine (Action.engine.inj same).1.symm, ?_⟩
        simp [mine]
  | _ =>
    refine .inr ⟨by rintro _ ⟨⟩, ?_⟩
    rw [endpoint?, (unmoved_perform h).endpoints (by rintro _ _ ⟨⟩), endpoint?]

/-- The commands that were run are noted by steps of one kind. -/
theorem engineCalls_perform (other : ∀ e op, action = .engine e op → op.isArrival = false)
    (h : perform flow pick action w = some (r, u)) : u.engineCalls = w.engineCalls := by
  cases action with
  | engine e op =>
    have noArrival := other e op rfl
    simp only [perform, performEngine] at h
    split at h
    · cases h
    · obtain ⟨⟨reply, p⟩, -, h⟩ := Option.map_eq_some_iff.mp h
      cases op
      case arrive => cases noArrival
      all_goals cases h; rfl
  | frames op | host op =>
    obtain ⟨_, -, h⟩ := Option.map_eq_some_iff.mp h
    cases h
    rfl
  | sessions op =>
    cases op
    case pop =>
      simp only [perform, performSessions] at h
      split at h <;> cases h <;> rfl
    all_goals cases h; rfl
  | idle op =>
    cases op
    case setActive active =>
      cases h
      rw [discard_eq]
    case schedule work =>
      simp only [perform, performIdle] at h
      split at h <;> cases h <;> rfl
    all_goals cases h; rfl
  | broker op =>
    cases op
    case beginAbort debug =>
      obtain rfl : (w.beginAbort debug).2 = u := congrArg Prod.snd (Option.some.inj h)
      unfold beginAbort
      split <;> rfl
    case awaitResume | awaitAvailability | upgrade | awaitUnhold | awaitNews | nextPlan | awaitPromise =>
      simp only [perform, performBroker] at h
      split at h <;> cases h <;> rfl
    all_goals cases h; rfl

/-- A step on the frames does nothing else. -/
theorem frames_step {op : FrameOp} {r : op.Reply} (h : perform flow pick (.frames op) w = some (r, u)) :
    w.frames.perform flow w.isCancelled pick op = some (r, u.frames) := by
  obtain ⟨⟨reply, s⟩, hs, e⟩ := Option.map_eq_some_iff.mp h
  cases e
  exact hs

/-! ## The phase -/

/-- The phase after a step. -/
def phaseAfter (p : Phase) : Action → Phase
  | .broker (.setPhase target) => p.toward target
  | .broker .endCommand => p.toward .ready
  | .broker (.beginAbort _) => if p.ignoresAbort || p = .notStarted then p else .aborting
  | _ => p

theorem phase_perform (h : perform flow pick action w = some (r, u)) :
    u.phase = phaseAfter w.phase action := by
  cases action with
  | broker op =>
    cases op
    case beginAbort debug =>
      obtain rfl : (w.beginAbort debug).2 = u := congrArg Prod.snd (Option.some.inj h)
      unfold beginAbort phaseAfter
      split <;> rfl
    case awaitResume | awaitAvailability | upgrade | awaitUnhold | awaitNews | nextPlan | awaitPromise =>
      simp only [perform, performBroker] at h
      split at h <;> cases h <;> rfl
    all_goals cases h; rfl
  | _ => exact congrArg Standing.phase ((unmoved_perform h).standing (by rintro _ ⟨⟩))

/-- An abort is accepted, or nothing happens. -/
theorem beginAbort_perform {debug : Bool} {begun : Option (Phase × Bool)}
    (h : perform flow pick (.broker (.beginAbort debug)) w = some (begun, u)) :
    begun = none ∧ u = w ∨
      begun = some (w.phase, debug && w.frames.containsDebug) ∧ w.phase.ignoresAbort = false ∧
        w.phase ≠ .notStarted ∧ u = { w with
          phase := .aborting
          abortReported := w.abortReported || w.phase = .running || debug && w.frames.containsDebug } := by
  have h : w.beginAbort debug = (begun, u) := Option.some.inj h
  unfold beginAbort at h
  split at h
  · cases h
    exact .inl ⟨rfl, rfl⟩
  · next accepted =>
    cases h
    simp only [Bool.or_eq_true, decide_eq_true_eq, not_or, Bool.not_eq_true] at accepted
    exact .inr ⟨rfl, accepted.1, accepted.2, rfl⟩

/-! ## Sessions and notices -/

/-- The stack of sessions after a step. -/
def sessionsAfter (t : SessionStack) : Action → SessionStack
  | .sessions (.push s) => t.push s
  | .sessions .pop => (t.pop?.map (·.2)).getD t
  | .sessions (.found s) => .ofBottom s
  | _ => t

theorem sessions_perform (h : perform flow pick action w = some (r, u)) :
    u.sessions = sessionsAfter w.sessions action := by
  cases action with
  | sessions op =>
    cases op
    case pop =>
      simp only [perform, performSessions] at h
      split at h <;> next popped => cases h; rw [sessionsAfter, popped]; rfl
    all_goals cases h; rfl
  | _ => exact (unmoved_perform h).sessions (by rintro _ ⟨⟩)

/-- What is sent with a step. -/
def noticesOf : Action → List Notice
  | .broker (.notify n) => [n]
  | _ => []

theorem sent_perform (h : perform flow pick action w = some (r, u)) :
    u.channel.sent = w.channel.sent ++ noticesOf action := by
  cases action with
  | broker op =>
    cases op
    case notify n => cases h; rfl
    case beginAbort debug =>
      obtain rfl : (w.beginAbort debug).2 = u := congrArg Prod.snd (Option.some.inj h)
      unfold beginAbort
      split <;> exact (List.append_nil _).symm
    case awaitResume | awaitAvailability | upgrade | awaitUnhold | awaitNews | nextPlan | awaitPromise =>
      simp only [perform, performBroker] at h
      split at h <;> cases h <;> exact (List.append_nil _).symm
    all_goals cases h; exact (List.append_nil _).symm
  | _ =>
    have same : u.channel = w.channel :=
      congrArg Standing.channel ((unmoved_perform h).standing (by rintro _ ⟨⟩))
    rw [same]
    exact (List.append_nil _).symm

end World

/-! ## Frames -/

namespace FrameStack

variable {s t : FrameStack} {flow : Nat} {isCancelled : Option Token → Bool} {pick : Bool}

@[simp] theorem length_modify (i : Nat) (f : Frame → Frame) :
    (s.modify i f).frames.length = s.frames.length := by
  simp [modify]

@[simp] theorem length_modifyMailbox (i : Nat)
    (f : Mailbox Request Response → Mailbox Request Response) :
    (s.modifyMailbox i f).frames.length = s.frames.length := length_modify i _

@[simp] theorem length_modifyGate (i : Nat) (f : Gate → Gate) :
    (s.modifyGate i f).frames.length = s.frames.length := length_modify i _

/-- No step but one makes a frame. -/
theorem length_perform {op : FrameOp} {r : op.Reply} (push : ∀ kind remote, op ≠ .push kind remote)
    (h : s.perform flow isCancelled pick op = some (r, t)) : t.frames.length = s.frames.length := by
  cases op
  case push kind remote => exact absurd rfl (push kind remote)
  case remove i =>
    obtain rfl : (s.remove i).2 = t := congrArg Prod.snd (Option.some.inj h)
    unfold remove
    split <;> rfl
  case look =>
    simp only [perform] at h
    split at h
    · cases h; rfl
    · split at h <;> cases h
      exact length_modifyGate ..
  case lookMail =>
    simp only [perform] at h
    split at h
    · cases h; rfl
    · split at h <;> cases h
      exact length_modifyMailbox ..
  case ask | tryExit =>
    simp only [perform] at h
    split at h <;> cases h
    · rfl
    · exact length_modifyMailbox ..
  case take =>
    simp only [perform] at h
    split at h
    · cases h; rfl
    · obtain ⟨_, -, h⟩ := Option.map_eq_some_iff.mp h
      cases h
      exact length_modifyMailbox ..
  case awaitExit =>
    simp only [perform] at h
    split at h
    · cases h; rfl
    · obtain ⟨_, -, h⟩ := Option.map_eq_some_iff.mp h
      cases h
      rfl
  case awaitFinish =>
    simp only [perform] at h
    split at h
    · cases h; rfl
    · split at h <;> cases h
      rfl
  case dispose | attach | answer => cases h; exact length_modifyMailbox ..
  case closeGate | release => cases h; exact length_modifyGate ..
  case current | live | hasExited | hasServer | isServer => cases h; rfl

end FrameStack

end SessionBroker
