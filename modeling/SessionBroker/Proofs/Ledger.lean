import SessionBroker.Broker.Action

/-!
# Ledgers

The parts of the world in which something is owned or owed: leases, requests in mailboxes, tasks of
the read loop, promises and actions. Most steps leave all of them alone.
-/

namespace SessionBroker

/-- What the world owns and owes. -/
structure Ledger where
  frames : FrameStack
  tasks : List IdleTask
  promises : List Promise
  actions : List (Option Json.Value)
  /-- The first number that has not been given out. -/
  next : Nat

/-- The ledger of a world. -/
def World.ledger (w : World) : Ledger :=
  ⟨w.frames, w.idle.tasks, w.promises, w.actions, w.nextTicket⟩

/-- Steps that may change a ledger. -/
def Action.Books : Action → Prop
  | .frames _ | .idle (.setActive _) | .idle (.schedule _) | .idle .take | .broker .ticket
  | .broker .promise | .broker (.keep ..) | .broker (.offer _) | .broker (.takeAction _) => True
  | _ => False

namespace World

variable {w u : World} {flow : Nat} {pick : Bool}

theorem ledger_perform {action : Action} {r : action.Reply} (other : ¬action.Books)
    (h : perform flow pick action w = some (r, u)) : u.ledger = w.ledger := by
  cases action with
  | frames op => exact absurd trivial other
  | engine name op =>
    simp only [perform, performEngine] at h
    split at h
    · cases h
    · obtain ⟨⟨reply, p⟩, -, h⟩ := Option.map_eq_some_iff.mp h
      cases op <;> cases h <;> rfl
  | sessions op =>
    cases op
    case pop =>
      simp only [perform, performSessions] at h
      split at h <;> cases h <;> rfl
    all_goals cases h; rfl
  | idle op =>
    cases op
    case setActive | schedule | take => exact absurd trivial other
    all_goals cases h; rfl
  | host op =>
    obtain ⟨_, -, h⟩ := Option.map_eq_some_iff.mp h
    cases h
    rfl
  | broker op =>
    cases op
    case ticket | promise | keep | offer | takeAction => exact absurd trivial other
    case beginAbort debug =>
      obtain rfl : (w.beginAbort debug).2 = u := congrArg Prod.snd (Option.some.inj h)
      unfold beginAbort
      split <;> rfl
    case awaitResume | awaitAvailability | upgrade | awaitUnhold | awaitNews | nextPlan | awaitPromise =>
      simp only [perform, performBroker] at h
      split at h <;> cases h <;> rfl
    all_goals cases h; rfl

/-- Breaks the promises of tasks. -/
def breakAll (promises : List Promise) (gone : List IdleTask) : List Promise :=
  gone.foldl (fun ps t => ps.set t.promise .broken) promises

theorem ledger_discard (gone : List IdleTask) :
    (gone.foldl (fun w t => w.setPromise t.promise .broken) w).ledger =
      { w.ledger with promises := breakAll w.promises gone } := by
  induction gone generalizing w with
  | nil => rfl
  | cons t rest ih => exact ih

theorem frames_perform {action : Action} {r : action.Reply} (other : ∀ op, action ≠ .frames op)
    (h : perform flow pick action w = some (r, u)) : u.frames = w.frames := by
  by_cases books : action.Books
  · cases action with
    | frames op => exact absurd rfl (other op)
    | idle op =>
      cases op
      case setActive active =>
        cases h
        exact congrArg Ledger.frames (ledger_discard _)
      case schedule work =>
        simp only [perform, performIdle] at h
        split at h <;> cases h <;> rfl
      all_goals cases h; rfl
    | broker op => cases op <;> first | exact books.elim | (cases h; rfl)
    | _ => exact books.elim
  · exact congrArg Ledger.frames (ledger_perform books h)

end World

/-! ## Leases that are out -/

/-- Whether the lease of a frame is out. -/
def FrameStack.isOut (s : FrameStack) (i : Nat) : Bool := (s.get? i).any (·.gate.held)

namespace Gate

variable {g h : Gate} {id : Nat} {caller : Caller} {cancelled cancelFirst : Bool}

theorem held_enroll : (g.enroll id caller).held = g.held := by
  unfold enroll
  split <;> rfl

/-- The lease goes out when it is granted, and at no other look. -/
theorem held_look {answer : Answer} (hl : g.look id caller cancelled cancelFirst = (answer, h)) :
    (answer = .granted → g.held = false ∧ h.held = true) ∧
      (answer ≠ .granted → h.held = g.held) := by
  unfold look at hl
  split at hl
  · cases hl
    exact ⟨by simp, fun _ => rfl⟩
  · unfold tryTake at hl
    rw [held_enroll] at hl
    by_cases closed : (g.enroll id caller).closed
    · simp only [closed, if_true] at hl
      cases hl
      exact ⟨by simp, fun _ => held_enroll⟩
    · cases held : g.held
      · simp only [closed, held, if_false, Bool.false_eq_true] at hl
        cases hl
        exact ⟨fun _ => ⟨rfl, rfl⟩, by simp⟩
      · simp only [closed, held, if_false, if_true, Bool.false_eq_true] at hl
        split at hl <;> cases hl <;> exact ⟨by simp, fun _ => held_enroll.trans held⟩

theorem cancelled_look {answer : Answer} (hl : g.look id caller cancelled cancelFirst = (answer, h))
    (gaveUp : answer = .cancelled) : cancelled = true := by
  subst gaveUp
  unfold look at hl
  split at hl
  · next now =>
    simp only [Bool.and_eq_true] at now
    exact now.1.2
  · unfold tryTake at hl
    split at hl
    · next waiting =>
      split at hl
      · assumption
      · cases hl
    · next taken =>
      cases hl
      split at taken
      · cases taken
      · split at taken <;> cases taken

end Gate

namespace FrameStack

variable {s t : FrameStack} {i j flow : Nat} {isCancelled : Option Token → Bool} {pick : Bool}

theorem get?_modify (f : Frame → Frame) :
    (s.modify i f).get? j = (s.get? j).map fun fr => if i = j then f fr else fr :=
  List.getElem?_modify ..

theorem mailbox?_modifyMailbox (f : Mailbox Request Response → Mailbox Request Response) :
    (s.modifyMailbox i f).mailbox? j = if j = i then (s.mailbox? j).map f else s.mailbox? j := by
  simp only [mailbox?, modifyMailbox, get?_modify]
  cases s.get? j with
  | none => simp
  | some fr => by_cases same : i = j <;> simp [same, eq_comm]

theorem isOut_modify {f : Frame → Frame} (keeps : ∀ fr, (f fr).gate.held = fr.gate.held) :
    (s.modify i f).isOut j = s.isOut j := by
  simp only [isOut, get?_modify]
  cases s.get? j with
  | none => rfl
  | some fr => split <;> simp [keeps]

@[simp] theorem isOut_modifyMailbox (f : Mailbox Request Response → Mailbox Request Response) :
    (s.modifyMailbox i f).isOut j = s.isOut j :=
  isOut_modify fun _ => rfl

theorem isOut_modifyGate {f : Gate → Gate} (keeps : ∀ g, (f g).held = g.held) :
    (s.modifyGate i f).isOut j = s.isOut j :=
  isOut_modify fun _ => keeps _

@[simp] theorem isOut_push (kind : FrameKind) (remote : Bool) :
    (s.push kind remote).2.isOut j = s.isOut j := by
  simp only [isOut, get?, push]
  rcases Nat.lt_trichotomy j s.frames.length with h | h | h
  · rw [List.getElem?_append_left h]
  · subst h
    rw [List.getElem?_append_right (Nat.le_refl _), List.getElem?_eq_none (Nat.le_refl _)]
    simp [Frame.new, Gate.new]
  · rw [List.getElem?_eq_none (Nat.le_of_lt h), List.getElem?_eq_none (by simp; omega)]

@[simp] theorem isOut_remove : (s.remove i).2.isOut j = s.isOut j := by
  unfold remove
  split <;> rfl

theorem isOut_look {ticket : Nat} {caller : Gate.Caller} {answer : Gate.Answer}
    (h : s.perform flow isCancelled pick (.look i ticket caller) = some (answer, t)) :
    (answer = .granted → s.isOut i = false ∧ t.isOut i = true) ∧
      ∀ j, (answer = .granted → j ≠ i) → t.isOut j = s.isOut j := by
  simp only [perform] at h
  split at h
  · cases h
    exact ⟨by simp, fun _ _ => rfl⟩
  · next f hf =>
    split at h
    · rcases hl : f.gate.look ticket caller (isCancelled caller.token) pick with ⟨answer, g⟩
      rw [hl] at h
      cases h
      have held := Gate.held_look hl
      refine ⟨fun e => ?_, fun j hj => ?_⟩
      · simpa [isOut, modifyGate, get?_modify, hf] using held.1 e
      · simp only [isOut, modifyGate, get?_modify]
        by_cases same : i = j
        · subst same
          simpa [hf] using held.2 fun e => hj e rfl
        · simp [same]
    · cases h

theorem isOut_release {r : Unit} (h : s.perform flow isCancelled pick (.release i) = some (r, t)) :
    t.isOut j = (s.isOut j && decide (j ≠ i)) := by
  cases h
  simp only [isOut, modifyGate, get?_modify]
  by_cases same : i = j
  · subst same
    cases s.get? i with
    | none => rfl
    | some fr =>
      cases held : fr.gate.held <;>
        simp [Gate.release, held, Gate.wakeFutures, Gate.wakeThreads, Gate.wake, Gate.unlock]
  · cases s.get? j <;> simp [same, Ne.symm same]

/-- Nothing else has to do with the leases that are out. -/
theorem isOut_perform {op : FrameOp} {r : op.Reply} (look : ∀ i ticket caller, op ≠ .look i ticket caller)
    (release : ∀ i, op ≠ .release i) (h : s.perform flow isCancelled pick op = some (r, t)) :
    t.isOut j = s.isOut j := by
  cases op
  case look => exact absurd rfl (look _ _ _)
  case release => exact absurd rfl (release _)
  case closeGate =>
    cases h
    exact isOut_modifyGate fun _ => rfl
  case push => cases h; exact isOut_push ..
  case remove i =>
    obtain rfl : (s.remove i).2 = t := congrArg Prod.snd (Option.some.inj h)
    exact isOut_remove
  case dispose | attach | answer => cases h; exact isOut_modifyMailbox _
  case current | live | hasExited | hasServer | isServer => cases h; rfl
  case ask | tryExit =>
    simp only [perform] at h
    split at h <;> cases h
    · rfl
    · exact isOut_modifyMailbox _
  case lookMail =>
    simp only [perform] at h
    split at h
    · cases h; rfl
    · split at h <;> cases h
      exact isOut_modifyMailbox _
  case take =>
    simp only [perform] at h
    split at h
    · cases h; rfl
    · obtain ⟨_, -, h⟩ := Option.map_eq_some_iff.mp h
      cases h
      exact isOut_modifyMailbox _
  case awaitExit =>
    simp only [perform] at h
    split at h
    · cases h; rfl
    · obtain ⟨_, -, h⟩ := Option.map_eq_some_iff.mp h
      cases h; rfl
  case awaitFinish =>
    simp only [perform] at h
    split at h
    · cases h; rfl
    · split at h <;> cases h
      rfl

end FrameStack

end SessionBroker
