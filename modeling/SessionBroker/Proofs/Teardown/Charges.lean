import SessionBroker.Proofs.Lore
import SessionBroker.Proofs.Registration
import SessionBroker.Proofs.Stacks

/-!
# What flows are charged with while the broker is torn down

The flow that disposes a broker tells the frames to exit, waits for them, pops the sessions and gives
up the bottom one; those that serve frames leave them, take them off the stack and tear them down. Each
is charged with something at any time, which says what it has to do next and when it may wait. An
action that replies what cannot be is no flow's business any more: from then on anything goes.
-/

namespace SessionBroker.Teardown

/-- What a flow still has to do with frames. -/
inductive Duty where
  /-- It waits for what is next in the mailbox of a frame. -/
  | waits (frame : Nat)
  /-- It was told to leave a frame, which it has not taken off the stack yet. -/
  | serves (frame : Nat)
  /-- It has taken frames off the stack, which are to be torn down. -/
  | clears (gone : List Nat)
  /-- It has disposed the mailbox of a frame, whose gate is to be closed before the rest is torn down. -/
  | closes (frame : Nat) (rest : List Nat)
  deriving DecidableEq

/-- A step on an engine that a change of the session stack brings about. -/
abbrev Deed := EngineName × EngineOp

/-- What there was when the teardown began. -/
structure Onset extends World where
  /-- The promises of commands that are run behind the read loop, with a client that waits for each. -/
  awaited : List Nat

/-- Whether a client that waits for a command may go away with what it is told: a frame that is gone has
it look for another way. -/
def answers : Payload → Bool
  | .response (.error .frameExited) => false
  | .response _ => true
  | _ => false

/-- How far the flow that disposes the broker has come. -/
structure Reach where
  /-- It has found the broker alive. -/
  looked : Bool
  /-- How many frames it has told to exit, the current one first. -/
  told : Nat
  /-- How many frames had left the stack when it last looked. -/
  lost : Nat
  /-- The frames that it knows to be torn down. -/
  finished : List Nat
  /-- It has found no session to pop. -/
  bare : Bool
  /-- What it still has to do to give up the bottom session, once it has begun to. -/
  ending : Option (List Deed)
  /-- The broker is disposed. -/
  ended : Bool

/-- What a flow is charged with. -/
structure Charge where
  duty : Duty := .clears []
  /-- It has changed the session stack; what remains to be done before the change is told of. -/
  change : Option (List Deed) := none
  /-- How often the availability has changed as far as it knows. -/
  seen : Option Nat := none
  /-- Given only to the flow that disposes the broker. -/
  reach : Option Reach := none

/-- What the flow that disposes the broker begins with. -/
def start : Charge := { reach := some ⟨false, 0, 0, [], false, none, false⟩ }

/-- The frames that are left when one of them is done with. -/
def Duty.rest : Duty → List Nat
  | .clears gone => gone.tail
  | .closes _ rest => rest
  | _ => []

namespace Charge

/-- What is to be done to engines. -/
def deeds (h : Charge) : List Deed := h.change.getD ((h.reach.bind (·.ending)).getD [])

/-- The first of these is done. -/
def proceed (h : Charge) : Charge :=
  match h.change with
  | some todo => { h with change := some todo.tail }
  | none => { h with reach := h.reach.map fun x => { x with ending := x.ending.map List.tail } }

/-- The flow that disposes the broker gets further. -/
def advance (h : Charge) (f : Reach → Reach) : Charge := { h with reach := h.reach.map f }

theorem advance_of_none {h : Charge} (none : h.reach = none) (f : Reach → Reach) : h.advance f = h := by
  obtain ⟨duty, change, seen, reach⟩ := h
  obtain rfl : reach = .none := none
  rfl

/-- Nothing is left to be done, neither to frames nor to sessions. -/
def IsFree (h : Charge) : Prop := h.duty = .clears [] ∧ h.change = none

end Charge

/-- Whether a step is one that changes of the session stack bring about. -/
def isDeed : EngineOp → Bool
  | .register _ | .unregister | .close => true
  | _ => false

/-- Whether a step on an engine may have to wait though the engine is there. -/
def mayWait : EngineOp → Bool
  | .endBlock | .endHold => true
  | _ => false

/-- What is to be done to engines once a session is popped and another one is current. -/
def popDeeds (s now : Session) : List Deed :=
  (if s.ownsHooks then
    (s.engine, .unregister) :: if now.ownsHooks then [(now.engine, .register .broker)] else []
    else []) ++
  if s.ownsEngine then [(s.engine, .close)] else []

/-- What is to be done to the engine of the bottom session at last. -/
def lastDeeds (s : Session) : List Deed :=
  (if s.ownsHooks then [(s.engine, .unregister)] else []) ++
  if s.ownsEngine then [(s.engine, .close)] else []

section

/-! ## The lore

It refers to the world in which the teardown began.
-/

variable (old : Onset)

/-- Whether an engine is there. -/
def known (e : EngineName) : Bool := (old.endpoint? e).isSome

/-- What is known of the frames on the stack once the first ones have left it. -/
def refs (k : Nat) : List FrameRef := (old.frames.live.drop k).map old.frames.ref

/-- The frame with a number is among the first that are told to exit. -/
def Among (n i : Nat) : Prop := ∃ j < n, old.frames.above[j]? = some i

/-- Which steps on frames a flow may make. -/
def mayFrames (h : Charge) : FrameOp → Prop
  | .take i => h = { duty := .waits i }
  | .remove i => h.duty = .serves i
  | .dispose i => ∃ rest, h.duty = .clears (i :: rest)
  | .closeGate i => ∃ rest, h.duty = .closes i rest
  | .release _ => True
  | .live => h.reach.isSome
  | .tryExit i action => ∃ x, h.reach = some x ∧ Among old (x.told + 1) i ∧
      (old.frames.kind i = .debug → action = .stop)
  | .hasServer i => i ∈ old.frames.above
  | .awaitFinish i => h.IsFree ∧ ∀ x, h.reach = some x → x.ending = none ∧ Among old x.told i
  | _ => False

/-- Which steps on the sessions a flow may make. -/
def maySessions (h : Charge) : SessionOp → Prop
  | .current => True
  | .pop => h.change = none ∧ ∀ x, h.reach = some x → x.ending = none
  | .bottom => h.change = none ∧ ∃ x, h.reach = some x ∧ x.bare ∧ x.ending = none
  | _ => False

/-- Which steps on the queue of the read loop a flow may make. -/
def mayIdle : IdleOp → Prop
  | .setActive _ | .setInvoking _ | .take => True
  | _ => False

/-- Which steps on the host a flow may make. One that waits for a line does nothing else. -/
def mayHost (h : Charge) : HostOp → Prop
  | .startLoop | .call _ | .endRead _ => True
  | .poll _ => h = {}
  | _ => False

/-- Which steps on the broker's own state a flow may make. -/
def mayBroker (h : Charge) : BrokerOp → Prop
  | .phase | .settings | .beginAbort _ | .endCommand | .clearAbortReport | .setStopEvent _ | .hold
  | .letGo | .report .. | .availabilityChanges => True
  | .keep promise payload => promise ∈ old.awaited → answers payload
  | .notify (.sessionChanged ..) => h.change = some []
  | .notify _ => True
  | .setPhase target => target = .ready ∨ target = .disposed ∧ ∃ x, h.reach = some x ∧
      x.ending = some [] ∧ ∀ i ∈ old.frames.above.drop x.lost, i ∈ x.finished
  | .awaitPromise _ => h = {}
  | .awaitAvailability since => h = { seen := some since }
  | _ => False

/-- Which actions a flow may perform. One that waits at a mailbox does nothing else. -/
def may (h : Charge) : Action → Prop
  | .engine e op => known old e ∧ mayWait op = false ∧ (isDeed op → ∃ rest, h.deeds = (e, op) :: rest)
  | .frames op => mayFrames old h op
  | .sessions op => maySessions h op
  | .idle op => mayIdle op
  | .host op => mayHost h op
  | .broker op => mayBroker old h op

/-- What a step on frames changes; nothing remains if its reply cannot be. -/
def noteFrames (h : Charge) : (op : FrameOp) → op.Reply → Option Charge
  | .take i, .exit action =>
    if old.frames.kind i = .debug ∧ action ≠ .stop then none else some { h with duty := .serves i }
  | .take _, .request .. => none
  | .remove _, gone => some { h with duty := .clears gone }
  | .dispose i, _ => some { h with duty := .closes i h.duty.rest }
  | .closeGate _, _ => some { h with duty := .clears h.duty.rest }
  | .live, l =>
    let k := old.frames.live.length - List.length (α := FrameRef) l
    match h.reach with
    | none => none
    | some x =>
      if l = refs old k ∧ x.lost ≤ k ∧ k ≤ x.told ∧ k ≤ old.frames.above.length then
        some (h.advance ({ · with lost := k }))
      else none
  | .tryExit i _, _ =>
    some (h.advance fun x => { x with told := max x.told (old.frames.above.idxOf i + 1) })
  | .hasServer _, served => if served = true then some h else none
  | .awaitFinish i, _ => some (h.advance fun x => { x with finished := i :: x.finished })
  | _, _ => some h

/-- What a step on the sessions changes. -/
def noteSessions (h : Charge) : (op : SessionOp) → op.Reply → Option Charge
  | .current, s => if known old (Session.engine s) then some h else none
  | .pop, none => some (h.advance ({ · with bare := true }))
  | .pop, some (s, now) =>
    if known old (Session.engine s) && known old (Session.engine now) then
      some { h with change := some (popDeeds s now) }
    else none
  | .bottom, s =>
    if s = old.sessions.bottom then
      some (h.advance ({ · with ending := some (lastDeeds old.sessions.bottom) }))
    else none
  | _, _ => some h

/-- Nothing waits for the read loop to run it. -/
def noteIdle (h : Charge) : (op : IdleOp) → op.Reply → Option Charge
  | .take, some _ => none
  | _, _ => some h

def noteHost (h : Charge) : (op : HostOp) → op.Reply → Option Charge
  | .poll _, .pump => none
  | _, _ => some h

/-- What a step on the broker's own state changes. -/
def noteBroker (h : Charge) : (op : BrokerOp) → op.Reply → Option Charge
  | .phase, phase =>
    match h.reach with
    | none => some h
    | some x =>
      if phase = Phase.disposed ∧ !x.ended then none else some (h.advance ({ · with looked := true }))
  | .notify (.sessionChanged ..), _ => some { h with change := none }
  | .setPhase target, _ =>
    if target = .disposed then some (h.advance ({ · with ended := true })) else some h
  | .availabilityChanges, n => some { h with seen := some n }
  | .awaitPromise promise, payload =>
    if promise ∈ old.awaited → (payload : Option Payload).any answers then some h else none
  | .awaitAvailability _, _ => none
  | _, _ => some h

/-- What an action changes. -/
def note (h : Charge) : (action : Action) → action.Reply → Option Charge
  | .engine _ op, _ => if isDeed op then some h.proceed else some h
  | .frames op, r => noteFrames old h op r
  | .sessions op, r => noteSessions old h op r
  | .broker op, r => noteBroker old h op r
  | .idle op, r => noteIdle h op r
  | .host op, r => noteHost h op r

/-- Which procedures a flow may call. -/
def mayCall (h : Charge) : Proc → Prop
  | .dispose => h = start
  | .popSessions => ∃ x, h = { reach := some x } ∧ x.looked ∧ x.ending = none
  | .awaitUsable n => h = { seen := some n }
  | .pump | .hostRead _ => h = {}
  | _ => False

/-- With what a procedure may return that was called with a charge. Those that the teardown brings to
an end return as commands do that are stopped. -/
def Returns (h : Charge) : (proc : Proc) → proc.Result → Charge → Prop
  | .serveNext frame, action, k | .messageLoop frame, action, k =>
    k = { duty := .serves frame.id } ∧ (frame.kind = .debug → action = ResumeAction.stop)
  | .debuggerStopped .., action, k => k = {} ∧ action = ResumeAction.stop
  | .invoke .., r, k => k = {} ∧ r = .error .stopped
  | .runCommand .., r, k | .route .., r, k => k = {} ∧ r ≠ .error .frameExited
  | .popSessions, _, k => k = h.advance ({ · with bare := true })
  | .dispose, _, k | .serveClient _ .dispose, _, k => ∃ x, k = { reach := some x } ∧ x.ended
  | .awaitUsable _, _, k | .restartLoop _, _, k => ∃ n, k = { seen := n }
  | _, _, k => k = {}

/-- The lore of the teardown. -/
def lore : Lore brokerInterface World (Option Charge) where
  blank := none
  note action r _ k := k.bind fun h => note old h action r
  acts action k := ∀ h, k = some h →
    (∀ i, h.duty = .waits i → action = .frames (.take i)) ∧ may old h action
  calls proc k := ∀ h, k = some h → mayCall h proc
  starts _ k := k = none
  back proc k r k' := ∀ h', k' = some h' → ∃ h, k = some h ∧ Returns h proc r h'

variable {old} {α β : Type} {p : Code α} {f : α → Code β} {post : β → Charge → Prop} {h k : Charge}

/-- A program that is begun with a charge minds the lore, and ends with a result and a charge as `post`
says. -/
def Does (old : Onset) (h : Charge) (p : Code α) (post : α → Charge → Prop) : Prop :=
  p.Minds (lore old) brokerMachine (fun a k => ∀ k', k = some k' → post a k') (some h)

/-- Once something has happened that cannot be, anything goes. -/
theorem minds_none (p : Code α) {post : α → Charge → Prop} :
    p.Minds (lore old) brokerMachine (fun a k => ∀ k', k = some k' → post a k') none := by
  induction p with
  | done a => rintro _ ⟨⟩
  | act action next ih => exact ⟨by rintro _ ⟨⟩, fun _ _ _ r _ _ => ih r⟩
  | call proc next ih =>
    refine ⟨by rintro _ ⟨⟩, fun r k back => ?_⟩
    rcases k with _ | k
    · exact ih r
    · obtain ⟨_, ⟨⟩, -⟩ := back k rfl
  | fork proc next ih => exact ⟨rfl, ih⟩

theorem minds_iff {proc : Proc} {p : Code proc.Result} :
    p.Minds (lore old) brokerMachine ((lore old).back proc (some h)) (some k) ↔
      Does old k p (Returns h proc) := by
  have same : (lore old).back proc (some h) = fun a k => ∀ k', k = some k' → Returns h proc a k' := by
    funext r k
    simp [lore]
  rw [same, Does]

theorem does_done {a : β} (done : post a h) : Does old h (.done a) post := by
  rintro _ ⟨⟩
  exact done

theorem Does.imp {post' : β → Charge → Prop} {p : Code β} (does : Does old h p post)
    (weaker : ∀ a k, post a k → post' a k) : Does old h p post' :=
  Program.Minds.imp does fun a _ post k' same => weaker a k' (post k' same)

theorem Does.bind {mid : α → Charge → Prop} (does : Does old h p mid)
    (goesOn : ∀ a k, mid a k → Does old k (f a) post) : Does old h (p >>= f) post := by
  refine Program.Minds.bind does fun a k mid => ?_
  rcases k with _ | k
  · exact minds_none _
  · exact goesOn a k (mid k rfl)

/-- A flow that waits at no mailbox performs an action that it is charged with. -/
theorem does_act (action : Action) {f : action.Reply → Code β} (free : ∀ i, h.duty ≠ .waits i)
    (may : may old h action)
    (goesOn : ∀ flow pick s r t k, World.perform flow pick action s = some (r, t) →
      note old h action r = some k → Does old k (f r) post) :
    Does old h (Program.act action f) post := by
  refine ⟨?_, fun flow pick s r t performed => ?_⟩
  · rintro _ ⟨⟩
    exact ⟨fun i waits => absurd waits (free i), may⟩
  · show (f r).Minds (lore old) brokerMachine _ (note old h action r)
    rcases noted : note old h action r with _ | k
    · exact minds_none _
    · exact goesOn flow pick s r t k performed noted

theorem does_call (proc : Proc) {f : proc.Result → Code β} (may : mayCall h proc)
    (goesOn : ∀ r k, Returns h proc r k → Does old k (f r) post) :
    Does old h (Program.call proc f) post := by
  refine ⟨by rintro _ ⟨⟩; exact may, fun r k back => ?_⟩
  rcases k with _ | k
  · exact minds_none _
  · obtain ⟨_, ⟨⟩, returns⟩ := back k rfl
    exact goesOn r k returns

/-! ### What changes nothing -/

/-- Actions that have to do with nobody's charge. -/
def isAside (old : Onset) : Action → Prop
  | .engine e op => known old e ∧ mayWait op = false ∧ isDeed op = false
  | .frames (.release _) | .idle (.setActive _) | .idle (.setInvoking _) | .host .startLoop | .host (.call _)
  | .host (.endRead _) => True
  | .broker (.notify n) => ∀ change s, n ≠ .sessionChanged change s
  | .broker (.setPhase target) => target = .ready
  | .broker (.keep promise payload) => promise ∈ old.awaited → answers payload
  | .broker .settings | .broker (.beginAbort _) | .broker .endCommand | .broker .clearAbortReport
  | .broker (.setStopEvent _) | .broker .hold | .broker .letGo | .broker (.report ..) => True
  | _ => False

/-- What has to do with nobody's charge. -/
def aside (old : Onset) : Scope brokerInterface := ⟨isAside old, fun _ => False, fun _ => False⟩

theorem may_of_isAside {action : Action} (aside : isAside old action) : may old h action := by
  cases action with
  | engine e op => exact ⟨aside.1, aside.2.1, fun deed => by simp [aside.2.2] at deed⟩
  | frames op => cases op <;> first | exact aside.elim | trivial
  | sessions op => exact aside.elim
  | idle op | host op => cases op <;> first | exact aside.elim | trivial
  | broker op =>
    cases op
    case notify n =>
      cases n
      case sessionChanged change s => exact absurd rfl (aside change s)
      all_goals trivial
    case setPhase target => exact .inl aside
    case keep promise payload => exact aside
    all_goals first | exact aside.elim | trivial

theorem note_of_isAside {action : Action} (aside : isAside old action) (r : action.Reply) :
    note old h action r = some h := by
  cases action with
  | engine e op => simp [note, aside.2.2]
  | frames op => cases op <;> first | exact aside.elim | rfl
  | sessions op => exact aside.elim
  | idle op | host op => cases op <;> first | exact aside.elim | rfl
  | broker op =>
    cases op
    case notify n =>
      cases n
      case sessionChanged change s => exact absurd rfl (aside change s)
      all_goals rfl
    case keep => rfl
    case setPhase target =>
      obtain rfl : target = .ready := aside
      rfl
    all_goals first | exact aside.elim | rfl

theorem does_aside {p : Code α} (within : p.Within (aside old)) (free : ∀ i, h.duty ≠ .waits i) :
    Does old h p fun _ k => k = h := by
  induction p with
  | done a => exact does_done rfl
  | act action next ih =>
    refine does_act _ free (may_of_isAside within.1) fun _ _ _ r _ k _ noted => ?_
    obtain rfl : h = k := by simpa [note_of_isAside within.1] using noted
    exact ih r (within.2 r)
  | call callee next => exact within.1.elim
  | fork other next => exact within.1.elim

/-- What has to do with nobody's charge may come before anything else. -/
theorem Does.after {p : Code α} (within : p.Within (aside old)) (free : ∀ i, h.duty ≠ .waits i)
    (goesOn : ∀ a, Does old h (f a) post) : Does old h (p >>= f) post :=
  (does_aside within free).bind fun a _ same => same ▸ goesOn a

end

end SessionBroker.Teardown
