import SessionBroker.Proofs.Stories

/-!
# Engines with any hooks

An engine keeps books: how many of its invocations are under way, how many of them wait, and how many stops of
the debugger are being serviced. Only an invocation writes into them. What hooks do when they are called back,
and what everybody else does, may be anything else: they may run commands on the engine in turn, ask it to stop,
change it or close it.
-/

namespace SessionBroker

/-! ## Books -/

/-- What an engine counts about its invocations. -/
inductive Count where
  | active
  | blocked
  | stopped
  deriving DecidableEq

/-- Where an invocation has come to: it has not begun or is over, it runs, it waits to be stopped or released, or
it services a stop of the debugger. -/
inductive Station where
  | away
  | running
  | waiting
  | stopped
  deriving DecidableEq

/-- What an invocation contributes to the counts of its engine. -/
def Station.count : Station → Count → Nat
  | .away, _ => 0
  | _, .active => 1
  | .waiting, .blocked => 1
  | .stopped, .stopped => 1
  | _, _ => 0

/-- The books of an engine. -/
def Engine.counts (e : Engine) : Count → Nat
  | .active => e.active
  | .blocked => e.blocked
  | .stopped => e.stoppedDepth

def World.counts? (w : World) (e : EngineName) : Option (Count → Nat) := (w.endpoint? e).map (·.engine.counts)

/-- From where an invocation goes on when it writes into the books; `none` for steps that do not. -/
def EngineOp.leaves : EngineOp → Option Station
  | .enter => some .away
  | .leave | .beginWait | .enterStop => some .running
  | .endBlock | .endHold => some .waiting
  | .leaveStop => some .stopped
  | _ => none

/-- To where an invocation goes on; an engine that is closed does not let it begin. -/
def EngineOp.reaches : (op : EngineOp) → op.Reply → Option Station
  | .enter, .ok _ => some .running
  | .leave, _ => some .away
  | .beginWait, _ => some .waiting
  | .endBlock, _ | .endHold, _ | .leaveStop, _ => some .running
  | .enterStop, _ => some .stopped
  | _, _ => none

namespace Action

/-- Whether an action writes into the books of an engine. -/
def isBooking : Action → Bool
  | .engine _ op => op.leaves.isSome
  | _ => false

def leaves (e : EngineName) : Action → Option Station
  | .engine name op => if name = e then op.leaves else none
  | _ => none

def reaches (e : EngineName) : (action : Action) → action.Reply → Option Station
  | .engine name op, r => if name = e then op.reaches r else none
  | _, _ => none

variable {e : EngineName} {action : Action}

@[simp] theorem leaves_engine (op : EngineOp) : leaves e (.engine e op) = op.leaves := if_pos rfl

@[simp] theorem reaches_engine {op : EngineOp} (r : op.Reply) : reaches e (.engine e op) r = op.reaches r := if_pos rfl

theorem leaves_eq_none (quiet : action.isBooking = false) : action.leaves e = none := by
  cases action with
  | engine name op =>
    simp only [leaves]
    split
    · simpa [isBooking] using quiet
    · rfl
  | _ => rfl

theorem reaches_eq_none (unmoved : action.leaves e = none) (r : action.Reply) : action.reaches e r = none := by
  cases action with
  | engine name op =>
    simp only [leaves] at unmoved
    simp only [reaches]
    split
    · next same =>
      rw [if_pos same] at unmoved
      cases op <;> first | rfl | cases unmoved
    · rfl
  | _ => rfl

theorem eq_leaveStop (h : action.leaves e = some .stopped) : action = .engine e .leaveStop := by
  cases action with
  | engine name op =>
    simp only [leaves] at h
    split at h
    · next same =>
      subst same
      cases op <;> first | rfl | cases h
    · cases h
  | _ => cases h

end Action

/-! ## Engines whose hooks do as they like -/

namespace Engines

section Telling

variable (told : Hooks → Availability → Code Unit)

/-- Does what a command stands for; hooks that hear of a change of the availability do as they are told. -/
def runScriptTelling (e : EngineName) : Script → Code (Except EngineFailure Invocation)
  | .unavailable => do
    let hooks : Option Hooks ← Code.engine e (.setAvailability .unavailable)
    match hooks with
    | none => return .ok .empty
    | some h =>
      told h .unavailable
      return .ok .empty
  | s => runScript e s

/-- Answers the identity probe, or does what the command's text stands for. -/
def runTelling (e : EngineName) (c : Command) : Code (Except EngineFailure Invocation) :=
  if c.isProbe then run e c
  else do
    let script : Option Script ← Code.engine e (.script c.text)
    match script with
    | none => return .ok (.ofOutput [.string c.text])
    | some s => runScriptTelling told e s

def invokeTelling (e : EngineName) (c : Command) (merge : Bool) : Code (Except EngineFailure Invocation) := do
  let entered : Except EngineFailure Unit ← Code.engine e .enter
  match entered with
  | .error f => return .error f
  | .ok _ =>
    let r ← runTelling told e c
    Code.engine e .leave
    return if merge then r.map Invocation.merge else r

end Telling

theorem runTelling_eq (e : EngineName) (c : Command) :
    runTelling (fun h a => tellAvailability (some h) a) e c = run e c := by
  unfold runTelling
  split
  · rfl
  · next asked =>
    rw [run, if_neg asked]
    congr 1
    funext script
    rcases script with _ | s
    · rfl
    · cases s with
      | unavailable =>
        show Program.bind _ _ = Program.bind (Program.bind _ _) _
        rw [Program.bind_assoc]
        congr 1
        funext hooks
        cases hooks <;> rfl
      | _ => rfl

/-- Engines of a broker are engines whose hooks hear of changes as they do there. -/
theorem invokeTelling_eq (e : EngineName) (c : Command) (merge : Bool) :
    invokeTelling (fun h a => tellAvailability (some h) a) e c merge = invoke e c merge := by
  simp only [invokeTelling, runTelling_eq]
  rfl

end Engines

/-- A procedure is what the hooks of an engine do about a stop of its debugger. -/
def Proc.isStopOf (e : EngineName) : Proc → Bool
  | .debuggerStopped _ name _ => name = e
  | _ => false

/-- A procedure is an invocation on an engine. -/
def Proc.isInvocationOn (e : EngineName) : Proc → Bool
  | .invoke name _ _ _ => name = e
  | _ => false

/-- Programs that leave the books of engines alone. -/
def handsOff : Scope brokerInterface := ⟨fun a => a.isBooking = false, fun _ => True, fun _ => True⟩

/-- Whether an action looks up what the text of a command stands for. -/
def Action.isLookup : Action → Bool
  | .engine _ (.script _) => true
  | _ => false

/-- Programs that leave to the engines what is theirs: they do not touch their books, look nothing up in their tables
and do not service stops of their debuggers. -/
def discreet : Scope brokerInterface :=
  ⟨fun a => a.isBooking = false ∧ a.isLookup = false, fun p => ∀ e, p.isStopOf e = false, fun _ => True⟩

/-- A machine on which engines are what they are. Hooks and everybody else may do anything but write into the books
of engines. -/
structure RunsEngines (m : Machine brokerInterface World) (told : EngineName → Hooks → Availability → Code Unit) :
    Prop where
  perform : m.perform = World.perform
  invoke : ∀ e c merge nested, m.body (.invoke e c merge nested) = Engines.invokeTelling (told e) e c merge
  told : ∀ e h a, (told e h a).Within discreet
  others : ∀ proc, (∀ e, proc.isInvocationOn e = false) → (m.body proc).Within handsOff

/-! ## Where an invocation stands -/

namespace Engines

/-- Where an invocation on an engine stands, and what it may do there. While it services a stop of the debugger it
only calls the hooks, and nobody calls them for a stop otherwise. -/
def stations (e : EngineName) : Lore brokerInterface World Station where
  blank := .away
  note action r _ st := (action.reaches e r).getD st
  acts action st :=
    (∀ st', action.leaves e = some st' → st = st') ∧ (st = .stopped → action.leaves e = some .stopped)
  calls p st := p.isStopOf e = true ↔ st = .stopped
  starts _ st := st ≠ .stopped
  back _ st _ st' := st' = st

variable {m : Machine brokerInterface World} {e : EngineName} {α β : Type} {p : Code α} {f : α → Code β}
  {st : Station} {post : α → Station → Prop} {told : Hooks → Availability → Code Unit}

theorem minds_engine {op : EngineOp} {f : op.Reply → Code α} (from_ : ∀ st', op.leaves = some st' → st = st')
    (ends : st = .stopped → op.leaves = some .stopped)
    (hf : ∀ r, (f r).Minds (stations e) m post ((op.reaches r).getD st)) :
    (Code.engine e op >>= f).Minds (stations e) m post st := by
  refine ⟨⟨?_, ?_⟩, fun _ _ _ r _ _ => ?_⟩
  · simpa [Action.leaves] using from_
  · simpa [Action.leaves] using ends
  · have learns := hf r
    simpa [stations, Action.reaches] using learns

theorem minds_call {callee : Proc} {f : callee.Result → Code α} (may : callee.isStopOf e = true ↔ st = .stopped)
    (hf : ∀ r, (f r).Minds (stations e) m post st) : (Code.invoke callee >>= f).Minds (stations e) m post st := by
  refine ⟨may, fun r st' back => ?_⟩
  cases back
  exact hf r

theorem minds_discreet (h : p.Within discreet) (busy : st ≠ .stopped) :
    p.Minds (stations e) m (fun _ st' => st' = st) st := by
  refine Program.Within.minds (K := fun st' => st' = st) ?acts ?calls ?starts h rfl
  case acts =>
    rintro action _ allowed rfl
    have unmoved : action.leaves e = none := Action.leaves_eq_none allowed.1
    refine ⟨⟨by simp [unmoved], fun same => absurd same busy⟩, fun r s => ?_⟩
    simp [stations, Action.reaches_eq_none unmoved]
  case calls =>
    rintro p _ allowed rfl
    exact ⟨⟨fun stop => by simp [allowed e] at stop, fun same => absurd same busy⟩, fun r k' back => back⟩
  case starts =>
    rintro _ _ - rfl
    exact busy

/-- Waits, and goes on. -/
theorem minds_wait (op : EngineOp) {f : op.Reply → Code α} (waits : op.leaves = some .waiting)
    (goesOn : ∀ r, op.reaches r = some .running) (hf : ∀ r, (f r).Minds (stations e) m post .running) :
    (do Code.engine e .beginWait; let r ← Code.engine e op; f r : Code α).Minds (stations e) m post .running := by
  refine minds_engine (by simp [EngineOp.leaves]) (by simp) fun _ => ?_
  refine minds_engine (by simp [waits, EngineOp.reaches]) (by simp [EngineOp.reaches]) fun r => ?_
  simpa [goesOn] using hf r

theorem minds_awaitRelease {f : Unit → Code α} (hf : ∀ r, (f r).Minds (stations e) m post .running) :
    (awaitRelease e >>= f).Minds (stations e) m post .running :=
  minds_wait .endHold rfl (fun _ => rfl) hf

theorem minds_runScriptTelling (discreetly : ∀ h a, (told h a).Within discreet) (s : Script) :
    (runScriptTelling told e s).Minds (stations e) m (fun _ st => st = .running) .running := by
  cases s with
  | output | fail | throw | fatal => rfl
  | block => exact minds_wait .endBlock rfl (fun _ => rfl) fun _ => rfl
  | hold => exact minds_awaitRelease fun _ => rfl
  | switchIdentity => exact minds_engine (by simp [EngineOp.leaves]) (by simp) fun _ => rfl
  | «break» event =>
    refine minds_engine (by simp [EngineOp.leaves]) (by simp) fun hooks => ?_
    cases hooks with
    | none => rfl
    | some h =>
      refine minds_engine (by simp [EngineOp.leaves, EngineOp.reaches]) (by simp [EngineOp.reaches]) fun _ => ?_
      refine minds_call (by simp [Proc.isStopOf, EngineOp.reaches]) fun action => ?_
      exact minds_engine (by simp [EngineOp.leaves, EngineOp.reaches]) (by simp [EngineOp.leaves]) fun _ => rfl
  | nestedPrompt =>
    refine minds_engine (by simp [EngineOp.leaves]) (by simp) fun hooks => ?_
    cases hooks with
    | none => rfl
    | some h => exact minds_call (by simp [Proc.isStopOf, EngineOp.reaches]) fun _ => rfl
  | unavailable =>
    refine minds_engine (by simp [EngineOp.leaves]) (by simp) fun hooks => ?_
    cases hooks with
    | none => rfl
    | some h => exact Program.Minds.bind (minds_discreet (discreetly h _) (by simp [EngineOp.reaches])) fun _ _ same => same

theorem minds_runTelling (discreetly : ∀ h a, (told h a).Within discreet) (c : Command) :
    (runTelling told e c).Minds (stations e) m (fun _ st => st = .running) .running := by
  unfold runTelling
  split
  · next asked =>
    rw [run, if_pos asked]
    refine minds_engine (by simp [EngineOp.leaves]) (by simp) fun held => ?_
    cases held
    · exact minds_engine (by simp [EngineOp.leaves]) (by simp [EngineOp.reaches]) fun _ => rfl
    · exact minds_awaitRelease fun _ => minds_engine (by simp [EngineOp.leaves]) (by simp) fun _ => rfl
  · refine minds_engine (by simp [EngineOp.leaves]) (by simp) fun script => ?_
    cases script with
    | none => rfl
    | some s => exact minds_runScriptTelling discreetly s

/-- An invocation that has come to its end stands where it stood before it began. -/
theorem minds_invokeTelling (discreetly : ∀ h a, (told h a).Within discreet) (c : Command) (merge : Bool) :
    (invokeTelling told e c merge).Minds (stations e) m (fun _ st => st = .away) .away := by
  refine minds_engine (by simp [EngineOp.leaves]) (by simp) fun entered => ?_
  cases entered with
  | error f => rfl
  | ok _ =>
    refine Program.Minds.bind (minds_runTelling discreetly c) fun r st running => ?_
    subst running
    exact minds_engine (by simp [EngineOp.leaves]) (by simp) fun _ => rfl

/-! ## What an invocation does to other engines -/

/-- Programs that leave the books of an engine alone. -/
def aloof (e : EngineName) : Scope brokerInterface := ⟨fun a => a.leaves e = none, fun _ => True, fun _ => True⟩

theorem aloof_of_discreet (h : p.Within discreet) : p.Within (aloof e) :=
  h.mono (fun a (quiet : discreet.acts a) => Action.leaves_eq_none quiet.1) (fun _ _ => trivial) fun _ _ => trivial

section Others

variable {name : EngineName} (other : name ≠ e)

include other in
theorem aloof_engine {op : EngineOp} {f : op.Reply → Code α} (hf : ∀ r, (f r).Within (aloof e)) :
    (Code.engine name op >>= f).Within (aloof e) :=
  ⟨if_neg other, hf⟩

theorem aloof_call {callee : Proc} {f : callee.Result → Code α} (hf : ∀ r, (f r).Within (aloof e)) :
    (Code.invoke callee >>= f).Within (aloof e) :=
  ⟨trivial, hf⟩

include other in
theorem aloof_runScriptTelling (discreetly : ∀ h a, (told h a).Within discreet) (s : Script) :
    (runScriptTelling told name s).Within (aloof e) := by
  cases s with
  | output | fail | throw | fatal => trivial
  | block | hold => exact aloof_engine other fun _ => aloof_engine other fun _ => trivial
  | switchIdentity => exact aloof_engine other fun _ => trivial
  | «break» event =>
    refine aloof_engine other fun hooks => ?_
    cases hooks with
    | none => trivial
    | some h => exact aloof_engine other fun _ => aloof_call fun _ => aloof_engine other fun _ => trivial
  | nestedPrompt =>
    refine aloof_engine other fun hooks => ?_
    cases hooks with
    | none => trivial
    | some h => exact aloof_call fun _ => trivial
  | unavailable =>
    refine aloof_engine other fun hooks => ?_
    cases hooks with
    | none => trivial
    | some h => exact Program.within_bind (aloof_of_discreet (discreetly h _)) fun _ => trivial

include other in
/-- An invocation leaves the books of all other engines alone. -/
theorem aloof_invokeTelling (discreetly : ∀ h a, (told h a).Within discreet) (c : Command) (merge : Bool) :
    (invokeTelling told name c merge).Within (aloof e) := by
  refine aloof_engine other fun entered => ?_
  cases entered with
  | error f => trivial
  | ok _ =>
    refine Program.within_bind ?_ fun r => aloof_engine other fun _ => trivial
    unfold runTelling
    split
    · next asked =>
      rw [run, if_pos asked]
      refine aloof_engine other fun held => ?_
      cases held
      · exact aloof_engine other fun _ => trivial
      · exact aloof_engine other fun _ => aloof_engine other fun _ => aloof_engine other fun _ => trivial
    · refine aloof_engine other fun script => ?_
      cases script with
      | none => trivial
      | some s => exact aloof_runScriptTelling other discreetly s

end Others

end Engines

end SessionBroker
