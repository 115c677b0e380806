import Mathlib.Algebra.BigOperators.Group.Multiset.Basic
import SessionBroker.Proofs.Calm
import SessionBroker.Proofs.Dealings
import SessionBroker.Proofs.Parts

/-!
# Duties

What the flows of a broker have to do yet. A command has to set the phase, to announce itself and to
end; one who aborts has to announce that and may have to set the phase back; one who holds a lease has
to give it back. The duties are tokens: each step discharges one and may bring the next.
-/

namespace SessionBroker.Duties

/-! ## The contract -/

/-- What a flow has to do yet, or may do. -/
inductive Duty where
  /-- A command has not begun. -/
  | fresh
  /-- A command has begun and has not been announced. -/
  | begun
  /-- A command runs. -/
  | running
  /-- A command has ended in a phase. -/
  | ending (before : Phase)
  /-- A command was stopped, and no abort has spoken for it. -/
  | unspoken
  /-- The end of a command has been dealt with. -/
  | ended
  /-- The right to abort. -/
  | able
  /-- An abort was begun in a phase and has not been announced. -/
  | alarm (before : Phase)
  /-- An abort has been announced, and the phase is to be set back. -/
  | owing
  /-- The right to fetch a lease. -/
  | hand
  /-- The lease of a frame. -/
  | lease (frame : Nat)
  deriving DecidableEq

open Duty

/-- A step that takes some duties and brings others whatever the reply is. -/
def swap (action : Action) (x y : Multiset Duty) : Use brokerInterface Duty action :=
  ⟨x, fun _ got => got = y⟩

/-- What a look at a gate brings. -/
def fetched (frame : Nat) (answer : Gate.Answer) : Duty :=
  if answer = .granted then .lease frame else .hand

/-- What the attempt to abort brings. -/
def begunAbort : Option (Phase × Bool) → Duty
  | none => able
  | some (before, _) => alarm before

/-- What is left to do once an abort has been announced. -/
def announced (before : Phase) : Duty := if before = .running then able else owing

/-- What is left to do once one has seen whether the end of a command is known. -/
def asked (known : Bool) : Duty := if known then ended else unspoken

/-- Which step discharges which duty, and what it brings. -/
inductive Discharges : (action : Action) → Use brokerInterface Duty action → Prop where
  | look (i ticket : Nat) (caller : Gate.Caller) : Discharges (.frames (.look i ticket caller))
      ⟨{hand}, fun (answer : Gate.Answer) got => got = {fetched i answer}⟩
  | release (i : Nat) : Discharges (.frames (.release i)) (swap _ {lease i} {hand})
  | begin : Discharges (.broker (.setPhase .running)) (swap _ {fresh} {begun})
  /-- A command goes on after a stop of the debugger. -/
  | goOn : Discharges (.broker (.setPhase .running)) (swap _ {running} {running})
  | announce (hadErrors : Bool) :
      Discharges (.broker (.notify (.progress .running hadErrors))) (swap _ {begun} {running})
  | «end» : Discharges (.broker .endCommand)
      ⟨{running}, fun (before : Phase) got => got = {ending before}⟩
  /-- A command that was aborted keeps silent. -/
  | silent : Discharges (.broker .clearAbortReport) (swap _ {ending .aborting} {ended})
  /-- A command that was stopped keeps silent if that is known. -/
  | ask {before : Phase} : before ≠ .aborting → before ≠ .disposed →
      Discharges (.broker .clearAbortReport)
        ⟨{ending before}, fun (known : Bool) got => got = {asked known}⟩
  | speak (hadErrors : Bool) : Discharges (.broker (.notify (.progress .aborted hadErrors)))
      (swap _ {unspoken} {ended})
  | tell {before : Phase} {progress : Progress} (hadErrors : Bool) : progress ≠ .running →
      progress ≠ .aborted → before ≠ .aborting → before ≠ .disposed →
      Discharges (.broker (.notify (.progress progress hadErrors))) (swap _ {ending before} {ended})
  | abort (debug : Bool) : Discharges (.broker (.beginAbort debug))
      ⟨{able}, fun (begun : Option (Phase × Bool)) got => got = {begunAbort begun}⟩
  | warn (before : Phase) (hadErrors : Bool) :
      Discharges (.broker (.notify (.progress .aborted hadErrors)))
        (swap _ {alarm before} {announced before})
  | setBack : Discharges (.broker (.setPhase .ready)) (swap _ {owing} {able})
  | calm {action : Action} : action.IsCalm → Discharges action (swap _ 0 0)

/-- One who is lent some duties and gives them back. -/
def lends (proc : Proc) (x : Multiset Duty) : Errand brokerInterface Duty proc :=
  ⟨x, x, 0, fun _ y => y = x, fun _ y => y⟩

end Duties

/-- Requests by which nobody gets past the broker: none runs commands on an engine or raises a stop of
the debugger there, and none keeps a lease. -/
def ClientRequest.IsCall : ClientRequest → Prop
  | .invoke .. | .stop .. | .lease .. => False
  | .engineStep _ step => step.IsCalm
  | _ => True

/-- A move by which nobody gets past the broker. -/
def Move.IsCall : Move → Prop
  | .arrive _ request => request.IsCall
  | _ => True

instance : DecidablePred EngineStep.IsCalm := fun step => by
  cases step <;> simp only [EngineStep.IsCalm] <;> infer_instance

namespace Duties

open Duty

/-- What one may do for a client. -/
def purse : ClientRequest → Multiset Duty
  | .abort _ => {able} + {hand}
  | _ => {hand}

/-- What a procedure brings into the world. -/
def brought : Proc → Multiset Duty
  | .runCommand .. => {fresh} + ({able} + {hand})
  | .serve .. => {hand}
  | .serveClient _ request => purse request
  | .dispose => {able}
  | _ => 0

/-- One who takes out of the world what he brings into it. -/
def brings (proc : Proc) : Errand brokerInterface Duty proc :=
  ⟨0, brought proc, 0, fun _ y => y = brought proc, fun _ _ => 0⟩

/-- What is lent to those who need something. -/
def lent : Proc → Multiset Duty
  | .invoke .. | .debuggerStopped .. | .engineStep .. => {running} + {hand}
  | .execute .. | .route .. | .readLine _ | .onPipeline _ | .shellLoop _ | .shellWait ..
  | .shellDebugger => {hand}
  | _ => 0

/-- A command has been dealt with: its end is known, or nobody listens any more. -/
def IsOver (own : Multiset Duty) : Prop := own = {ended} ∨ own = {ending .disposed}

/-- What a command has to have in the end. -/
def IsDone (own : Multiset Duty) : Prop := ∃ x, IsOver x ∧ own = x + ({able} + {hand})

/-- On which terms procedures are called. -/
inductive Serves : (proc : Proc) → Errand brokerInterface Duty proc → Prop where
  | command (frame : FrameRef) (e : EngineName) (q : Request) (route : Route) :
      Serves (.runCommand frame e q route)
        ⟨0, brought (.runCommand frame e q route), 0, fun _ y => IsDone y, fun _ _ => 0⟩
  | mail (frame : FrameRef) (ticket : Nat) (q : Request) :
      Serves (.serve frame ticket q) (brings (.serve frame ticket q))
  | client (name : String) {request : ClientRequest} : request.IsCall →
      Serves (.serveClient name request) (brings (.serveClient name request))
  | dispose : Serves .dispose (brings .dispose)
  | fetch (frame ticket : Nat) (caller : Gate.Caller) : Serves (.awaitLease frame ticket caller)
      ⟨{hand}, {hand}, 0,
        fun (r : Except Failure Unit) y => y = {if r.isOk then lease frame else hand}, fun _ y => y⟩
  | lent {proc : Proc} : lent proc ≠ 0 → Serves proc (lends proc (lent proc))
  | calm {proc : Proc} : proc.IsCalmly → Serves proc (lends proc 0)

/-- Who has to do what. -/
def contract : Contract brokerInterface Duty := ⟨fun a => {u | Discharges a u}, fun p => {e | Serves p e}⟩

theorem serves_of_isCalm {p : Proc} (calm : p.IsCalm) : ∃ e ∈ contract.errands p, e.price = 0 := by
  cases p
  case runCommand => exact ⟨_, .command .., rfl⟩
  case serve => exact ⟨_, .mail .., rfl⟩
  all_goals first | exact calm.elim | exact ⟨_, .calm calm, rfl⟩

instance : contract.scope.Calm where
  acts _ calm := ⟨_, .calm calm, rfl⟩
  calls _ calm := serves_of_isCalm calm
  starts p thread := by
    cases p <;> first | exact thread.elim | exact ⟨_, .calm trivial, rfl⟩

/-! ## Counting duties -/

/-- The weight of some duties. -/
def tally (weight : Duty → Nat) (own : Multiset Duty) : Nat := (own.map weight).sum

variable {weight : Duty → Nat} {x y : Multiset Duty}

@[simp] theorem tally_zero : tally weight 0 = 0 := rfl

@[simp] theorem tally_singleton (d : Duty) : tally weight {d} = weight d := by simp [tally]

@[simp] theorem tally_cons (d : Duty) : tally weight (d ::ₘ x) = weight d + tally weight x := by
  simp [tally]

@[simp] theorem tally_add : tally weight (x + y) = tally weight x + tally weight y := by simp [tally]

theorem tally_trade {a b : Duty} (le : weight b ≤ weight a) :
    tally weight ({b} + x) ≤ tally weight ({a} + x) := by
  simp only [tally_add, tally_singleton]
  exact Nat.add_le_add_right le _

theorem tally_mono (le : x ≤ y) : tally weight x ≤ tally weight y := by
  obtain ⟨rest, rfl⟩ := Multiset.le_iff_exists_add.mp le
  rw [tally_add]
  exact Nat.le_add_right _ _

theorem tally_le {lighter : Duty → Nat} (le : ∀ d, lighter d ≤ weight d) :
    tally lighter x ≤ tally weight x := by
  induction x using Multiset.induction with
  | empty => exact le_rfl
  | cons d x ih =>
    rw [tally_cons, tally_cons]
    exact Nat.add_le_add (le d) ih

/-- What a procedure takes out of the world with its result. -/
def spent : Proc → Multiset Duty → Prop
  | .runCommand .., own => IsDone own
  | proc, own => own = brought proc

variable {proc : Proc} {e : Errand brokerInterface Duty proc}

theorem Serves.entering (served : Serves proc e) : e.kept + e.stock = e.price + brought proc := by
  cases served with
  | lent some =>
    rw [show brought proc = 0 by cases proc <;> first | rfl | exact absurd rfl some, add_comm]
    rfl
  | calm calm =>
    rw [show brought proc = 0 by cases proc <;> first | rfl | exact calm.elim]
    rfl
  | fetch frame ticket caller => exact add_comm _ _
  | _ => rfl

theorem Serves.returning (served : Serves proc e) {r : proc.Result} {own : Multiset Duty}
    (yields : e.yields r own) : ∃ x, e.kept + own = e.back r own + x ∧ spent proc x := by
  cases served with
  | command => exact ⟨own, rfl, yields⟩
  | mail | client | dispose => exact ⟨own, rfl, yields⟩
  | fetch => exact ⟨0, add_comm _ _, rfl⟩
  | lent some =>
    refine ⟨0, add_comm _ _, ?_⟩
    cases proc <;> first | rfl | exact absurd rfl some
  | calm calm =>
    refine ⟨0, add_comm _ _, ?_⟩
    cases proc <;> first | rfl | exact calm.elim

/-- Calm steps leave the phase alone, set it back or end everything. -/
theorem phaseAfter_calm {action : Action} (calm : action.IsCalm) (p : Phase) :
    World.phaseAfter p action = p ∨ World.phaseAfter p action = p.toward .ready ∨
      World.phaseAfter p action = .disposed := by
  cases action with
  | broker op =>
    cases op
    case setPhase target =>
      rcases calm with rfl | rfl
      · exact .inr (.inl rfl)
      · refine .inr (.inr ?_)
        cases p <;> rfl
    case beginAbort | endCommand => exact calm.elim
    all_goals exact .inl rfl
  | _ => exact .inl rfl

theorem gives_some {action : Action} {u : Use brokerInterface Duty action}
    (used : Discharges action u) (r : action.Reply) : ∃ got, u.gives r got := by
  cases used <;> exact ⟨_, rfl⟩

end SessionBroker.Duties
