import Mathlib.Data.List.Chain
import SessionBroker.Concurrency.Machine

/-!
# Scopes

A scope says which actions a program may perform and which procedures it may call or start. If the
body of every procedure stays within a scope of its own, then whoever is under way in a flow was
called by somebody who may call him.
-/

namespace SessionBroker

variable {I : Interface} {σ : Type}

/-- Actions that may be performed, and procedures that may be called or started. -/
structure Scope (I : Interface) where
  acts : I.Action → Prop
  calls : I.Proc → Prop
  starts : I.Proc → Prop

namespace Program

variable {α β : Type} {S : Scope I} {p q : Program I α}

/-- A program performs, calls and starts nothing but what is in a scope. -/
def Within (S : Scope I) : Program I α → Prop
  | .done _ => True
  | .act action next => S.acts action ∧ ∀ r, (next r).Within S
  | .call proc next => S.calls proc ∧ ∀ r, (next r).Within S
  | .fork proc next => S.starts proc ∧ next.Within S

@[simp] theorem within_done (a : α) : (Program.done a : Program I α).Within S := trivial

@[simp] theorem within_pure (a : α) : (pure a : Program I α).Within S := trivial

@[simp] theorem within_act {action : I.Action} {next : I.Reply action → Program I α} :
    (Program.act action next).Within S ↔ S.acts action ∧ ∀ r, (next r).Within S := Iff.rfl

@[simp] theorem within_call {proc : I.Proc} {next : I.Result proc → Program I α} :
    (Program.call proc next).Within S ↔ S.calls proc ∧ ∀ r, (next r).Within S := Iff.rfl

@[simp] theorem within_fork {proc : I.Proc} :
    (Program.fork proc p).Within S ↔ S.starts proc ∧ p.Within S := Iff.rfl

@[simp] theorem act_bind {action : I.Action} {next : I.Reply action → Program I α}
    {f : α → Program I β} : Program.act action next >>= f = .act action fun r => next r >>= f := rfl

@[simp] theorem call_bind {proc : I.Proc} {next : I.Result proc → Program I α}
    {f : α → Program I β} : Program.call proc next >>= f = .call proc fun r => next r >>= f := rfl

@[simp] theorem fork_bind {proc : I.Proc} {f : α → Program I β} :
    Program.fork proc p >>= f = .fork proc (p >>= f) := rfl

@[simp] theorem pure_bind (a : α) (f : α → Program I β) : (Program.done a : Program I α) >>= f = f a :=
  rfl

@[simp] theorem within_bind {f : α → Program I β} (hp : p.Within S) (hf : ∀ a, (f a).Within S) :
    (p >>= f).Within S := by
  induction p with
  | done a => exact hf a
  | act action next ih => exact ⟨hp.1, fun r => ih r (hp.2 r)⟩
  | call proc next ih => exact ⟨hp.1, fun r => ih r (hp.2 r)⟩
  | fork proc next ih => exact ⟨hp.1, ih hp.2⟩

@[simp] theorem within_ite {c : Prop} [Decidable c] :
    (if c then p else q).Within S ↔ (c → p.Within S) ∧ (¬c → q.Within S) := by
  split <;> simp [*]

@[simp] theorem within_onlyIf {c : Bool} {p : Program I Unit} :
    (onlyIf c p).Within S ↔ (c = true → p.Within S) := by
  cases c <;> simp [onlyIf]

theorem Within.mono {T : Scope I} (acts : ∀ a, S.acts a → T.acts a)
    (calls : ∀ p, S.calls p → T.calls p) (starts : ∀ p, S.starts p → T.starts p)
    (h : p.Within S) : p.Within T := by
  induction p with
  | done a => trivial
  | act action next ih => exact ⟨acts _ h.1, fun r => ih r (h.2 r)⟩
  | call proc next ih => exact ⟨calls _ h.1, fun r => ih r (h.2 r)⟩
  | fork proc next ih => exact ⟨starts _ h.1, ih h.2⟩

end Program

/-! ## Who may call whom -/

/-- The scope without limits. -/
def Scope.all : Scope I := ⟨fun _ => True, fun _ => True, fun _ => True⟩

@[simp] theorem Program.within_all {α : Type} (p : Program I α) : p.Within .all := by
  induction p with
  | done a => trivial
  | act action next ih => exact ⟨trivial, ih⟩
  | call proc next ih => exact ⟨trivial, ih⟩
  | fork proc next ih => exact ⟨trivial, ih⟩

/-- The callers that wait keep to their scopes. -/
def Waiting.KeepsTo (scope : I.Proc → Scope I) : {p : I.Proc} → Waiting I p → Prop
  | _, .root _ => True
  | _, @Waiting.caller _ callee p next below =>
    (scope p).calls callee ∧ (∀ r, (next r).Within (scope p)) ∧ below.KeepsTo scope

/-- Whoever is under way in a flow keeps to his scope. -/
def Flow.KeepsTo (scope : I.Proc → Scope I) (f : Flow I) : Prop :=
  f.code.Within (scope f.proc) ∧ f.waiting.KeepsTo scope

variable {scope : I.Proc → Scope I} {m : Machine I σ} {c d : Config I σ}

/-- Of those under way in a flow, each may be called by the next one. -/
theorem Waiting.KeepsTo.isChain {p : I.Proc} {w : Waiting I p} (keeps : w.KeepsTo scope) :
    w.procs.IsChain fun callee caller => (scope caller).calls callee := by
  induction w with
  | root p => simp [procs]
  | caller next below ih =>
    obtain ⟨may, -, keeps⟩ := keeps
    cases below with
    | root p => simpa [procs] using may
    | caller next' below' => exact List.isChain_cons_cons.mpr ⟨may, ih keeps⟩

/-- If all bodies keep to their scopes, flows do whatever step is made. -/
theorem Machine.keepsTo_step (bodies : ∀ p, (m.body p).Within (scope p))
    (keeps : ∀ p ∈ c.flows, p.2.KeepsTo scope) {id : Nat} {pick : Bool}
    (hs : m.step? c id pick = some d) : ∀ p ∈ d.flows, p.2.KeepsTo scope := by
  obtain ⟨f, hf, hs⟩ := Option.bind_eq_some_iff.mp hs
  obtain ⟨p, hp, rfl⟩ := Option.map_eq_some_iff.mp hf
  obtain ⟨code, waiting⟩ := keeps p (List.mem_of_find?_eq_some hp)
  have updated : ∀ (g : Flow I) (s : σ), g.KeepsTo scope →
      ∀ q ∈ (Config.update { c with shared := s } id g).flows, q.2.KeepsTo scope := by
    intro g s hg q hq
    obtain ⟨old, hold, rfl⟩ := List.mem_map.mp hq
    split
    · exact hg
    · exact keeps old hold
  obtain ⟨number, proc, code', wait⟩ := p
  change code'.Within (scope proc) at code
  change wait.KeepsTo scope at waiting
  cases code' with
  | done a =>
    cases wait with
    | root =>
      cases hs
      exact fun q hq => keeps q (List.mem_filter.mp hq).1
    | caller next below =>
      cases hs
      exact updated _ c.shared ⟨waiting.2.1 a, waiting.2.2⟩
  | act action next =>
    simp only [stepFlow] at hs
    split at hs
    · cases hs
    · cases hs
      exact updated _ _ ⟨code.2 _, waiting⟩
  | call callee next =>
    cases hs
    exact updated _ c.shared ⟨bodies callee, code.1, code.2, waiting⟩
  | fork other next =>
    cases hs
    intro q hq
    rcases List.mem_append.mp hq with hq | hq
    · exact updated ⟨proc, next, wait⟩ c.shared ⟨code.2, waiting⟩ q hq
    · rw [List.mem_singleton.mp hq]
      exact ⟨bodies other, trivial⟩

end SessionBroker
