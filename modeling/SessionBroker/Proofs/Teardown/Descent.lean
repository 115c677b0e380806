import Mathlib.Logic.Hydra
import SessionBroker.Proofs.Plays

/-!
# Why flows come to an end

Programs are finite trees, so that a flow goes on without end only by calling procedures again and again.
If the procedures that may still be called come to an end, and no flow starts another one, then all flows
together do.
-/

namespace SessionBroker

open Relation (CutExpand)

variable {I : Interface} {σ : Type} {m : Machine I σ} {quiet : (action : I.Action) → I.Reply action → Prop}
  {calls : I.Proc → Prop}

/-- One flow comes from another by a step: by an action with a reply of some kind, by a return, or by a
call of certain procedures. -/
inductive Flow.From (m : Machine I σ) (quiet : (action : I.Action) → I.Reply action → Prop)
    (calls : I.Proc → Prop) : Flow I → Flow I → Prop where
  | act {proc : I.Proc} {action : I.Action} {next : I.Reply action → Program I (I.Result proc)}
      {wait : Waiting I proc} (r : I.Reply action) : quiet action r →
      Flow.From m quiet calls ⟨proc, next r, wait⟩ ⟨proc, .act action next, wait⟩
  | ret {callee proc : I.Proc} {a : I.Result callee} {next : I.Result callee → Program I (I.Result proc)}
      {below : Waiting I proc} :
      Flow.From m quiet calls ⟨proc, next a, below⟩ ⟨callee, .done a, .caller next below⟩
  | call {callee proc : I.Proc} {next : I.Result callee → Program I (I.Result proc)}
      {wait : Waiting I proc} : calls callee →
      Flow.From m quiet calls ⟨callee, m.body callee, .caller next wait⟩ ⟨proc, .call callee next, wait⟩

/-- A flow comes to an end. -/
abbrev Flow.Halts (m : Machine I σ) (quiet : (action : I.Action) → I.Reply action → Prop)
    (calls : I.Proc → Prop) : Flow I → Prop := Acc (Flow.From m quiet calls)

/-- A procedure comes to an end if its caller does whatever it returns. -/
def Machine.Brief (m : Machine I σ) (quiet : (action : I.Action) → I.Reply action → Prop)
    (calls : I.Proc → Prop) (callee : I.Proc) : Prop :=
  ∀ (proc : I.Proc) (next : I.Result callee → Program I (I.Result proc)) (below : Waiting I proc),
    (∀ r, Flow.Halts m quiet calls ⟨proc, next r, below⟩) →
      Flow.Halts m quiet calls ⟨callee, m.body callee, .caller next below⟩

/-- After actions with such replies, a program calls only certain ones of the procedures. -/
def Program.Calls {α : Type} (quiet : (action : I.Action) → I.Reply action → Prop) (calls : I.Proc → Prop)
    (only : I.Proc → Prop) : Program I α → Prop
  | .done _ => True
  | .act action next => ∀ r, quiet action r → (next r).Calls quiet calls only
  | .call callee next => (calls callee → only callee) ∧ ∀ r, (next r).Calls quiet calls only
  | .fork _ _ => True

variable {only : I.Proc → Prop} {proc : I.Proc}

/-- A program that calls only what is brief comes to an end. -/
theorem Program.Calls.halts {p : Program I (I.Result proc)} {wait : Waiting I proc} (h : p.Calls quiet calls only)
    (brief : ∀ callee, only callee → m.Brief quiet calls callee)
    (last : ∀ r, Flow.Halts m quiet calls ⟨proc, .done r, wait⟩) :
    Flow.Halts m quiet calls ⟨proc, p, wait⟩ := by
  induction p with
  | done a => exact last a
  | act action next ih =>
    refine ⟨_, fun g before => ?_⟩
    cases before with
    | act r ok => exact ih r (h r ok)
  | call callee next ih =>
    refine ⟨_, fun g before => ?_⟩
    cases before with
    | call called => exact brief callee (h.1 called) proc next wait fun r => ih r (h.2 r)
  | fork other next => exact ⟨_, fun g before => nomatch before⟩

/-- So does a procedure with such a body. -/
theorem Machine.brief_of_calls {callee : I.Proc} (h : (m.body callee).Calls quiet calls only)
    (brief : ∀ callee, only callee → m.Brief quiet calls callee) : m.Brief quiet calls callee := by
  refine fun proc next below goesOn => h.halts brief fun r => ⟨_, fun g before => ?_⟩
  cases before with
  | ret => exact goesOn r

theorem Program.calls_of_within {α : Type} {p : Program I α} {S : Scope I}
    (allows : ∀ callee, S.calls callee → calls callee → only callee) (h : p.Within S) :
    p.Calls quiet calls only := by
  induction p with
  | done a => trivial
  | act action next ih => exact fun r _ => ih r (h.2 r)
  | call callee next ih => exact ⟨allows callee h.1, fun r => ih r (h.2 r)⟩
  | fork other next => trivial

/-- If what may be called is brief, every flow comes to an end. -/
theorem Machine.wellFounded_from (brief : ∀ callee, calls callee → m.Brief quiet calls callee) :
    WellFounded (Flow.From m quiet calls) := by
  have program {proc : I.Proc} (p : Program I (I.Result proc)) : p.Calls quiet calls calls := by
    induction p with
    | done a => trivial
    | act action next ih => exact fun r _ => ih r
    | call callee next ih => exact ⟨id, ih⟩
    | fork other next => trivial
  have waiting {proc : I.Proc} (wait : Waiting I proc) (r : I.Result proc) :
      Flow.Halts m quiet calls ⟨proc, .done r, wait⟩ := by
    induction wait with
    | root proc => exact ⟨_, fun g before => nomatch before⟩
    | caller next below ih =>
      refine ⟨_, fun g before => ?_⟩
      cases before with
      | ret => exact (program _).halts brief ih
  exact ⟨fun ⟨proc, p, wait⟩ => (program p).halts brief (waiting wait)⟩

namespace Config

/-- All flows under way. -/
def allFlows (c : Config I σ) : Multiset (Flow I) := (c.flows.map Prod.snd : List (Flow I))

variable {c : Config I σ} {id : Nat} {f g : Flow I} {R : Flow I → Flow I → Prop}

theorem Numbered.cutExpand_update (numbered : c.Numbered) (hf : c.find? id = some f) (s : σ) (less : R g f) :
    CutExpand R (Config.update { c with shared := s } id g).allFlows c.allFlows := by
  obtain ⟨before, after, flows, updated, -⟩ := numbered.split hf
  have changed : (Config.update { c with shared := s } id g).flows = before ++ (id, g) :: after := updated g
  refine ⟨{g}, f, by simpa using less, ?_⟩
  rw [allFlows, changed, allFlows, flows]
  simp only [List.map_append, List.map_cons, ← Multiset.coe_add, ← Multiset.cons_coe, ← Multiset.singleton_add]
  abel

theorem Numbered.cutExpand_remove (numbered : c.Numbered) (hf : c.find? id = some f) :
    CutExpand R (c.remove id).allFlows c.allFlows := by
  obtain ⟨before, after, flows, -, removed⟩ := numbered.split hf
  refine ⟨0, f, by simp, ?_⟩
  rw [allFlows, removed, allFlows, flows]
  simp only [List.map_append, List.map_cons, ← Multiset.coe_add, ← Multiset.cons_coe, ← Multiset.singleton_add]
  abel

end Config

end SessionBroker
