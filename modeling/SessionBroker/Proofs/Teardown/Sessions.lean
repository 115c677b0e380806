import SessionBroker.Proofs.Teardown.Charges
import SessionBroker.Proofs.Teardown.Unwinding

/-!
# The sessions during the teardown

Sessions leave from the top, the bottom one is given up at last. Whatever is still to be done to engines
counts as done here: then the broker's hooks are on no engine but those of the sessions that are left, and
every engine that a session owned which is gone has been closed once.
-/

namespace SessionBroker.Teardown

open Unwinding (closedAfter)

/-- What becomes of the hooks of an engine. -/
def hooksAfterAll (todo : List Deed) (name : EngineName) (before : Option Hooks) : Option Hooks :=
  todo.foldl (fun h d => (Action.engine d.1 d.2).hooksAfter name h) before

/-- Whether an engine is closed by a step. -/
def closes (name : EngineName) : Deed → Bool
  | (e, .close) => e = name
  | _ => false

/-- How many sessions own an engine. -/
def owners (l : List Session) (name : EngineName) : Nat :=
  l.countP fun s => s.ownsEngine && s.engine = name

/-- The sessions that have not been given up. -/
def standing (t : SessionStack) (ending : Bool) : List Session := if ending then [] else t.toList

/-- What has become of the sessions, if some steps on engines are still to be made. -/
structure Sessions (old : Onset) (t : SessionStack) (hooks : EngineName → Option Hooks)
    (closed : List EngineName) (todo : List Deed) (bare ending : Bool) : Prop where
  bottom : t.bottom = old.sessions.bottom
  above : t.above <:+ old.sessions.above
  empty : bare → t.above = []
  last : ending → bare
  placed : ∀ name, hooksAfterAll todo name (hooks name) = some .broker →
    ∃ s ∈ standing t ending, s.ownsHooks ∧ s.engine = name
  closings : ∀ name, closed.count name + todo.countP (closes name) + owners (standing t ending) name =
    owners old.sessions.toList name

variable {old : Onset} {t : SessionStack} {hooks : EngineName → Option Hooks}
  {closed : List EngineName} {todo : List Deed} {bare ending : Bool}

theorem owners_cons (s : Session) (l : List Session) (name : EngineName) :
    owners (s :: l) name = owners l name + (s.ownsEngine && s.engine = name).toNat := by
  simp only [owners, List.countP_cons]
  cases h : (s.ownsEngine && decide (s.engine = name)) <;> simp

@[simp] theorem closes_close (e name : EngineName) : closes name (e, .close) = decide (e = name) := rfl

@[simp] theorem closes_unregister (e name : EngineName) : closes name (e, .unregister) = false := rfl

@[simp] theorem closes_register (e name : EngineName) (h : Hooks) :
    closes name (e, .register h) = false := rfl

theorem countP_popDeeds (s now : Session) (name : EngineName) :
    (popDeeds s now).countP (closes name) = (s.ownsEngine && s.engine = name).toNat := by
  unfold popDeeds
  cases s.ownsHooks <;> cases now.ownsHooks <;> cases s.ownsEngine <;>
    by_cases here : s.engine = name <;> simp [here]

theorem countP_lastDeeds (s : Session) (name : EngineName) :
    (lastDeeds s).countP (closes name) = (s.ownsEngine && s.engine = name).toNat := by
  unfold lastDeeds
  cases s.ownsHooks <;> cases s.ownsEngine <;> by_cases here : s.engine = name <;> simp [here]

/-- A pop takes the hooks off with a session that owns them, and gives them back to the one below if that
owns them too. -/
theorem hooksAfterAll_popDeeds (s now : Session) (name : EngineName) (before : Option Hooks) :
    hooksAfterAll (popDeeds s now) name before =
      if s.ownsHooks then
        if now.ownsHooks ∧ name = now.engine then some .broker
        else if name = s.engine then none else before
      else before := by
  unfold hooksAfterAll popDeeds
  cases s.ownsHooks <;> cases now.ownsHooks <;> cases s.ownsEngine <;>
    simp [Action.hooksAfter, EngineOp.hooksAfter]

theorem hooksAfterAll_lastDeeds (s : Session) (name : EngineName) (before : Option Hooks) :
    hooksAfterAll (lastDeeds s) name before =
      if s.ownsHooks ∧ name = s.engine then none else before := by
  unfold hooksAfterAll lastDeeds
  cases s.ownsHooks <;> cases s.ownsEngine <;>
    by_cases here : name = s.engine <;> simp [Action.hooksAfter, EngineOp.hooksAfter, here]

namespace Sessions

/-- The first of the steps is made. -/
theorem deed {d : Deed} (b : Sessions old t hooks closed (d :: todo) bare ending)
    {hooks' : EngineName → Option Hooks}
    (after : ∀ name, hooks' name = (Action.engine d.1 d.2).hooksAfter name (hooks name)) :
    Sessions old t hooks' (closedAfter closed (.engine d.1 d.2)) todo bare ending where
  bottom := b.bottom
  above := b.above
  empty := b.empty
  last := b.last
  placed name h := by
    rw [after name] at h
    exact b.placed name h
  closings name := by
    have all := b.closings name
    obtain ⟨e, op⟩ := d
    have counted : (closedAfter closed (.engine e op)).count name =
        closed.count name + (closes name (e, op)).toNat := by
      cases op
      case close => by_cases here : e = name <;> simp [closedAfter, closes, here]
      all_goals rfl
    rw [List.countP_cons] at all
    rw [counted]
    cases h : closes name (e, op) <;> simp [h] at all ⊢ <;> omega

/-- The current session is popped. -/
theorem pop {s : Session} {u : SessionStack} (b : Sessions old t hooks closed [] bare ending)
    (popped : t.pop? = some (s, u)) : Sessions old u hooks closed (popDeeds s u.current) bare ending := by
  obtain rfl : t = u.push s := SessionStack.pop?_eq_some.mp popped
  have early : ending = false := by
    refine Bool.eq_false_iff.mpr fun late => ?_
    exact List.cons_ne_nil _ _ (b.empty (b.last late))
  subst early
  refine ⟨b.bottom, (List.suffix_cons s u.above).trans b.above,
    fun empty => absurd (b.empty empty) (List.cons_ne_nil _ _), by rintro ⟨⟩,
    fun name h => ?_, fun name => ?_⟩
  · rw [hooksAfterAll_popDeeds] at h
    have before := b.placed name
    simp only [standing, Bool.false_eq_true, if_false, SessionStack.toList_push, List.mem_cons,
      exists_eq_or_imp, hooksAfterAll, List.foldl_nil] at before ⊢
    split at h
    · next owns =>
      split at h
      · next mine =>
        obtain ⟨below, all⟩ := u.toList_eq
        exact ⟨u.current, by simp [all], mine.1, mine.2.symm⟩
      · split at h
        · cases h
        · next other =>
          rcases before h with ⟨-, same⟩ | found
          · exact absurd same.symm other
          · exact found
    · next owns =>
      rcases before h with ⟨owns', -⟩ | found
      · exact absurd owns' owns
      · exact found
  · have all := b.closings name
    simp only [standing, Bool.false_eq_true, if_false, SessionStack.toList_push, owners_cons,
      List.countP_nil] at all ⊢
    rw [countP_popDeeds]
    omega

/-- There is no session left but the bottom one. -/
theorem none (b : Sessions old t hooks closed todo bare ending) (none : t.pop? = none) :
    Sessions old t hooks closed todo true ending := by
  refine { b with empty := fun _ => ?_, last := fun _ => rfl }
  unfold SessionStack.pop? at none
  split at none
  · assumption
  · cases none

/-- The bottom session is given up. -/
theorem give (b : Sessions old t hooks closed [] true false) :
    Sessions old t hooks closed (lastDeeds old.sessions.bottom) true true := by
  have alone : t.toList = [old.sessions.bottom] := by
    rw [SessionStack.toList, b.empty rfl, b.bottom, List.nil_append]
  refine { b with last := fun _ => rfl, placed := fun name h => ?_, closings := fun name => ?_ }
  · rw [hooksAfterAll_lastDeeds] at h
    split at h
    · cases h
    · next other =>
      obtain ⟨s, hs, owns, same⟩ := b.placed name h
      simp only [standing, Bool.false_eq_true, if_false, alone, List.mem_singleton] at hs
      exact absurd ⟨hs ▸ owns, hs ▸ same.symm⟩ other
  · have all := b.closings name
    simp only [standing, Bool.false_eq_true, if_false, alone, owners_cons, List.countP_nil] at all
    rw [countP_lastDeeds]
    simp only [standing, if_true]
    omega

end Sessions

end SessionBroker.Teardown
