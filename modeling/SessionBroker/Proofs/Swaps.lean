import SessionBroker.Proofs.Registration
import SessionBroker.Proofs.Settlement

/-!
# Hooks that move with the sessions

A flow that pushes or pops a session moves the broker's hooks along. As long as each change and what
comes of it for the hooks are one step to all others who change the stack, the broker's hooks are on no
engines but those of the sessions that own them, whatever lies on what. (They need not be on all of them.)
-/

namespace SessionBroker.Swaps

/-- What is still to be made of the hooks of engines, one after the other. -/
abbrev Swap := List (EngineName × Option Hooks)

/-- What becomes of the hooks of an engine. -/
def outcome (todo : Swap) (name : EngineName) (before : Option Hooks) : Option Hooks :=
  todo.foldl (fun h d => if name = d.1 then d.2 else h) before

/-- The hooks come with a session that owns them. -/
def entering (previous s : Session) : Swap :=
  if s.ownsHooks then
    (if previous.ownsHooks then [(previous.engine, none)] else []) ++ [(s.engine, some .broker)]
  else []

/-- They leave with it, and go back to the one below if that owns them. -/
def leaving (s now : Session) : Swap :=
  if s.ownsHooks then
    (s.engine, none) :: if now.ownsHooks then [(now.engine, some .broker)] else []
  else []

def founding (s : Session) : Swap := if s.ownsHooks then [(s.engine, some .broker)] else []

/-- What is left after a step on an engine. -/
def advance (e : EngineName) (op : EngineOp) (todo : Swap) : Swap :=
  match op with
  | .register h => if todo.head? = some (e, some h) then todo.tail else todo
  | .unregister => if todo.head? = some (e, none) then todo.tail else todo
  | _ => todo

/-- Whoever changes the stack owes it to move the hooks, and nobody else registers the broker's. -/
@[simps] def swaps : Debts Swap where
  nothing := []
  pushed := entering
  popped := leaving
  founded := founding
  worked := advance
  told todo := todo
  registers e todo := todo.head? = some (e, some .broker)
  tells _ _ _ := True
  worked_nothing e op := by cases op <;> rfl
  told_nothing := rfl

attribute [local simp] Debts.due Debts.after advance

instance : swaps.Fair where
  push s := by
    refine ⟨rfl, fun previous => ?_⟩
    show Program.Pays _ _ (entering previous s)
    unfold entering
    cases owns : s.ownsHooks <;> cases before : Session.ownsHooks previous <;> simp [before]
  pop change _ := by
    refine ⟨rfl, fun popped => ?_⟩
    rcases popped with _ | ⟨s, now⟩
    · rfl
    · show Program.Pays _ _ (leaving s now)
      unfold leaving
      simp only []
      cases owns : s.ownsHooks <;> cases after : now.ownsHooks <;> simp [owns, after]
  setUp e owns := by
    refine Program.pays_bind (by simp) fun settings => Program.pays_bind (by simp) fun found => ?_
    split
    · simp
    · refine Program.pays_bind (SessionChanges.pays_probe false) fun answer => ?_
      rcases answer with f | output
      · simp
      · simp only []
        split
        · simp
        · next identity _ =>
          refine ⟨trivial, fun id => ⟨rfl, fun _ => ⟨trivial, fun _ => ?_⟩⟩⟩
          show Program.Pays _ _ (founding (Session.ofHost id e found identity owns))
          have here : (Session.ofHost id e found identity owns).engine = e := rfl
          unfold founding
          rw [here]
          cases owned : (Session.ofHost id e found identity owns).ownsHooks <;> simp

/-! ## Where the hooks are -/

/-- The broker's hooks are nowhere. -/
def Bare (w : World) : Prop := ∀ p ∈ w.endpoints, p.2.engine.hooks ≠ some .broker

instance : DecidablePred Bare := fun w => inferInstanceAs (Decidable (∀ p ∈ w.endpoints, _))

/-- Once what is owed is done, the broker's hooks are on no engines but those of the sessions that own
them. -/
def Belongs (todo : Swap) (w : World) : Prop :=
  ∀ name, outcome todo name (w.hooksOn name) = some .broker →
    ∃ s ∈ w.sessions.toList, s.ownsHooks ∧ s.engine = name

variable {w u : World} {todo : Swap} {name : EngineName} {s now : Session} {before after : Option Hooks}

theorem Bare.hooksOn (bare : Bare w) (name : EngineName) : w.hooksOn name ≠ some .broker := by
  intro here
  obtain ⟨p, hp, hooks⟩ := Option.bind_eq_some_iff.mp here
  obtain ⟨q, hq, rfl⟩ := Option.map_eq_some_iff.mp hp
  exact bare q (List.mem_of_find?_eq_some hq) hooks

theorem outcome_entering (previous s : Session) :
    outcome (entering previous s) name before =
      if s.ownsHooks then
        if name = s.engine then some .broker
        else if previous.ownsHooks ∧ name = previous.engine then none else before
      else before := by
  unfold outcome entering
  cases s.ownsHooks <;> cases previous.ownsHooks <;> simp

theorem outcome_leaving :
    outcome (leaving s now) name before =
      if s.ownsHooks then
        if now.ownsHooks ∧ name = now.engine then some .broker
        else if name = s.engine then none else before
      else before := by
  unfold outcome leaving
  cases s.ownsHooks <;> cases now.ownsHooks <;> simp

theorem outcome_founding :
    outcome (founding s) name before = if s.ownsHooks ∧ name = s.engine then some .broker else before := by
  unfold outcome founding
  cases s.ownsHooks <;> simp

/-- If the broker's hooks are on fewer engines first, they are on fewer ones at last. -/
theorem broker_of_outcome (less : after = some .broker → before = some .broker)
    (h : outcome todo name after = some .broker) : outcome todo name before = some .broker := by
  induction todo generalizing before after with
  | nil => exact less h
  | cons d rest ih =>
    refine ih (fun here => ?_) h
    simp only [] at here ⊢
    split
    · next mine => rwa [if_pos mine] at here
    · next other =>
      rw [if_neg other] at here
      exact less here

/-- The broker's hooks come to an engine only when they are registered there. -/
theorem broker_of_hooksAfter {action : Action} (other : ∀ e, action ≠ .engine e (.register .broker))
    (h : action.hooksAfter name before = some .broker) : before = some .broker := by
  cases action with
  | engine e op =>
    simp only [Action.hooksAfter] at h
    split at h
    · cases op
      case register hooks =>
        cases hooks
        · exact absurd rfl (other e)
        · cases h
      case unregister => cases h
      all_goals exact h
    · exact h
  | _ => exact h

/-- Making the first step of those that are due leads to the same. -/
theorem outcome_advance {e : EngineName} {op : EngineOp} (due : swaps.due (.engine e op) todo)
    (h : outcome (advance e op todo) name ((Action.engine e op).hooksAfter name before) = some .broker) :
    outcome todo name before = some .broker := by
  have first {made : Option Hooks} (next : todo.head? = some (e, made))
      (after : (Action.engine e op).hooksAfter name before = if name = e then made else before)
      (rest : advance e op todo = todo.tail) : outcome todo name before = some .broker := by
    obtain ⟨tail, rfl⟩ : ∃ tail, todo = (e, made) :: tail := List.head?_eq_some_iff.mp next
    rwa [after, rest] at h
  by_cases same : advance e op todo = todo
  · by_cases registers : op = .register .broker
    · subst registers
      exact first due rfl (if_pos due)
    · rw [same] at h
      exact broker_of_outcome (broker_of_hooksAfter fun e' eq => registers (by cases eq; rfl)) h
  · cases op
    case register hooks =>
      by_cases next : todo.head? = some (e, some hooks)
      · exact first next rfl (if_pos next)
      · exact absurd (if_neg next) same
    case unregister =>
      by_cases next : todo.head? = some (e, none)
      · exact first next rfl (if_pos next)
      · exact absurd (if_neg next) same
    all_goals exact absurd rfl same

/-! ## Steps -/

theorem Belongs.fewer (belongs : Belongs todo w) (sessions : u.sessions = w.sessions)
    (less : ∀ name, u.hooksOn name = some .broker → w.hooksOn name = some .broker) : Belongs todo u := by
  intro name h
  rw [sessions]
  exact belongs name (broker_of_outcome (less name) h)

theorem Belongs.push (belongs : Belongs [] w) (sessions : u.sessions = w.sessions.push s)
    (hooks : ∀ name, u.hooksOn name = w.hooksOn name) : Belongs (entering w.sessions.current s) u := by
  intro name h
  rw [hooks, outcome_entering] at h
  rw [sessions]
  simp only [SessionStack.toList_push, List.mem_cons, exists_eq_or_imp]
  split at h
  · next owns =>
    split at h
    · next here => exact .inl ⟨owns, here.symm⟩
    · split at h
      · cases h
      · exact .inr (belongs name h)
  · exact .inr (belongs name h)

theorem Belongs.pop {rest : SessionStack} (belongs : Belongs [] w) (pushed : w.sessions = rest.push s)
    (sessions : u.sessions = rest) (hooks : ∀ name, u.hooksOn name = w.hooksOn name) :
    Belongs (leaving s rest.current) u := by
  intro name h
  rw [hooks, outcome_leaving] at h
  have before := belongs name
  simp only [pushed, SessionStack.toList_push, List.mem_cons, exists_eq_or_imp, outcome, List.foldl_nil] at before
  rw [sessions]
  split at h
  · split at h
    · next mine =>
      obtain ⟨below, all⟩ := rest.toList_eq
      exact ⟨rest.current, by simp [all], mine.1, mine.2.symm⟩
    · split at h
      · cases h
      · next other =>
        rcases before h with ⟨-, same⟩ | found
        · exact absurd same.symm other
        · exact found
  · next owns =>
    rcases before h with ⟨owns', -⟩ | found
    · exact absurd owns' owns
    · exact found

theorem Bare.found (bare : Bare w) (sessions : u.sessions = .ofBottom s)
    (hooks : ∀ name, u.hooksOn name = w.hooksOn name) : Belongs (founding s) u := by
  intro name h
  rw [hooks, outcome_founding] at h
  split at h
  · next mine => exact ⟨s, by rw [sessions]; exact List.mem_singleton_self s, mine.1, mine.2.symm⟩
  · exact absurd h (bare.hooksOn name)

/-- Whoever changes the stack owes what is to be made of the hooks. -/
theorem Belongs.pay {flow : Nat} {pick : Bool} {action : Action} {r : action.Reply}
    (belongs : Belongs todo w) (performed : World.perform flow pick action w = some (r, u))
    (due : swaps.due action todo) (first : action.founds → Bare w) : Belongs (swaps.after action r todo) u := by
  have sessions := World.sessions_perform performed
  have hooks (name : EngineName) : u.hooksOn name = action.hooksAfter name (w.hooksOn name) :=
    World.hooksOn_perform performed
  cases action with
  | sessions op =>
    cases op
    case push s =>
      obtain rfl : todo = [] := due
      obtain rfl : w.sessions.current = r := congrArg Prod.fst (Option.some.inj performed)
      exact belongs.push sessions hooks
    case pop =>
      obtain rfl : todo = [] := due
      simp only [World.perform, World.performSessions] at performed
      split at performed
      · next bottom =>
        obtain ⟨rfl, -⟩ := Prod.mk.inj (Option.some.inj performed)
        refine belongs.fewer ?_ fun name => by rw [hooks]; exact id
        rw [sessions, World.sessionsAfter, bottom]
        rfl
      · next s rest popped =>
        obtain ⟨rfl, -⟩ := Prod.mk.inj (Option.some.inj performed)
        refine belongs.pop (SessionStack.pop?_eq_some.mp popped) ?_ hooks
        rw [sessions, World.sessionsAfter, popped]
        rfl
    case found s => exact (first rfl).found sessions hooks
    all_goals exact belongs.fewer sessions fun name => by rw [hooks]; exact id
  | engine e op =>
    intro name h
    rw [hooks] at h
    rw [sessions]
    exact belongs name (outcome_advance due h)
  | broker op =>
    have after : swaps.after (.broker op) r todo = todo := by
      cases op
      case notify n => cases n <;> rfl
      all_goals rfl
    rw [after]
    exact belongs.fewer sessions fun name => by rw [hooks]; exact id
  | _ => exact belongs.fewer sessions fun name => by rw [hooks]; exact id

/-- What happens outside moves no hooks. -/
theorem hooksOn_outside (change : Outside) (w : World) (name : EngineName) :
    (change.apply w).hooksOn name = w.hooksOn name := by
  cases change with
  | probeOutput e output =>
    rw [Outside.apply, World.hooksOn, World.hooksOn, World.endpoint?_modifyEndpoint]
    cases w.endpoint? name with
    | none => rfl
    | some p => by_cases mine : name = e <;> simp [mine]
  | _ => rfl

theorem fits_belongs : swaps.Fits Bare Belongs where
  outside change belongs := by
    refine belongs.fewer (change.apply_apart _).1 fun name => ?_
    rw [hooksOn_outside]
    exact id
  aside {k w u flow pick action r} performed due alone belongs := by
    refine belongs.fewer (World.sessions_perform_alone performed alone) fun name here => ?_
    rw [World.hooksOn_perform performed] at here
    refine broker_of_hooksAfter (fun e registers => ?_) here
    subst registers
    cases due
  pay performed due first belongs := belongs.pay performed due first

/-- Where hooks move with the sessions, the broker's are on no engines but those of the sessions that own
them whenever no change is under way. -/
theorem placed_of_settled {settings : BrokerSettings} {endpoints : List (EngineName × Endpoint)}
    {main : EngineName} {host : Host} {ms : List Move} (bare : Bare (.new settings endpoints main host))
    (inTurn : swaps.TakesTurns Bare (.new swaps.lore settings endpoints main host) ms)
    (settled : swaps.Settled ((Tale.new swaps.lore settings endpoints main host).moves swaps.lore ms))
    (name : EngineName) : let w := ((Play.new settings endpoints main host).moves ms).config.shared
    w.hooksOn name = some .broker → ∃ s ∈ w.sessions.toList, s.ownsHooks ∧ s.engine = name := by
  intro w here
  have belongs := Debts.fits_of_settled fits_belongs inTurn (fun name here => absurd here (bare.hooksOn name)) settled
  rw [Tale.play_moves] at belongs
  exact belongs name here

end SessionBroker.Swaps
