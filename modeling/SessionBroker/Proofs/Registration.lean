import SessionBroker.Proofs.Alone
import SessionBroker.Proofs.Parts
import SessionBroker.Proofs.Quiet

/-!
# Where the broker's hooks are registered

The broker's hooks belong on the engine of the topmost session that owns them. Pushes and pops look
at no more than the two sessions next to each other, so the hooks are where they belong as long as no
session that owns them lies on one that does not. A stack of any other kind is NOT served: there the
hooks may be on two engines, or on none.
-/

namespace SessionBroker

/-! ## The stack -/

namespace SessionStack

/-- The topmost session that owns the hooks. -/
def owner? (t : SessionStack) : Option Session := t.toList.find? (·.ownsHooks)

/-- No session that owns the hooks lies on one that does not. -/
def Layered (t : SessionStack) : Prop :=
  t.toList.IsChain fun above below => above.ownsHooks → below.ownsHooks

variable {t u : SessionStack} {s : Session}

theorem toList_eq (t : SessionStack) : ∃ below, t.toList = t.current :: below := by
  obtain ⟨above, bottom⟩ := t
  cases above with
  | nil => exact ⟨[], rfl⟩
  | cons s rest => exact ⟨rest ++ [bottom], rfl⟩

theorem owner?_of_current (owns : t.current.ownsHooks) : t.owner? = some t.current := by
  obtain ⟨below, all⟩ := t.toList_eq
  rw [owner?, all, List.find?_cons_of_pos owns]

theorem owner?_push : (t.push s).owner? = if s.ownsHooks then some s else t.owner? := by
  rw [owner?, toList_push, List.find?_cons]
  cases s.ownsHooks <;> rfl

theorem layered_push :
    (t.push s).Layered ↔ (s.ownsHooks → t.current.ownsHooks) ∧ t.Layered := by
  obtain ⟨below, all⟩ := t.toList_eq
  rw [Layered, Layered, toList_push, all, List.isChain_cons_cons]

end SessionStack

/-! ## Steps -/

/-- What a step on an engine makes of its hooks. -/
def EngineOp.hooksAfter : EngineOp → Option Hooks → Option Hooks
  | .register h, _ => some h
  | .unregister, _ => none
  | _, before => before

/-- What a step makes of the hooks of an engine. -/
def Action.hooksAfter (name : EngineName) : Action → Option Hooks → Option Hooks
  | .engine e op, before => if name = e then op.hooksAfter before else before
  | _, before => before

/-- The hooks of an engine. -/
def World.hooksOn (w : World) (name : EngineName) : Option Hooks :=
  (w.endpoint? name).bind (·.engine.hooks)

/-- The broker's hooks are on the engine of the topmost session that owns them, and nowhere else. -/
def World.HooksPlaced (w : World) : Prop :=
  ∃ s, w.sessions.owner? = some s ∧ ∀ name, w.hooksOn name = some .broker ↔ name = s.engine

theorem Endpoint.hooks_perform {p q : Endpoint} {op : EngineOp} {r : op.Reply}
    (h : p.perform op = some (r, q)) : q.engine.hooks = op.hooksAfter p.engine.hooks := by
  cases op
  case enter =>
    simp only [perform, Engine.enter] at h
    split at h
    · next ok =>
      split at ok
      · cases ok
      · cases ok
        cases h
        rfl
    · cases h
      rfl
  case endBlock =>
    obtain ⟨e, he, h⟩ := Option.map_eq_some_iff.mp h
    cases h
    unfold Engine.endBlock? at he
    split at he <;> cases he
    rfl
  case endHold =>
    obtain ⟨e, he, h⟩ := Option.map_eq_some_iff.mp h
    cases h
    unfold Engine.endHold? at he
    split at he <;> cases he
    rfl
  case unregister =>
    cases h
    rcases hooks : p.engine.hooks with _ | hooks <;>
      simp [map, Engine.unregister, hooks, EngineOp.hooksAfter]
  case wish =>
    cases h
    by_cases foreign : p.foreign <;> simp [foreign, map, Engine.note, EngineOp.hooksAfter]
  all_goals
    cases h
    rfl

namespace World

variable {w u : World} {flow : Nat} {pick : Bool} {name : EngineName}

theorem hooksOn_perform {a : Action} {r : a.Reply} (h : perform flow pick a w = some (r, u)) :
    u.hooksOn name = a.hooksAfter name (w.hooksOn name) := by
  cases a with
  | engine e op =>
    simp only [perform, performEngine] at h
    split at h
    · cases h
    · next p hp =>
      obtain ⟨⟨reply, q⟩, hq, h⟩ := Option.map_eq_some_iff.mp h
      have stays : u.endpoint? name = (w.modifyEndpoint e fun _ => q).endpoint? name := by
        cases op <;> cases h <;> rfl
      rw [hooksOn, stays, endpoint?_modifyEndpoint]
      by_cases mine : name = e
      · subst mine
        simp [hp, hooksOn, Action.hooksAfter, Endpoint.hooks_perform hq]
      · simp [mine, hooksOn, Action.hooksAfter]
  | _ =>
    have same : u.endpoints = w.endpoints := (unmoved_perform h).endpoints (by rintro _ _ ⟨⟩)
    simp [hooksOn, endpoint?, same, Action.hooksAfter]

end World

/-- Steps by which no sessions come or go, and no hooks. -/
def Action.LeavesHooks : Action → Prop
  | .engine _ (.register _) | .engine _ .unregister | .sessions _ => False
  | _ => True

theorem Action.hooksAfter_eq {a : Action} (leaves : a.LeavesHooks) (name : EngineName)
    (before : Option Hooks) : a.hooksAfter name before = before := by
  cases a with
  | engine e op =>
    have same : op.hooksAfter before = before := by
      cases op
      case register | unregister => exact leaves.elim
      all_goals rfl
    simp [hooksAfter, same]
  | _ => rfl

/-- An engine is asked who it is. -/
def Proc.IsProbe : Proc → Prop
  | .invoke _ c _ _ => c.isProbe
  | _ => False

/-! ## What is done alone -/

namespace Registration

/-- A flow of the broker does a program alone. -/
abbrev Alone {α : Type} (flow : Nat) (p : Code α) (w : World) (a : α) (u : World) : Prop :=
  brokerMachine.Does flow p w a u

/-- Where the stack of sessions and the hooks are the same. -/
structure Alike (w u : World) : Prop where
  sessions : u.sessions = w.sessions
  hooks : ∀ name, u.hooksOn name = w.hooksOn name

attribute [local simp] Action.LeavesHooks Proc.IsProbe

/-- What a probe does. -/
def probing : Scope brokerInterface where
  acts := Action.LeavesHooks
  calls := Proc.IsProbe
  starts _ := False

variable {α : Type} {flow : Nat} {w u : World} {e : EngineName}

@[local simp] theorem probing_acts {a : Action} : probing.acts a ↔ a.LeavesHooks := Iff.rfl

@[local simp] theorem probing_calls {p : Proc} : probing.calls p ↔ p.IsProbe := Iff.rfl

theorem within_invoke {c : Command} (probe : c.isProbe) (merge : Bool) :
    (Engines.invoke e c merge).Within probing := by
  refine Program.within_bind (by simp) fun entered => ?_
  cases entered with
  | error f => simp
  | ok _ =>
    refine Program.within_bind ?_ fun r => by simp
    rw [Engines.run, if_pos probe]
    simp [Engines.awaitRelease]

theorem within_probe (e : EngineName) (atPrompt : Bool) :
    (SessionChanges.probe e atPrompt).Within probing := by
  have probe : Command.probe.isProbe := by simp [Command.probe, Command.script, Command.isProbe]
  unfold SessionChanges.probe
  split
  · refine Program.within_bind ?_ fun _ => by simp
    refine Program.within_bind (by simp) fun debugger => ?_
    simp only []
    split
    · simp
    · split
      · simp
      · split <;> simp [probe]
  · refine Program.within_bind ?_ fun _ => by simp
    refine Program.within_bind (by simp) fun answer => ?_
    cases answer <;> simp [probe]

/-- A flow of the broker may make a step now. -/
abbrev Acts (flow : Nat) (action : Action) (w : World) (r : action.Reply) (u : World) : Prop :=
  brokerMachine.Acts flow action w r u

variable {action : Action} {r : action.Reply}

theorem hooksOn_acts (h : Acts flow action w r u) (name : EngineName) :
    u.hooksOn name = action.hooksAfter name (w.hooksOn name) := by
  obtain ⟨pick, h⟩ := h
  exact World.hooksOn_perform h

theorem sessions_acts (h : Acts flow action w r u) (other : ∀ op, action ≠ .sessions op) :
    u.sessions = w.sessions := by
  obtain ⟨pick, h⟩ := h
  exact (World.unmoved_perform h).sessions other

theorem alike_of_acts (h : Acts flow action w r u) (leaves : action.LeavesHooks) : Alike w u where
  sessions := sessions_acts h (by rintro op rfl; exact leaves)
  hooks name := (hooksOn_acts h name).trans (Action.hooksAfter_eq leaves name _)

/-- Whatever is within a probe leaves the stack and the hooks alone. -/
theorem alike_of_within {p : Code α} {a : α} (h : Alone flow p w a u) (within : p.Within probing) :
    Alike w u := by
  have same : (u.sessions, u.hooksOn) = (w.sessions, w.hooksOn) := by
    refine h.view_eq (fun w => (w.sessions, w.hooksOn)) (S := probing) ?_ ?_ within
    · intro action r s t leaves h
      have alike : Alike s t := alike_of_acts h leaves
      exact Prod.ext alike.sessions (funext alike.hooks)
    · intro proc probe
      cases proc with
      | invoke e c merge nested => exact within_invoke probe merge
      | _ => exact probe.elim
  exact ⟨congrArg Prod.fst same, fun name => congrFun (congrArg Prod.snd same) name⟩

attribute [local simp] Action.hooksAfter EngineOp.hooksAfter

/-- A push takes the hooks along if the new session owns them. -/
theorem push_alone {s : Session} (h : Alone flow (SessionChanges.push s) w () u) :
    u.sessions = w.sessions.push s ∧ ∀ name, u.hooksOn name =
      if s.ownsHooks then
        if name = s.engine then some .broker
        else if w.sessions.current.ownsHooks ∧ name = w.sessions.current.engine then none
        else w.hooksOn name
      else w.hooksOn name := by
  obtain ⟨previous, v, pushed, h⟩ := Machine.Does.act_iff.mp h
  have now : previous = w.sessions.current ∧ v.sessions = w.sessions.push s := by
    obtain ⟨pick, pushed⟩ := pushed
    cases pushed
    exact ⟨rfl, rfl⟩
  obtain ⟨rfl, now⟩ := now
  have stays : ∀ name, v.hooksOn name = w.hooksOn name := hooksOn_acts pushed
  by_cases owns : s.ownsHooks
  · by_cases also : w.sessions.current.ownsHooks
    · simp [owns, also] at h
      obtain ⟨_, x, left, _, y, came, _, told⟩ := h
      constructor
      · rw [sessions_acts told (by rintro _ ⟨⟩), sessions_acts came (by rintro _ ⟨⟩),
          sessions_acts left (by rintro _ ⟨⟩), now]
      · intro name
        simp [hooksOn_acts told, hooksOn_acts came, hooksOn_acts left, stays, owns, also]
    · simp [owns, also] at h
      obtain ⟨_, y, came, _, told⟩ := h
      constructor
      · rw [sessions_acts told (by rintro _ ⟨⟩), sessions_acts came (by rintro _ ⟨⟩), now]
      · intro name
        simp [hooksOn_acts told, hooksOn_acts came, stays, owns, also]
  · simp [owns] at h
    obtain ⟨_, told⟩ := h
    constructor
    · rw [sessions_acts told (by rintro _ ⟨⟩), now]
    · intro name
      simp [hooksOn_acts told, stays, owns]

/-- A pop takes the hooks off with a session that owns them, and gives them back to the one below if
that owns them too. Nothing happens to the bottom session. -/
theorem pop_alone {change : SessionChange} {popped : Option Session}
    (h : Alone flow (SessionChanges.pop change) w popped u) :
    w.sessions.pop? = none ∧ Alike w u ∨
      ∃ s t, w.sessions.pop? = some (s, t) ∧ u.sessions = t ∧ ∀ name, u.hooksOn name =
        if s.ownsHooks then
          if t.current.ownsHooks ∧ name = t.current.engine then some .broker
          else if name = s.engine then none
          else w.hooksOn name
        else w.hooksOn name := by
  obtain ⟨taken, v, pops, after⟩ := Machine.Does.act_iff.mp h
  rcases top : w.sessions.pop? with _ | ⟨s, t⟩
  · have nothing : taken = none ∧ v = w := by
      obtain ⟨pick, pops⟩ := pops
      simp only [brokerMachine, World.perform, World.performSessions, top] at pops
      cases pops
      exact ⟨rfl, rfl⟩
    obtain ⟨rfl, rfl⟩ := nothing
    obtain ⟨-, rfl⟩ := Machine.Does.done_iff.mp after
    exact .inl ⟨rfl, rfl, fun _ => rfl⟩
  · have now : taken = some (s, t.current) ∧ v.sessions = t := by
      obtain ⟨pick, pops⟩ := pops
      simp only [brokerMachine, World.perform, World.performSessions, top] at pops
      cases pops
      exact ⟨rfl, rfl⟩
    obtain ⟨rfl, now⟩ := now
    have stays : ∀ name, v.hooksOn name = w.hooksOn name := hooksOn_acts pops
    refine .inr ⟨s, t, rfl, ?_⟩
    by_cases owns : s.ownsHooks
    · by_cases also : t.current.ownsHooks
      · simp [owns, also] at after
        obtain ⟨_, x, left, _, y, came, rest⟩ := after
        have alike : Alike y u := alike_of_within rest (by simp)
        constructor
        · rw [alike.sessions, sessions_acts came (by rintro _ ⟨⟩),
            sessions_acts left (by rintro _ ⟨⟩), now]
        · intro name
          simp [alike.hooks, hooksOn_acts came, hooksOn_acts left, stays, owns, also]
      · simp [owns, also] at after
        obtain ⟨_, x, left, rest⟩ := after
        have alike : Alike x u := alike_of_within rest (by simp)
        constructor
        · rw [alike.sessions, sessions_acts left (by rintro _ ⟨⟩), now]
        · intro name
          simp [alike.hooks, hooksOn_acts left, stays, owns, also]
    · simp [owns] at after
      have alike : Alike v u := alike_of_within after (by simp)
      constructor
      · rw [alike.sessions, now]
      · intro name
        simp [alike.hooks, stays, owns]

/-- What a probe calls for begins with pops, and there is at most one push. -/
theorem adjustments_eq (t : SessionStack) (probed : Identity) (stopped : Bool) :
    ∃ n last, t.adjustments probed stopped = List.replicate n .pop ++ last ∧
      (last = [] ∨ ∃ origin location, last = [.push origin location]) := by
  refine ⟨_, _, rfl, ?_⟩
  unfold SessionStack.missing
  split
  · exact .inl rfl
  · split
    · exact .inr ⟨_, _, rfl⟩
    · split
      · exact .inr ⟨_, _, rfl⟩
      · exact .inl rfl

/-! ## Where the hooks stay -/

theorem placed_of_alike (placed : w.HooksPlaced) (alike : Alike w u) : u.HooksPlaced := by
  obtain ⟨s, owner, only⟩ := placed
  refine ⟨s, by rw [alike.sessions, owner], fun name => ?_⟩
  rw [alike.hooks]
  exact only name

theorem placed_push {s : Session} (h : Alone flow (SessionChanges.push s) w () u)
    (layered : u.sessions.Layered) (placed : w.HooksPlaced) : u.HooksPlaced := by
  obtain ⟨now, hooks⟩ := push_alone h
  obtain ⟨was, owner, only⟩ := placed
  by_cases owns : s.ownsHooks
  · refine ⟨s, by rw [now, SessionStack.owner?_push, if_pos owns], fun name => ?_⟩
    have below : w.sessions.current.ownsHooks := by
      rw [now, SessionStack.layered_push] at layered
      exact layered.1 owns
    obtain rfl : w.sessions.current = was := by
      rw [SessionStack.owner?_of_current below] at owner
      exact Option.some.inj owner
    rw [hooks, if_pos owns]
    by_cases mine : name = s.engine
    · simp [mine]
    · by_cases left : name = w.sessions.current.engine
      · simp [left, below]
      · simp [mine, left, only]
  · refine ⟨was, by rw [now, SessionStack.owner?_push, if_neg owns, owner], fun name => ?_⟩
    rw [hooks, if_neg owns]
    exact only name

theorem placed_pop {change : SessionChange} {popped : Option Session}
    (h : Alone flow (SessionChanges.pop change) w popped u) (layered : w.sessions.Layered)
    (placed : w.HooksPlaced) : u.HooksPlaced ∧ u.sessions.Layered := by
  rcases pop_alone h with ⟨-, alike⟩ | ⟨s, t, top, now, hooks⟩
  · exact ⟨placed_of_alike placed alike, by rw [alike.sessions]; exact layered⟩
  · obtain ⟨was, owner, only⟩ := placed
    rw [SessionStack.pop?_eq_some] at top
    rw [top, SessionStack.layered_push] at layered
    rw [top, SessionStack.owner?_push] at owner
    refine ⟨?_, by rw [now]; exact layered.2⟩
    by_cases owns : s.ownsHooks
    · have below := layered.1 owns
      rw [if_pos owns] at owner
      obtain rfl : s = was := Option.some.inj owner
      refine ⟨t.current, by rw [now, SessionStack.owner?_of_current below], fun name => ?_⟩
      rw [hooks, if_pos owns]
      by_cases mine : name = t.current.engine
      · simp [mine, below]
      · by_cases left : name = s.engine
        · rw [if_neg fun both => mine both.2, if_pos left]
          simp [mine]
        · simp [mine, left, only]
    · rw [if_neg owns] at owner
      refine ⟨was, by rw [now, owner], fun name => ?_⟩
      rw [hooks, if_neg owns]
      exact only name

theorem placed_adjust {probed : Identity} {n : Nat} {last : List Adjustment}
    (single : last = [] ∨ ∃ origin location, last = [.push origin location])
    (h : Alone flow (SessionChanges.adjust probed (List.replicate n .pop ++ last)) w () u)
    (before : w.sessions.Layered) (after : u.sessions.Layered) (placed : w.HooksPlaced) :
    u.HooksPlaced := by
  induction n generalizing w with
  | zero =>
    rcases single with rfl | ⟨origin, location, rfl⟩
    · obtain ⟨-, rfl⟩ := Machine.Does.done_iff.mp h
      exact placed
    · obtain ⟨s, v, derived, rest⟩ := Machine.Does.act_iff.mp h
      change Alone flow (SessionChanges.push s >>= fun _ => SessionChanges.adjust probed []) v () u at rest
      obtain ⟨_, x, pushed, ended⟩ := Machine.Does.bind_iff.mp rest
      obtain ⟨-, rfl⟩ := Machine.Does.done_iff.mp ended
      have alike : Alike w v := by
        obtain ⟨pick, derived⟩ := derived
        cases derived
        exact ⟨rfl, fun _ => rfl⟩
      exact placed_push pushed after (placed_of_alike placed alike)
  | succ n ih =>
    obtain ⟨popped, v, popped', rest⟩ := Machine.Does.bind_iff.mp h
    obtain ⟨placed, layered⟩ := placed_pop popped' before placed
    exact ih rest layered placed

theorem placed_refresh {atPrompt : Bool} (h : Alone flow (SessionChanges.refresh e atPrompt) w () u)
    (before : w.sessions.Layered) (after : u.sessions.Layered) (placed : w.HooksPlaced) :
    u.HooksPlaced := by
  obtain ⟨answer, v, probed, rest⟩ := Machine.Does.bind_iff.mp h
  have asked : Alike w v := alike_of_within probed (within_probe e atPrompt)
  rw [← asked.sessions] at before
  have placed := placed_of_alike placed asked
  split at rest
  · obtain ⟨-, rfl⟩ := Machine.Does.done_iff.mp rest
    exact placed
  · next identity _ =>
    obtain ⟨stop, x, looked, rest⟩ := Machine.Does.act_iff.mp rest
    have looked : Alike v x := alike_of_acts looked trivial
    rw [← looked.sessions] at before
    have placed := placed_of_alike placed looked
    obtain ⟨changes, y, ⟨pick, worked⟩, rest⟩ := Machine.Does.act_iff.mp rest
    cases worked
    obtain ⟨n, last, called, single⟩ := adjustments_eq x.sessions identity stop.isSome
    change Alone flow (SessionChanges.adjust identity _) x () u at rest
    rw [called] at rest
    exact placed_adjust single rest before after placed

/-- What begins the work on an engine puts the hooks there, if all goes well. -/
theorem placed_setUp {owns : Bool} {begun : Except Failure Unit}
    (h : Alone flow (Clients.setUp e owns) w begun u) (well : begun.isOk)
    (nowhere : ∀ name, w.hooksOn name ≠ some .broker) : u.HooksPlaced := by
  obtain ⟨settings, x, ⟨pick, looked⟩, h⟩ := Machine.Does.act_iff.mp h
  cases looked
  obtain ⟨found, x, asked, h⟩ := Machine.Does.act_iff.mp h
  have asked : Alike w x := alike_of_acts asked trivial
  simp only [Program.done_bind] at h
  split at h
  · obtain ⟨rfl, -⟩ := Machine.Does.done_iff.mp h
    cases well
  · obtain ⟨answer, y, probed, h⟩ := Machine.Does.bind_iff.mp h
    have same : Alike x y := alike_of_within probed (within_probe e false)
    split at h
    · obtain ⟨rfl, -⟩ := Machine.Does.done_iff.mp h
      cases well
    · split at h
      · obtain ⟨rfl, -⟩ := Machine.Does.done_iff.mp h
        cases well
      · next identity _ =>
        obtain ⟨id, z, fresh, h⟩ := Machine.Does.act_iff.mp h
        obtain ⟨_, z', founded, h⟩ := Machine.Does.act_iff.mp h
        have now : z'.sessions = .ofBottom (.ofHost id e found identity owns) := by
          obtain ⟨_, founded⟩ := founded
          cases founded
          rfl
        have owning : (Session.ofHost id e found identity owns).ownsHooks := rfl
        have none : ∀ name, z'.hooksOn name ≠ some .broker := by
          intro name
          have unchanged : z'.hooksOn name = w.hooksOn name := calc
            z'.hooksOn name = z.hooksOn name := hooksOn_acts founded name
            _ = y.hooksOn name := hooksOn_acts fresh name
            _ = x.hooksOn name := same.hooks name
            _ = w.hooksOn name := asked.hooks name
          rw [unchanged]
          exact nowhere name
        simp only [Program.done_bind, owning, if_true] at h
        obtain ⟨_, a, held, h⟩ := Machine.Does.act_iff.mp h
        obtain ⟨_, b, came, h⟩ := Machine.Does.act_iff.mp h
        have rest : Alike b u := alike_of_within h (by simp)
        refine ⟨.ofHost id e found identity owns, ?_, fun name => ?_⟩
        · rw [rest.sessions, sessions_acts came (by rintro _ ⟨⟩),
            sessions_acts held (by rintro _ ⟨⟩), now]
          exact SessionStack.owner?_of_current owning
        · rw [rest.hooks, hooksOn_acts came, hooksOn_acts held]
          by_cases mine : name = e
          · simp [mine, Session.ofHost]
          · simpa [mine, Session.ofHost] using none name

/-! ## Sequences of changes -/

/-- What may happen to the stack of sessions: a session is pushed, the current one is popped, or an
engine is asked who answers now. Meanwhile commands may do what they like with anything else. -/
inductive Change : World → World → Prop where
  | push {w u : World} {flow : Nat} (s : Session) :
    Alone flow (SessionChanges.push s) w () u → Change w u
  | pop {w u : World} {flow : Nat} (change : SessionChange) (popped : Option Session) :
    Alone flow (SessionChanges.pop change) w popped u → Change w u
  | refresh {w u : World} {flow : Nat} (e : EngineName) (atPrompt : Bool) :
    Alone flow (SessionChanges.refresh e atPrompt) w () u → Change w u
  | other {w u : World} : Alike w u → Change w u

/-- Worlds that come about one change after the other once work on an engine has begun, and whose
stacks of sessions are all of a certain kind. -/
inductive Reached (ok : SessionStack → Prop) : World → Prop where
  | begun {w u : World} {flow : Nat} (e : EngineName) (owns : Bool) {begun : Except Failure Unit} :
    (∀ name, w.hooksOn name ≠ some .broker) → Alone flow (Clients.setUp e owns) w begun u →
      begun.isOk → ok u.sessions → Reached ok u
  | change {w u : World} : Reached ok w → Change w u → ok u.sessions → Reached ok u

theorem Reached.ok {ok : SessionStack → Prop} (reached : Reached ok w) : ok w.sessions := by
  cases reached with
  | begun _ _ _ _ _ ok => exact ok
  | change _ _ ok => exact ok

theorem placed_change (change : Change w u) (before : w.sessions.Layered)
    (after : u.sessions.Layered) (placed : w.HooksPlaced) : u.HooksPlaced := by
  cases change with
  | push s h => exact placed_push h after placed
  | pop change popped h => exact (placed_pop h before placed).1
  | refresh e atPrompt h => exact placed_refresh h before after placed
  | other alike => exact placed_of_alike placed alike

/-- Whatever sessions are pushed and popped and whatever probes find out, the hooks are on the engine
of the topmost session that owns them and on no other, as long as no such session comes to lie on one
that does not own them. -/
theorem hooks_follow_sessions (reached : Reached SessionStack.Layered w) : w.HooksPlaced := by
  induction reached with
  | begun e owns nowhere h well _ => exact placed_setUp h well nowhere
  | change reached change layered placed => exact placed_change change reached.ok layered placed

/-- Once a session that owns the hooks lies on one that does not, they are on two engines, unless it
is on the engine that had them before. -/
theorem not_placed_push {s below : Session} (h : Alone flow (SessionChanges.push s) w () u)
    (owns : s.ownsHooks) (lies : ¬w.sessions.current.ownsHooks) (placed : w.HooksPlaced)
    (owner : w.sessions.owner? = some below) (elsewhere : below.engine ≠ s.engine) :
    ¬u.HooksPlaced := by
  rintro ⟨only, -, one⟩
  obtain ⟨-, hooks⟩ := push_alone h
  obtain ⟨was, owner', broker⟩ := placed
  obtain rfl : was = below := Option.some.inj (owner'.symm.trans owner)
  have here : s.engine = only.engine := (one _).mp (by simp [hooks, owns])
  have there : was.engine = only.engine := (one _).mp (by simp [hooks, owns, lies, broker])
  exact elsewhere (there.trans here.symm)

/-! ### Runs -/

/-- The world after a program that is done alone. -/
def after (p : Code α) (w : World) : World :=
  ((brokerMachine.doAlone 0 100 p w).map Prod.snd).getD w

theorem alone_after {p : Code α} {P : α → Bool}
    (h : (brokerMachine.doAlone 0 100 p w).any fun r => P r.1) :
    ∃ a, Alone 0 p w a (after p w) ∧ P a := by
  rcases run : brokerMachine.doAlone 0 100 p w with _ | ⟨a, u⟩
  · simp [run] at h
  · refine ⟨a, ?_, by simpa [run] using h⟩
    rw [after, run]
    exact Machine.does_of_doAlone run

/-- Two engines that run no scripts. -/
def idleEndpoints : List (EngineName × Endpoint) :=
  ["main", "other"].map fun name => (name, ⟨.new ⟨5, 1⟩ ⟨1, "localhost", "host"⟩ [], false, none, none⟩)

/-- A broker that has begun to work on the first of them. -/
def begun : World := after (Clients.setUp "main" true) (.new .standard idleEndpoints "main" .new)

/-- A session that came about in some way on an engine. -/
def sessionOn (engine : EngineName) (origin : Origin) : Session :=
  ⟨⟨9⟩, .near, origin, ⟨5, 1⟩, none, ⟨2, "localhost", "host"⟩, engine, false⟩

/-- A session of the host on the second engine, and a debugged one on it. -/
def twoLayers : World :=
  after (SessionChanges.push (sessionOn "other" .debugged))
    (after (SessionChanges.push (sessionOn "other" .host)) begun)

/-- The first engine is debugged, and a process entered from there and left again. -/
def enteredAndLeft : World :=
  after (SessionChanges.pop .exit)
    (after (SessionChanges.push (sessionOn "main" .enteredProcess))
      (after (SessionChanges.push (sessionOn "main" .debugged)) begun))

instance (t : SessionStack) : Decidable t.Layered := by
  unfold SessionStack.Layered
  infer_instance

theorem reached_begun {ok : SessionStack → Prop} (right : ok begun.sessions) : Reached ok begun := by
  have none : ∀ name, (World.new .standard idleEndpoints "main" .new).hooksOn name ≠ some .broker := by
    intro name h
    obtain ⟨p, found, hooks⟩ := Option.bind_eq_some_iff.mp h
    obtain ⟨q, hq, rfl⟩ := Option.map_eq_some_iff.mp found
    have fresh : ∀ q ∈ idleEndpoints, q.2.engine.hooks = none := by decide
    rw [fresh q (List.mem_of_find?_eq_some hq)] at hooks
    cases hooks
  obtain ⟨begun, h, well⟩ := alone_after (p := Clients.setUp "main" true) (P := Except.isOk)
    (w := .new .standard idleEndpoints "main" .new) (by decide +kernel)
  exact .begun "main" true none h well right

theorem reached_push {ok : SessionStack → Prop} {s : Session} (reached : Reached ok w)
    (h : (brokerMachine.doAlone 0 100 (SessionChanges.push s) w).isSome)
    (right : ok (after (SessionChanges.push s) w).sessions) :
    Reached ok (after (SessionChanges.push s) w) := by
  obtain ⟨_, h, -⟩ := alone_after (P := fun _ => true) (by simpa [Option.isSome_iff_exists] using h)
  exact .change reached (.push s h) right

/-- On such layers the hooks are where they belong. -/
theorem hooks_follow_two_layers : Reached SessionStack.Layered twoLayers ∧ twoLayers.HooksPlaced := by
  have reached : Reached SessionStack.Layered twoLayers :=
    reached_push (reached_push (reached_begun (by decide +kernel)) (by decide +kernel) (by decide +kernel))
      (by decide +kernel) (by decide +kernel)
  exact ⟨reached, hooks_follow_sessions reached⟩

/-- A process that was entered from a debugged session takes the hooks away for good. -/
theorem hooks_lost : ∃ w, Reached (fun _ => True) w ∧ ¬w.HooksPlaced := by
  obtain ⟨_, h, -⟩ := alone_after (P := fun _ => true) (p := SessionChanges.pop .exit)
    (w := after (SessionChanges.push (sessionOn "main" .enteredProcess))
      (after (SessionChanges.push (sessionOn "main" .debugged)) begun)) (by decide +kernel)
  refine ⟨enteredAndLeft, .change (reached_push (reached_push (reached_begun trivial) (by decide +kernel)
    trivial) (by decide +kernel) trivial) (.pop .exit _ h) trivial, ?_⟩
  rintro ⟨s, owner, only⟩
  have main : enteredAndLeft.sessions.owner?.map (·.engine) = some "main" := by decide +kernel
  have none : enteredAndLeft.hooksOn "main" = none := by decide +kernel
  have here : s.engine = "main" := by simpa [owner] using main
  have broker : enteredAndLeft.hooksOn "main" = some .broker := (only "main").mpr here.symm
  rw [none] at broker
  cases broker

end Registration

end SessionBroker
