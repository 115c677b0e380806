import SessionBroker.Proofs.Scope

/-!
# Programs done alone

A program is done alone if one flow does it from its start to its end while nobody else moves. This
says what a program does as a whole; `Does.run` says that the machine can do just that. Programs that
start flows of their own are NOT covered.
-/

namespace SessionBroker

variable {I : Interface} {σ : Type} {m : Machine I σ} {flow : Nat}

/-- A flow may perform an action now, with a reply and another state. -/
def Machine.Acts (m : Machine I σ) (flow : Nat) (action : I.Action) (s : σ) (r : I.Reply action)
    (t : σ) : Prop :=
  ∃ pick, m.perform flow pick action s = some (r, t)

/-- A flow does a program alone: from a state to a result and another state. -/
inductive Machine.Does (m : Machine I σ) (flow : Nat) :
    {α : Type} → Program I α → σ → α → σ → Prop where
  | done {α : Type} (a : α) (s : σ) : Does m flow (.done a) s a s
  | act {α : Type} {action : I.Action} {next : I.Reply action → Program I α} {r : I.Reply action}
      {s t u : σ} {a : α} : m.Acts flow action s r t →
      Does m flow (next r) t a u → Does m flow (.act action next) s a u
  | call {α : Type} {proc : I.Proc} {next : I.Result proc → Program I α} {r : I.Result proc}
      {s t u : σ} {a : α} : Does m flow (m.body proc) s r t → Does m flow (next r) t a u →
      Does m flow (.call proc next) s a u

namespace Machine

/-- Does a program alone, at most some number of steps deep. -/
def doAlone (m : Machine I σ) (flow : Nat) {α : Type} : Nat → Program I α → σ → Option (α × σ)
  | _, .done a, s => some (a, s)
  | 0, _, _ => none
  | fuel + 1, .act action next, s =>
    (m.perform flow false action s).bind fun (r, t) => m.doAlone flow fuel (next r) t
  | fuel + 1, .call proc next, s =>
    (m.doAlone flow fuel (m.body proc) s).bind fun (r, t) => m.doAlone flow fuel (next r) t
  | _ + 1, .fork .., _ => none

theorem does_of_doAlone {α : Type} {fuel : Nat} {p : Program I α} {s u : σ} {a : α}
    (h : m.doAlone flow fuel p s = some (a, u)) : m.Does flow p s a u := by
  induction fuel generalizing α p s a u with
  | zero =>
    cases p with
    | done b =>
      cases h
      exact .done _ _
    | act | call | fork => cases h
  | succ fuel ih =>
    cases p with
    | done b =>
      cases h
      exact .done _ _
    | act action next =>
      obtain ⟨⟨r, t⟩, hp, h⟩ := Option.bind_eq_some_iff.mp h
      exact .act ⟨false, hp⟩ (ih h)
    | call proc next =>
      obtain ⟨⟨r, t⟩, hp, h⟩ := Option.bind_eq_some_iff.mp h
      exact .call (ih hp) (ih h)
    | fork => cases h

namespace Does

variable {α β : Type} {p : Program I α} {s u : σ}

@[simp] theorem done_iff {a b : α} : m.Does flow (.done a) s b u ↔ b = a ∧ u = s := by
  constructor
  · rintro ⟨⟩
    exact ⟨rfl, rfl⟩
  · rintro ⟨rfl, rfl⟩
    exact .done b u

@[simp] theorem pure_iff {a b : α} : m.Does flow (pure a) s b u ↔ b = a ∧ u = s := done_iff

@[simp] theorem act_iff {action : I.Action} {next : I.Reply action → Program I α} {a : α} :
    m.Does flow (.act action next) s a u ↔
      ∃ r t, m.Acts flow action s r t ∧ m.Does flow (next r) t a u := by
  constructor
  · intro h
    cases h with
    | act hp h => exact ⟨_, _, hp, h⟩
  · rintro ⟨r, t, hp, h⟩
    exact .act hp h

theorem call_iff {proc : I.Proc} {next : I.Result proc → Program I α} {a : α} :
    m.Does flow (.call proc next) s a u ↔
      ∃ r t, m.Does flow (m.body proc) s r t ∧ m.Does flow (next r) t a u := by
  constructor
  · intro h
    cases h with
    | call hb h => exact ⟨_, _, hb, h⟩
  · rintro ⟨r, t, hb, h⟩
    exact .call hb h

/-- What is done one after the other. -/
theorem bind_iff {f : α → Program I β} {b : β} :
    m.Does flow (p >>= f) s b u ↔ ∃ a t, m.Does flow p s a t ∧ m.Does flow (f a) t b u := by
  induction p generalizing s with
  | done a => simp
  | act action next ih =>
    simp only [Program.act_bind, act_iff, ih]
    constructor
    · rintro ⟨r, t, hp, a, v, h, hf⟩
      exact ⟨a, v, ⟨r, t, hp, h⟩, hf⟩
    · rintro ⟨a, v, ⟨r, t, hp, h⟩, hf⟩
      exact ⟨r, t, hp, a, v, h, hf⟩
  | call proc next ih =>
    simp only [Program.call_bind, call_iff, ih]
    constructor
    · rintro ⟨r, t, hb, a, v, h, hf⟩
      exact ⟨a, v, ⟨r, t, hb, h⟩, hf⟩
    · rintro ⟨a, v, ⟨r, t, hb, h⟩, hf⟩
      exact ⟨r, t, hb, a, v, h, hf⟩
  | fork proc next ih =>
    constructor
    · rintro ⟨⟩
    · rintro ⟨_, _, ⟨⟩, _⟩

theorem perform {action : I.Action} {r : I.Reply action} {f : I.Reply action → Program I β} {t : σ} {b : β}
    (acts : m.Acts flow action s r t) (rest : m.Does flow (f r) t b u) :
    m.Does flow (Program.perform action >>= f) s b u := .act acts rest

theorem bind {f : α → Program I β} {t : σ} {a : α} {b : β} (first : m.Does flow p s a t)
    (rest : m.Does flow (f a) t b u) : m.Does flow (p >>= f) s b u := bind_iff.mpr ⟨a, t, first, rest⟩

/-- What no action in a scope changes is not changed by a program within it, if those it calls keep
to such a scope too. -/
theorem view_eq {γ : Type} (view : σ → γ) {S : Scope I}
    (acts : ∀ {action r s t}, S.acts action → m.Acts flow action s r t → view t = view s)
    (calls : ∀ proc, S.calls proc → (m.body proc).Within S) {a : α} (h : m.Does flow p s a u)
    (within : p.Within S) : view u = view s := by
  induction h with
  | done => rfl
  | act hp _ ih => exact (ih (within.2 _)).trans (acts within.1 hp)
  | call _ _ ihb ih => exact (ih (within.2 _)).trans (ihb (calls _ within.1))

end Does

end Machine

/-! ## On the machine -/

namespace Config

variable {c : Config I σ} {id other : Nat} {f g : Flow I}

theorem find?_update : (c.update id g).find? other =
    (c.find? other).map fun f => if other = id then g else f := by
  simp only [find?, update, List.find?_map, Option.map_map]
  have same : ((fun p : Nat × Flow I => decide (p.1 = other)) ∘
      fun p => if p.1 = id then (id, g) else p) = fun p => decide (p.1 = other) := by
    funext p
    by_cases e : p.1 = id <;> simp [e]
  rw [same]
  refine Option.map_congr fun p hp => ?_
  have found : p.1 = other := by simpa using List.find?_some hp
  subst found
  by_cases e : p.1 = id <;> simp [e]

theorem find?_update_self (h : c.find? id = some f) : (c.update id g).find? id = some g := by
  simp [find?_update, h]

theorem find?_update_of_ne (ne : other ≠ id) : (c.update id g).find? other = c.find? other := by
  simp [find?_update, ne]

theorem find?_remove (i : Nat) : (c.remove id).find? i = if i = id then none else c.find? i := by
  simp only [find?, remove, List.find?_filter]
  by_cases same : i = id
  · subst same
    rw [if_pos rfl, Option.map_eq_none_iff, List.find?_eq_none]
    simp
  · rw [if_neg same]
    congr 2
    funext p
    by_cases here : p.1 = i <;> simp [here, same]

end Config

/-- Between two moments one flow has come from one place to another, and the other flows are where
they were. -/
structure Config.Came (c d : Config I σ) (id : Nat) (u : σ) (g : Flow I) : Prop where
  shared : d.shared = u
  here : d.find? id = some g
  others : ∀ other ≠ id, d.find? other = c.find? other

/-- What a flow does alone the machine does, whatever comes after it in that flow. -/
theorem Machine.Does.run {α : Type} {p : Program I α} {s u : σ} {a : α} (h : m.Does flow p s a u)
    {c : Config I σ} {proc : I.Proc} {k : α → Program I (I.Result proc)} {wait : Waiting I proc}
    (shared : c.shared = s) (here : c.find? flow = some ⟨proc, p >>= k, wait⟩) :
    ∃ d, Machine.Run m c d ∧ c.Came d flow u ⟨proc, k a, wait⟩ := by
  induction h generalizing c proc with
  | done a s => exact ⟨c, .refl c, shared, here, fun _ _ => rfl⟩
  | @act α action next r s t u a hp _ ih =>
    obtain ⟨pick, hp⟩ := hp
    have step : m.step? c flow pick = some
        (Config.update { c with shared := t } flow ⟨proc, next r >>= k, wait⟩) := by
      rw [step?, here]
      simp [stepFlow, shared, hp]
    obtain ⟨d, run, came⟩ := ih (c := Config.update { c with shared := t } flow _) rfl
      (Config.find?_update_self here)
    refine ⟨d, .cons (.flow flow pick step) run, came.shared, came.here, fun other ne => ?_⟩
    rw [came.others other ne, Config.find?_update_of_ne ne]
    rfl
  | @call α callee next r s t u a _ _ ihb ih =>
    have enter : m.step? c flow false = some
        (c.update flow ⟨callee, m.body callee, .caller (fun r => next r >>= k) wait⟩) := by
      rw [step?, here]
      rfl
    obtain ⟨d, run, came⟩ := ihb (k := .done)
      (c := c.update flow ⟨callee, m.body callee, .caller (fun r => next r >>= k) wait⟩) shared
      (by rw [Config.find?_update_self here]
          exact congrArg (fun q => some (Flow.mk callee q _)) (Program.bind_done _).symm)
    have leave : m.step? d flow false = some (d.update flow ⟨proc, next r >>= k, wait⟩) := by
      rw [step?, came.here]
      rfl
    obtain ⟨e, run', came'⟩ := ih (c := d.update flow ⟨proc, next r >>= k, wait⟩) came.shared
      (Config.find?_update_self came.here)
    refine ⟨e, .cons (.flow flow false enter) (run.trans (.cons (.flow flow false leave) run')),
      came'.shared, came'.here, fun other ne => ?_⟩
    rw [came'.others other ne, Config.find?_update_of_ne ne, came.others other ne,
      Config.find?_update_of_ne ne]

end SessionBroker
