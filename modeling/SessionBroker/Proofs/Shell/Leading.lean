import SessionBroker.Proofs.Alone
import SessionBroker.Proofs.Contract

/-!
# What flows come to

From some configurations a machine inevitably comes to one with a property, in whatever order its flows
step. Mostly one flow is at work then, and the others can make a few steps in between that do not disturb
it: a situation says what holds of them and bounds how many steps they have left. A program leads from one
situation to another if the flow at work inevitably comes to the program's end, with a certain result.

Programs that start flows of their own are NOT covered: a step that starts one is looked at by itself.
-/

namespace SessionBroker

variable {I : Interface} {σ : Type} {m : Machine I σ}

namespace Machine

theorem stepFlow_act {proc : I.Proc} {action : I.Action} {next : I.Reply action → Program I (I.Result proc)}
    {wait : Waiting I proc} {c : Config I σ} {id : Nat} {pick : Bool} :
    m.stepFlow c id pick ⟨proc, .act action next, wait⟩ = (m.perform id pick action c.shared).map fun (r, s) =>
      Config.update { c with shared := s } id ⟨proc, next r, wait⟩ := by
  simp only [stepFlow]
  split <;> simp_all

/-- Whatever steps are made, some configuration with a property comes. -/
inductive Inevitably (m : Machine I σ) (goal : Config I σ → Prop) : Config I σ → Prop where
  | here {c : Config I σ} : goal c → Inevitably m goal c
  | later {c : Config I σ} : (∃ d, Step m c d) → (∀ d, Step m c d → Inevitably m goal d) →
      Inevitably m goal c

namespace Inevitably

variable {goal goal' : Config I σ → Prop} {c : Config I σ}

theorem trans (h : m.Inevitably goal c) (next : ∀ d, goal d → m.Inevitably goal' d) :
    m.Inevitably goal' c := by
  induction h with
  | here h => exact next _ h
  | later can _ ih => exact .later can ih

theorem imp (h : m.Inevitably goal c) (weaker : ∀ d, goal d → goal' d) : m.Inevitably goal' c :=
  h.trans fun d hd => .here (weaker d hd)

/-- What is inevitable and final stays inevitable on the way. -/
theorem reached (h : m.Inevitably goal c) (final : ∀ g, goal g → ∀ d, ¬ Step m g d) {d : Config I σ} (run : Run m c d) :
    m.Inevitably goal d := by
  induction run with
  | refl => exact h
  | cons step _ ih =>
    cases h with
    | here h => exact absurd step (final _ h _)
    | later _ all => exact ih (all _ step)

end Inevitably

end Machine

namespace Config

variable {c d : Config I σ} {id flow : Nat} {f g : Flow I} {pick : Bool}

theorem find?_spawn {proc : I.Proc} (hf : c.find? flow = some f) :
    (c.spawn m proc).find? flow = some f := by
  obtain ⟨q, hq, rfl⟩ := Option.map_eq_some_iff.mp hf
  simp [find?, spawn, List.find?_append, hq]

theorem find?_spawn_of_ne {proc : I.Proc} (ne : id ≠ c.next) : (c.spawn m proc).find? id = c.find? id := by
  simp [find?, spawn, List.find?_append, Ne.symm ne]

theorem Numbered.find?_next (numbered : c.Numbered) : c.find? c.next = none := by
  refine Option.map_eq_none_iff.mpr (List.find?_eq_none.mpr fun p hp => ?_)
  simpa using (numbered.below p hp).ne

theorem find?_spawn_self {proc : I.Proc} (numbered : c.Numbered) :
    (c.spawn m proc).find? c.next = some ⟨proc, m.body proc, .root proc⟩ := by
  have unused : c.flows.find? (·.1 = c.next) = none := Option.map_eq_none_iff.mp numbered.find?_next
  simp [find?, spawn, List.find?_append, unused]

/-- A flow stays where it is while others step. -/
theorem find?_step (ne : flow ≠ id) (hf : c.find? flow = some f) (h : m.step? c id pick = some d) :
    d.find? flow = some f := by
  obtain ⟨⟨proc, code, wait⟩, -, hs⟩ := Option.bind_eq_some_iff.mp h
  have updated : ∀ g, (c.update id g).find? flow = some f := fun g => (find?_update_of_ne ne).trans hf
  cases code with
  | done a =>
    cases wait with
    | root =>
      cases hs
      rw [find?_remove, if_neg ne, hf]
    | caller next below => cases hs; exact updated _
  | call => cases hs; exact updated _
  | fork other next => cases hs; exact find?_spawn (updated ⟨proc, next, wait⟩)
  | act action next =>
    simp only [Machine.stepFlow] at hs
    split at hs
    · cases hs
    · cases hs
      exact updated _

end Config

/-- What holds of the shared state and of the other flows while one flow is at work. -/
structure Situation (m : Machine I σ) (flow : Nat) where
  /-- The others have at most `n` steps to make. -/
  Holds (n : Nat) (c : Config I σ) : Prop
  update {n : Nat} {c : Config I σ} (f : Flow I) : Holds n c → Holds n (c.update flow f)
  others {n id : Nat} {c d : Config I σ} {pick : Bool} : Holds n c → id ≠ flow →
    m.step? c id pick = some d → ∃ k < n, Holds k d

namespace Situation

variable {flow : Nat} {P Q R : Situation m flow} {α β : Type}

/-- In one situation the flow at work may perform an action, which gives a reply and leads to another
situation. -/
def Acts (P : Situation m flow) (action : I.Action) (r : I.Reply action) (Q : Situation m flow) : Prop :=
  ∀ n c, P.Holds n c → ∃ s k, (∀ pick, m.perform flow pick action c.shared = some (r, s)) ∧
    Q.Holds k { c with shared := s }

/-- With the flow at work standing at some place, a goal is inevitable. -/
def Ensures (P : Situation m flow) (f : Flow I) (goal : Config I σ → Prop) : Prop :=
  ∀ n c, P.Holds n c → c.find? flow = some f → m.Inevitably goal c

/-- The flow at work inevitably comes to the end of a program, with a result and in another
situation. -/
def Leads (P : Situation m flow) (p : Program I α) (a : α) (Q : Situation m flow) : Prop :=
  ∀ (proc) (k : α → Program I (I.Result proc)) (wait : Waiting I proc) (goal : Config I σ → Prop),
    Q.Ensures ⟨proc, k a, wait⟩ goal → P.Ensures ⟨proc, p >>= k, wait⟩ goal

/-- The flow at work inevitably comes to the end of a program, in one of some ways. -/
def Reaches (P : Situation m flow) (p : Program I α) (Ends : α → Situation m flow → Prop) : Prop :=
  ∀ (proc) (k : α → Program I (I.Result proc)) (wait : Waiting I proc) (goal : Config I σ → Prop),
    (∀ a Q, Ends a Q → Q.Ensures ⟨proc, k a, wait⟩ goal) → P.Ensures ⟨proc, p >>= k, wait⟩ goal

/-- A goal is ensured if the flow at work has one step to make, which leads to it, whatever the others have
done before. -/
theorem ensures {goal : Config I σ → Prop} {f : Flow I}
    (moves : ∀ {k c}, P.Holds k c → c.find? flow = some f → ∃ d,
      (∀ pick, m.step? c flow pick = some d) ∧ m.Inevitably goal d) :
    P.Ensures f goal := by
  intro n c holds hf
  induction n using Nat.strong_induction_on generalizing c with
  | _ n ih =>
    obtain ⟨e, mine, then_⟩ := moves holds hf
    refine .later ⟨e, .flow flow false (mine false)⟩ ?_
    rintro d ⟨id, pick, hd⟩
    by_cases same : id = flow
    · subst same
      rw [mine pick] at hd
      cases hd
      exact then_
    · obtain ⟨k, less, now⟩ := P.others holds same hd
      exact ih k less _ now (Config.find?_step (Ne.symm same) hf hd)

namespace Ensures

variable {goal goal' : Config I σ → Prop} {proc callee : I.Proc} {wait : Waiting I proc}

theorem imp {f : Flow I} (h : P.Ensures f goal) (weaker : ∀ c, goal c → goal' c) : P.Ensures f goal' :=
  fun n c holds hf => (h n c holds hf).imp weaker

/-- A step that changes nothing but the place where the flow at work stands. -/
theorem goesOn {f g : Flow I} (goes : ∀ c pick, m.stepFlow c flow pick f = some (c.update flow g))
    (h : P.Ensures g goal) : P.Ensures f goal := by
  refine P.ensures fun {k c} now hc => ?_
  refine ⟨c.update flow g, fun pick => ?_, h k _ (P.update g now) (Config.find?_update_self hc)⟩
  rw [Machine.step?, hc]
  exact goes c pick

theorem enters {next : I.Result callee → Program I (I.Result proc)}
    (h : P.Ensures ⟨callee, m.body callee, .caller next wait⟩ goal) :
    P.Ensures ⟨proc, .call callee next, wait⟩ goal :=
  h.goesOn fun _ _ => rfl

theorem returns {a : I.Result callee} {next : I.Result callee → Program I (I.Result proc)}
    (h : P.Ensures ⟨proc, next a, wait⟩ goal) : P.Ensures ⟨callee, .done a, .caller next wait⟩ goal :=
  h.goesOn fun _ _ => rfl

/-- A step after which the situation may be one for another flow. -/
theorem act {action : I.Action} {next : I.Reply action → Program I (I.Result proc)}
    (h : ∀ {n c}, P.Holds n c → c.find? flow = some ⟨proc, .act action next, wait⟩ → ∃ r s,
      (∀ pick, m.perform flow pick action c.shared = some (r, s)) ∧
      m.Inevitably goal (Config.update { c with shared := s } flow ⟨proc, next r, wait⟩)) :
    P.Ensures ⟨proc, .act action next, wait⟩ goal := by
  refine P.ensures fun {k c} now hc => ?_
  obtain ⟨r, s, hs, after⟩ := h now hc
  refine ⟨_, fun pick => ?_, after⟩
  rw [Machine.step?, hc, Option.bind_some, Machine.stepFlow_act, hs pick]
  rfl

/-- A step that starts another flow. -/
theorem forks {other : I.Proc} {next : Program I (I.Result proc)}
    (h : ∀ {n c}, P.Holds n c → c.find? flow = some ⟨proc, .fork other next, wait⟩ →
      m.Inevitably goal ((c.update flow ⟨proc, next, wait⟩).spawn m other)) :
    P.Ensures ⟨proc, .fork other next, wait⟩ goal := by
  refine P.ensures fun {k c} now hc => ⟨_, fun pick => ?_, h now hc⟩
  rw [Machine.step?, hc]
  rfl

theorem performs {action : I.Action} {next : I.Reply action → Program I (I.Result proc)}
    {r : I.Reply action} (acts : P.Acts action r Q) (h : Q.Ensures ⟨proc, next r, wait⟩ goal) :
    P.Ensures ⟨proc, .act action next, wait⟩ goal := by
  refine .act fun {n c} now hc => ?_
  obtain ⟨s, l, hs, after⟩ := acts n c now
  exact ⟨r, s, hs, h l _ (Q.update _ after) (Config.find?_update_self (c := { c with shared := s }) hc)⟩

theorem leads {p : Program I α} {k : α → Program I (I.Result proc)} {a : α} (first : P.Leads p a Q)
    (h : Q.Ensures ⟨proc, k a, wait⟩ goal) : P.Ensures ⟨proc, p >>= k, wait⟩ goal :=
  first _ _ _ _ h

/-- A procedure goes on to its end. -/
theorem finishes {p : Program I (I.Result callee)} {next : I.Result callee → Program I (I.Result proc)}
    {b : I.Result callee} (inside : P.Leads p b Q) (h : Q.Ensures ⟨proc, next b, wait⟩ goal) :
    P.Ensures ⟨callee, p, .caller next wait⟩ goal := by
  rw [← Program.bind_done p]
  exact inside _ _ _ _ (.returns h)

theorem calls {next : I.Result callee → Program I (I.Result proc)} {b : I.Result callee}
    (inside : P.Leads (m.body callee) b Q) (h : Q.Ensures ⟨proc, next b, wait⟩ goal) :
    P.Ensures ⟨proc, .call callee next, wait⟩ goal :=
  .enters (.finishes inside h)

end Ensures

namespace Leads

theorem done (a : α) : P.Leads (.done a) a P := fun _ _ _ _ h => h

theorem bind {p : Program I α} {f : α → Program I β} {a : α} {b : β} (first : P.Leads p a Q)
    (rest : Q.Leads (f a) b R) : P.Leads (p >>= f) b R := by
  intro proc k wait goal h
  have assoc : (p >>= f) >>= k = p >>= fun a => f a >>= k := Program.bind_assoc p f k
  rw [assoc]
  exact first _ _ _ _ (rest _ _ _ _ h)

theorem act {action : I.Action} {next : I.Reply action → Program I α} {r : I.Reply action} {a : α}
    (acts : P.Acts action r Q) (rest : Q.Leads (next r) a R) : P.Leads (.act action next) a R :=
  fun _ _ _ _ h => Ensures.performs acts (rest _ _ _ _ h)

theorem call {callee : I.Proc} {next : I.Result callee → Program I α} {b : I.Result callee} {a : α}
    (inside : P.Leads (m.body callee) b Q) (rest : Q.Leads (next b) a R) :
    P.Leads (.call callee next) a R :=
  fun _ _ _ _ h => Ensures.calls inside (rest _ _ _ _ h)

theorem perform {action : I.Action} {f : I.Reply action → Program I α} {r : I.Reply action} {a : α}
    (acts : P.Acts action r Q) (rest : Q.Leads (f r) a R) : P.Leads (Program.perform action >>= f) a R :=
  act acts rest

theorem invoke {callee : I.Proc} {f : I.Result callee → Program I α} {b : I.Result callee} {a : α}
    (inside : P.Leads (m.body callee) b Q) (rest : Q.Leads (f b) a R) :
    P.Leads (Program.invoke callee >>= f) a R :=
  call inside rest

end Leads

namespace Reaches

variable {E : α → Situation m flow → Prop} {E' : β → Situation m flow → Prop}

theorem done {a : α} (h : E a P) : P.Reaches (.done a) E := fun _ _ _ _ next => next a P h

theorem bind {p : Program I α} {f : α → Program I β} (first : P.Reaches p E)
    (rest : ∀ a Q, E a Q → Q.Reaches (f a) E') : P.Reaches (p >>= f) E' := by
  intro proc k wait goal h
  have assoc : (p >>= f) >>= k = p >>= fun a => f a >>= k := Program.bind_assoc p f k
  rw [assoc]
  exact first _ _ _ _ fun a Q ends => rest a Q ends _ _ _ _ h

theorem of_leads {p : Program I α} {a : α} (h : P.Leads p a Q) (ends : E a Q) : P.Reaches p E :=
  fun _ _ _ _ next => h _ _ _ _ (next a Q ends)

/-- A program that is certain to end in one way comes first. -/
theorem leads {p : Program I α} {f : α → Program I β} {a : α} (first : P.Leads p a Q)
    (rest : Q.Reaches (f a) E') : P.Reaches (p >>= f) E' := by
  intro proc k wait goal h
  have assoc : (p >>= f) >>= k = p >>= fun a => f a >>= k := Program.bind_assoc p f k
  rw [assoc]
  exact first _ _ _ _ (rest _ _ _ _ h)

theorem perform {action : I.Action} {f : I.Reply action → Program I α} {r : I.Reply action}
    (acts : P.Acts action r Q) (rest : Q.Reaches (f r) E) : P.Reaches (Program.perform action >>= f) E :=
  fun _ _ _ _ h => Ensures.performs acts (rest _ _ _ _ h)

theorem invoke {callee : I.Proc} {f : I.Result callee → Program I β}
    {E : I.Result callee → Situation m flow → Prop} (inside : P.Reaches (m.body callee) E)
    (rest : ∀ b Q, E b Q → Q.Reaches (f b) E') : P.Reaches (Program.invoke callee >>= f) E' := by
  intro proc k wait goal h
  refine Ensures.enters ?_
  rw [← Program.bind_done (m.body callee)]
  exact inside _ _ _ _ fun b Q ends => Ensures.returns (rest b Q ends _ _ _ _ h)

end Reaches

end Situation

/-! ## Programs over values

Often the situations that a program leads through differ in a value only: what is known of the shared
state. What a program does to such values can then be said once, for every family of situations. -/

section Values

variable {V W : Type} {body : (proc : I.Proc) → Program I (I.Result proc)}
  {acts : (action : I.Action) → V → I.Reply action → V → Prop}

/-- What a program gives and makes of a value, by what actions give and make of it. -/
inductive Program.Evaluates (body : (proc : I.Proc) → Program I (I.Result proc))
    (acts : (action : I.Action) → V → I.Reply action → V → Prop) :
    {α : Type} → Program I α → V → α → V → Prop where
  | done {α : Type} (a : α) (v : V) : Evaluates body acts (.done a) v a v
  | act {α : Type} {action : I.Action} {next : I.Reply action → Program I α} {r : I.Reply action}
      {u v w : V} {a : α} : acts action u r v → Evaluates body acts (next r) v a w →
      Evaluates body acts (.act action next) u a w
  | call {α : Type} {proc : I.Proc} {next : I.Result proc → Program I α} {b : I.Result proc}
      {u v w : V} {a : α} : Evaluates body acts (body proc) u b v → Evaluates body acts (next b) v a w →
      Evaluates body acts (.call proc next) u a w

namespace Program.Evaluates

variable {α β : Type} {u v w : V}

theorem bind {p : Program I α} {f : α → Program I β} {a : α} {b : β} (first : p.Evaluates body acts u a v)
    (rest : (f a).Evaluates body acts v b w) : (p >>= f).Evaluates body acts u b w := by
  induction first with
  | done => exact rest
  | act h _ ih => exact .act h (ih rest)
  | call inside _ _ ih => exact .call inside (ih rest)

theorem perform {action : I.Action} {f : I.Reply action → Program I α} {r : I.Reply action} {a : α}
    (h : acts action u r v) (rest : (f r).Evaluates body acts v a w) :
    (Program.perform action >>= f).Evaluates body acts u a w :=
  .act h rest

theorem invoke {proc : I.Proc} {f : I.Result proc → Program I α} {b : I.Result proc} {a : α}
    (inside : (body proc).Evaluates body acts u b v) (rest : (f b).Evaluates body acts v a w) :
    (Program.invoke proc >>= f).Evaluates body acts u a w :=
  .call inside rest

/-- What a program makes of a value need not be said beforehand; it comes out step by step. -/
theorem exists_act {action : I.Action} {next : I.Reply action → Program I α} {r : I.Reply action} {a : α}
    {Q : V → Prop} (h : acts action u r v) (rest : ∃ w, (next r).Evaluates body acts v a w ∧ Q w) :
    ∃ w, (Program.act action next).Evaluates body acts u a w ∧ Q w :=
  let ⟨w, evaluates, hw⟩ := rest
  ⟨w, .act h evaluates, hw⟩

theorem exists_call {proc : I.Proc} {next : I.Result proc → Program I α} {b : I.Result proc} {a : α}
    {Q : V → Prop} (inside : (body proc).Evaluates body acts u b v)
    (rest : ∃ w, (next b).Evaluates body acts v a w ∧ Q w) :
    ∃ w, (Program.call proc next).Evaluates body acts u a w ∧ Q w :=
  let ⟨w, evaluates, hw⟩ := rest
  ⟨w, .call inside evaluates, hw⟩

/-- What actions make of one value they may make of another that it is a part of. -/
theorem lift {acts' : (action : I.Action) → W → I.Reply action → W → Prop} (part : V → W)
    (sound : ∀ {action v r w}, acts action v r w → acts' action (part v) r (part w)) {p : Program I α}
    {a : α} (h : p.Evaluates body acts u a v) : p.Evaluates body acts' (part u) a (part v) := by
  induction h with
  | done => exact .done _ _
  | act h _ ih => exact .act (sound h) ih
  | call _ _ ihb ih => exact .call ihb ih

/-- What a program makes of a value, a machine with that program inevitably makes of it. -/
theorem leads {acts : (action : I.Action) → V → I.Reply action → V → Prop} {flow : Nat}
    (situation : V → Situation m flow)
    (sound : ∀ {action v r w}, acts action v r w → (situation v).Acts action r (situation w))
    {p : Program I α} {a : α} (h : p.Evaluates m.body acts u a v) :
    (situation u).Leads p a (situation v) := by
  induction h with
  | done => exact Situation.Leads.done _
  | act h _ ih => exact Situation.Leads.act (sound h) ih
  | call _ _ ihb ih => exact Situation.Leads.call ihb ih

end Program.Evaluates

end Values

end SessionBroker
