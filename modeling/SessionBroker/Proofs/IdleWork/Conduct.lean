import SessionBroker.Proofs.Taskless
import SessionBroker.Proofs.Ways

/-!
# What is done with idle tasks

A pass of the pump takes at most one task, and keeps the promise of that task with what the task yields.
Nobody else takes tasks, and other promises are kept by the threads of nested prompts, each by the one that
was started for it.
-/

namespace SessionBroker

/-- Whatever has been done, was allowed by what was remembered of the deeds before. -/
theorem Lore.acts_of_followed {I : Interface} {σ M : Type} {L : Lore I σ M}
    {heed : (callee : I.Proc) → I.Result callee → M → M} {ds : List (Deed I σ)} {k : M}
    (followed : L.Followed heed ds k) {a : Act I σ} (here : .act a ∈ ds) :
    ∃ older newer, ds = newer ++ .act a :: older ∧ L.acts a.action (L.remembered heed older k) ∧
      L.Followed heed older k := by
  induction ds with
  | nil => cases here
  | cons d ds ih =>
    rcases List.mem_cons.mp here with rfl | older
    · exact ⟨ds, [], rfl, followed⟩
    · have before : L.Followed heed ds k := by
        cases d <;> exact followed.2
      obtain ⟨rest, newer, rfl, allowed⟩ := ih before older
      exact ⟨rest, d :: newer, rfl, allowed⟩

namespace IdleWork

/-- What a procedure has done about tasks and promises. -/
inductive Errand where
  | took (task : Option IdleTask)
  | kept (promise : Nat) (payload : Payload)
  | made (promise : Nat)

def errand? : (action : Action) → action.Reply → Option Errand
  | .idle .take, task => some (.took task)
  | .broker (.keep promise payload), _ => some (.kept promise payload)
  | .broker .promise, promise => some (.made promise)
  | _, _ => none

/-- The errands among the deeds of a procedure, the last one first. -/
def errands (ds : List (Deed brokerInterface World)) : List Errand :=
  (ds.filterMap Deed.act?).filterMap fun a => errand? a.action a.reply

/-- What the promise of a task may be kept with. -/
def Yields : IdleWork → Payload → Prop
  | .command .., payload => ∃ r, payload = .response r
  | .action _, payload => ∃ v, payload = .value v
  | .rehearsal _ _ v, payload => payload = .value (some v)

/-- When a procedure may do something about tasks and promises. -/
def may (proc : Proc) : Action → List Errand → Prop
  | .idle .take, k => proc = .pump ∧ k = []
  | .broker (.keep promise payload), k =>
    (proc = .pump ∧ ∃ t, k = [.took (some t)] ∧ t.promise = promise ∧ Yields t.work payload) ∨
      ∃ frame, proc = .nestedPrompt frame promise
  | .broker .promise, _ => proc ≠ .pump
  | _, _ => True

def lore (proc : Proc) : Lore brokerInterface World (List Errand) where
  blank := []
  note action r _ k := (errand? action r).toList ++ k
  acts := may proc
  calls callee _ := callee.isTaskless
  starts other k := ∀ frame promise, other = .nestedPrompt frame promise → .made promise ∈ k
  back _ k _ k' := k' = k

/-- What a procedure has done once it returns. -/
def Settled : (proc : Proc) → proc.Result → List Errand → Prop
  | .pump, n, k => (k = [.took none] ∧ n = 0) ∨ ∃ t payload, k = [.kept t.promise payload, .took (some t)] ∧ 0 < n
  | _, _, _ => True

section Programs

variable {α : Type} {p : Code α} {proc : Proc} {k : List Errand}

theorem minds_taskless (other : proc ≠ .pump) (taskless : p.Taskless) :
    p.Minds (lore proc) brokerMachine (fun _ _ => True) k := by
  refine Program.Within.minds (K := fun _ => True) (S := tasklessScope) ?acts ?calls ?starts taskless trivial
  case acts =>
    intro action k allowed _
    refine ⟨?_, fun _ _ => trivial⟩
    rcases action with _ | _ | _ | op | _ | op
    case idle => cases op <;> trivial
    case broker => cases op <;> trivial
    all_goals trivial
  case calls => exact fun callee k allowed _ => ⟨allowed, fun _ _ _ => trivial⟩
  case starts =>
    rintro _ k allowed _ frame promise rfl
    cases allowed

end Programs

/-- What a task does, and that its promise is kept. -/
theorem minds_work (t : IdleTask) : (Reading.work t).Minds (lore .pump) brokerMachine
    (fun _ k => ∃ payload, k = [.kept t.promise payload, .took (some t)]) [.took (some t)] := by
  obtain ⟨promise, work⟩ := t
  cases work with
  | command frame e q =>
    refine ⟨rfl, ?_⟩
    rintro r _ rfl
    exact ⟨.inl ⟨rfl, _, rfl, rfl, r, rfl⟩, fun _ _ _ _ _ _ => ⟨_, rfl⟩⟩
  | action n =>
    refine ⟨trivial, fun _ _ _ taken _ _ => ?_⟩
    cases taken with
    | none => exact ⟨.inl ⟨rfl, _, rfl, rfl, _, rfl⟩, fun _ _ _ _ _ _ => ⟨_, rfl⟩⟩
    | some v =>
      refine ⟨rfl, ?_⟩
      rintro r _ rfl
      exact ⟨.inl ⟨rfl, _, rfl, rfl, _, rfl⟩, fun _ _ _ _ _ _ => ⟨_, rfl⟩⟩
  | rehearsal name inner v =>
    refine ⟨trivial, fun _ _ _ active _ _ => ⟨trivial, fun _ _ _ invoking _ _ => ⟨trivial, fun _ _ _ _ _ _ => ?_⟩⟩⟩
    refine ⟨rfl, ?_⟩
    rintro r _ rfl
    exact ⟨.inl ⟨rfl, _, rfl, rfl, rfl⟩, fun _ _ _ _ _ _ => ⟨_, rfl⟩⟩

theorem minds_pump : Reading.pump.Minds (lore .pump) brokerMachine (Settled .pump) [] := by
  refine ⟨⟨rfl, rfl⟩, fun _ _ _ task _ _ => ?_⟩
  cases task with
  | none => exact .inl ⟨rfl, rfl⟩
  | some t =>
    refine ⟨trivial, fun _ _ _ _ _ _ => (minds_work t).bind ?_⟩
    rintro _ _ ⟨payload, rfl⟩
    refine ⟨trivial, fun _ _ _ _ _ _ => ⟨rfl, ?_⟩⟩
    rintro more _ rfl
    exact .inr ⟨t, payload, rfl, Nat.succ_pos more⟩

/-- The thread of a nested prompt keeps the promise that it was started with. -/
theorem minds_promptThread (frame : FrameRef) (promise : Nat) :
    (Debugging.promptThread frame promise).Minds (lore (.nestedPrompt frame promise)) brokerMachine
      (fun _ _ => True) [] := by
  refine ⟨rfl, ?_⟩
  rintro action _ rfl
  refine (minds_taskless (by simp) (Aborting.taskless_popFrame frame.id)).bind fun _ k _ => ?_
  exact ⟨.inr ⟨frame, rfl⟩, fun _ _ _ _ _ _ => minds_taskless (by simp) (Program.taskless_broker rfl)⟩

/-- Who enters a nested prompt makes a promise, and starts a thread that is to keep it. -/
theorem minds_enterPrompt (name : String) :
    Debugging.enterPrompt.Minds (lore (.serveClient name .enterNestedPrompt)) brokerMachine
      (fun _ _ => True) [] := by
  have taskless : ∀ {α : Type} {p : Code α} {k : List Errand}, p.Taskless →
      p.Minds (lore (.serveClient name .enterNestedPrompt)) brokerMachine (fun _ _ => True) k :=
    fun h => minds_taskless (by simp) h
  refine ⟨trivial, fun _ _ _ phase _ _ => ?_⟩
  simp only [Program.done_bind]
  split
  · trivial
  · refine (taskless SessionChanges.taskless_current).bind fun session k _ => ?_
    refine ⟨trivial, fun _ _ _ frame _ _ => ⟨by simp [lore, may], fun _ _ _ promise _ _ => ?_⟩⟩
    refine ⟨trivial, fun _ _ _ _ _ _ => ⟨?_, ?_⟩⟩
    swap
    · exact taskless (.bind trivial fun _ => .bind (Program.taskless_broker rfl) fun _ => trivial)
    rintro _ _ ⟨⟩
    exact List.mem_cons_self

/-- All procedures mind what they may do about tasks and promises. -/
theorem minds_body (proc : Proc) : (body proc).Minds (lore proc) brokerMachine (Settled proc) [] := by
  by_cases runner : proc = .pump
  · subst runner
    exact minds_pump
  · have settled : ∀ r k, Settled proc r k := by
      intro r k
      cases proc <;> first | exact absurd rfl runner | trivial
    suffices minds : (body proc).Minds (lore proc) brokerMachine (fun _ _ => True) [] from
      minds.imp fun r k _ => settled r k
    by_cases thread : ∃ frame promise, proc = .nestedPrompt frame promise
    · obtain ⟨frame, promise, rfl⟩ := thread
      exact minds_promptThread frame promise
    · by_cases starter : ∃ name, proc = .serveClient name .enterNestedPrompt
      · obtain ⟨name, rfl⟩ := starter
        refine ⟨trivial, fun _ _ _ _ _ _ => ?_⟩
        have handled : (Clients.handle .enterNestedPrompt).Minds (lore (.serveClient name .enterNestedPrompt))
            brokerMachine (fun _ _ => True) [] := (minds_enterPrompt name).bind fun r k _ => trivial
        exact handled.bind fun report k _ => minds_taskless runner (by grind)
      · push Not at thread starter
        exact minds_taskless runner (taskless_body runner thread starter)

/-! ## What has been done -/

section Ways

variable {flow : Nat} {proc : Proc} {ds : List (Deed brokerInterface World)}

theorem errands_cons (a : Act brokerInterface World) (ds : List (Deed brokerInterface World)) :
    errands (.act a :: ds) = (errand? a.action a.reply).toList ++ errands ds := by
  simp only [errands, List.filterMap_cons, Deed.act?]
  cases errand? a.action a.reply <;> rfl

theorem remembered_eq (ds : List (Deed brokerInterface World)) :
    (lore proc).remembered (fun _ _ k => k) ds [] = errands ds := by
  induction ds with
  | nil => rfl
  | cons d ds ih =>
    cases d with
    | act a => exact (congrArg ((errand? a.action a.reply).toList ++ ·) ih).trans (errands_cons a ds).symm
    | call | start => exact ih

theorem minds_of_leads {q : Code proc.Result} (leads : (body proc).Leads brokerMachine flow proc ds q) :
    q.Minds (lore proc) brokerMachine (Settled proc) (errands ds) ∧
      (lore proc).Followed (fun _ _ k => k) ds [] := by
  have minds : _ ∧ _ := Lore.minds_leads (fun _ _ _ => rfl) (minds_body proc) leads
  rwa [remembered_eq] at minds

/-- A pass of the pump takes one task and keeps its promise, and nothing else. -/
theorem errands_pump {q : Code Nat} (leads : (body .pump).Leads brokerMachine flow .pump ds q) :
    errands ds = [] ∨ (∃ task, errands ds = [.took task]) ∨
      ∃ t payload, errands ds = [.kept t.promise payload, .took (some t)] ∧ Yields t.work payload := by
  have followed := (minds_of_leads leads).2
  clear leads
  induction ds with
  | nil => exact .inl rfl
  | cons d ds ih =>
    cases d with
    | call | start => exact ih followed.2
    | act a =>
      obtain ⟨allowed, before⟩ := followed
      rw [remembered_eq] at allowed
      rw [errands_cons]
      obtain ⟨_, _, action, reply, _, _⟩ := a
      rcases action with _ | _ | _ | op | _ | op
      case idle =>
        cases op
        case take => exact .inr (.inl ⟨reply, by rw [(show errands ds = [] from allowed.2)]; rfl⟩)
        all_goals exact ih before
      case broker =>
        cases op
        case keep promise payload =>
          rcases allowed with ⟨-, t, only, rfl, yields⟩ | ⟨frame, other⟩
          · exact .inr (.inr ⟨t, payload, by rw [only]; rfl, yields⟩)
          · cases other
        case promise => exact absurd rfl allowed
        all_goals exact ih before
      all_goals exact ih before

/-- Whatever has been done, could be done after the deeds before it. -/
theorem may_of_mem {q : Code proc.Result} (leads : (body proc).Leads brokerMachine flow proc ds q)
    {a : Act brokerInterface World} (here : .act a ∈ ds) :
    ∃ older newer, ds = newer ++ .act a :: older ∧ may proc a.action (errands older) := by
  obtain ⟨older, newer, split, allowed, -⟩ := Lore.acts_of_followed (minds_of_leads leads).2 here
  rw [remembered_eq] at allowed
  exact ⟨older, newer, split, allowed⟩

theorem mem_errands {e : Errand} :
    e ∈ errands ds ↔ ∃ a, .act a ∈ ds ∧ errand? a.action a.reply = some e := by
  simp [errands, Deed.act?_eq_some]

end Ways

end IdleWork

end SessionBroker
