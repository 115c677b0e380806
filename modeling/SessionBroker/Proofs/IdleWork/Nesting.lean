import SessionBroker.Proofs.IdleWork.Queue
import SessionBroker.Proofs.Sections

/-!
# Tasks within tasks

A pump announces that it runs a task, and takes that back when the task has come to its end. A task may itself
pump, and several read loops may pump at a time, so that tasks are run within tasks and side by side. All of them
share one announcement, and the first one to come to its end takes it back.
-/

namespace SessionBroker.IdleWork

/-! ## The announcement -/

theorem action_of_announces {action : Action} {b : Bool} (announced : announces action = some b) :
    action = .idle (.setInvoking b) := by
  rcases action with _ | _ | _ | op | _ | _
  case idle => cases op <;> cases announced; rfl
  all_goals cases announced

/-- The announcement that a task is run. -/
def announcement : Flag where
  sets := announces
  isUp w := w.idle.invoking
  hasSection
    | .pump => true
    | _ => false
  signals announced := by
    rw [action_of_announces announced]
    rfl

/-- The work of a task announces nothing itself. -/
theorem silent_work (task : IdleTask) : (Reading.work task).Gives fun action => announcement.sets action = none :=
  Reading.gives_work fun _ _ _ _ => rfl

/-- A pump announces each task that it runs, and takes that back. -/
theorem minds_announcement : Reading.pump.Minds announcement.lore brokerMachine (fun _ k => k ≠ [true]) [] := by
  refine ⟨⟨nofun, nofun⟩, fun _ _ _ task _ _ => ?_⟩
  cases task with
  | none => exact nofun
  | some t =>
    refine Flag.minds_bracket rfl rfl (silent_work t) fun _ => ?_
    exact .bind (Program.silent_invoke rfl) fun _ => trivial

theorem announcement_lawful : announcement.IsLawful where
  perform performed := (flags_perform performed).2
  apply change w := congrArg IdleQueue.invoking (Outside.idle_apply change w).1
  new _ _ _ _ := rfl
  bodies proc has := by
    cases proc
    case pump => exact minds_announcement
    all_goals cases has

/-! ## Tasks that are run -/

/-- Somebody runs a task: he is a pump that has taken the task and announced it, and what he has done since was
the task's work, all of it at most. -/
def Performs (flow : Nat) (t : Track brokerInterface World) (task : IdleTask) : Prop :=
  ∃ took since, t = ⟨.pump, since ++ [.act took]⟩ ∧ started? took = some task ∧
    Flag.During (.idle (.setInvoking true)) (Reading.work task) flow .pump since

/-- A task is run at a moment. -/
def IsRun (c : Chronicle) (task : IdleTask) : Prop := ∃ flow, ∃ t ∈ c.tracks flow, Performs flow t task

section Performs

variable {c : Chronicle} {flow : Nat} {task : IdleTask}

theorem sets_of_started {took : Act brokerInterface World} (started : started? took = some task) :
    announcement.sets took.action = none := by
  rcases took with ⟨_, _, _ | _ | _ | op | _ | _, _, _, _⟩
  case idle => cases op <;> first | rfl | cases started
  all_goals cases started

/-- To take a task is not to announce it. -/
theorem marks_of_took {took : Act brokerInterface World} (since : List (Deed brokerInterface World))
    (silent : announcement.sets took.action = none) :
    announcement.marks (since ++ [.act took]) = announcement.marks since := by
  rw [Flag.marks_append, Flag.marks_cons, silent]
  exact List.append_nil _

/-- Pumps that have announced a task are those that run one. -/
theorem performs_of_marks {ds : List (Deed brokerInterface World)} {q : Code Nat}
    (leads : (body .pump).Leads brokerMachine flow .pump ds q) (marked : announcement.marks ds = [true]) :
    ∃ task, Performs flow ⟨.pump, ds⟩ task := by
  -- A pump that has looked for no task yet, or has found none, has announced none.
  rcases leads.of_perform with rfl | ⟨o, _, _, since, rfl, took⟩
  · cases marked
  cases o with
  | none =>
    obtain ⟨rfl, -⟩ := Program.Leads.of_done took
    cases marked
  | some t =>
    rw [marks_of_took since rfl] at marked
    have during := (Flag.marks_iff rfl rfl (silent_work t) took).mp marked
    exact ⟨t, _, since, rfl, rfl, during⟩

/-- A procedure is in its section just if it runs a task. -/
theorem isInside_iff {t : Track brokerInterface World} {q : Code t.proc.Result}
    (leads : (body t.proc).Leads brokerMachine flow t.proc t.deeds q) :
    announcement.isInside t = true ↔ ∃ task, Performs flow t task := by
  constructor
  · intro inside
    obtain ⟨proc, ds⟩ := t
    obtain ⟨has, marked⟩ := Bool.and_eq_true_iff.mp inside
    cases proc
    case pump => exact performs_of_marks leads (of_decide_eq_true marked)
    all_goals cases has
  · rintro ⟨task, took, since, rfl, started, during⟩
    refine decide_eq_true ?_
    rw [marks_of_took since (sets_of_started started)]
    exact during.marks rfl (silent_work task)

/-- Somebody is in his section just if a task is run. -/
theorem isBusy_iff (faithful : c.Faithful) : announcement.IsBusy c ↔ ∃ task, IsRun c task := by
  constructor
  · rintro ⟨flow, t, here, inside⟩
    obtain ⟨q, leads⟩ := faithful.fits.leads here
    obtain ⟨task, performs⟩ := (isInside_iff leads).mp inside
    exact ⟨task, flow, t, here, performs⟩
  · rintro ⟨task, flow, t, here, performs⟩
    obtain ⟨q, leads⟩ := faithful.fits.leads here
    exact ⟨flow, t, here, (isInside_iff leads).mpr ⟨task, performs⟩⟩

end Performs

/-! ## What is announced -/

section Announced

variable {c : Chronicle}

/-- Nobody but a pump announces tasks. -/
theorem pump_of_announces (faithful : c.Faithful) {a : Act brokerInterface World} {b : Bool} (logged : a ∈ c.log)
    (sets : announcement.sets a.action = some b) : a.proc = .pump := by
  have gives := faithful.gives logged (announcement.signals sets)
  rw [action_of_announces sets] at gives
  generalize a.proc = who at gives
  cases gives
  rfl

theorem announcement_reserved (faithful : c.Faithful) : announcement.IsReserved c.log := by
  intro a logged isSome
  obtain ⟨b, sets⟩ := Option.isSome_iff_exists.mp isSome
  rw [pump_of_announces faithful logged sets]
  rfl

/-- What is announced of the tasks that are run. -/
structure Announced (c : Chronicle) : Prop where
  /-- A task is announced only while one is run. -/
  sound : c.world.idle.invoking = true → ∃ task, IsRun c task
  /-- While a task is run, one is announced just if none came to its end last while another one was run. -/
  exact : (∃ task, IsRun c task) → c.world.idle.invoking = announcement.endedAlone c.log
  /-- While one is announced, nobody is told that a task would run at once. -/
  busy : c.world.idle.invoking = true → c.world.idle.canRun = false
  /-- If none is announced while a task is run, another one has come to its end since this one began. -/
  hidden : c.world.idle.invoking = false → ∀ flow t task, t ∈ c.tracks flow → Performs flow t task →
    ∃ late ended early, c.log = late ++ ended :: early ∧ ended.proc = .pump ∧
      ended.action = .idle (.setInvoking false) ∧ .act ended ∉ t.deeds ∧
      ∃ begun ∈ early, .act begun ∈ t.deeds ∧ begun.action = .idle (.setInvoking true)

/-- Whatever happens, and however tasks pump within tasks, a task is announced from the moment it begins until
the next one comes to its end. -/
theorem tasks_announced (settings : BrokerSettings) (endpoints : List (EngineName × Endpoint)) (main : EngineName)
    (host : Host) (ms : List Move) : Announced ((Chronicle.new settings endpoints main host).moves ms) := by
  have faithful := Chronicle.faithful_moves (Chronicle.faithful_new settings endpoints main host) ms
  have stands := Flag.stands_moves announcement_lawful settings endpoints main host ms
  generalize (Chronicle.new settings endpoints main host).moves ms = c at faithful stands
  have reserved := announcement_reserved faithful
  refine ⟨?sound, ?exact, ?busy, ?hidden⟩
  case sound => exact fun up => (isBusy_iff faithful).mp (stands.isBusy reserved up)
  case exact => exact fun run => stands.isUp_of_isBusy reserved ((isBusy_iff faithful).mpr run)
  case busy =>
    intro up
    simp [IdleQueue.canRun, up]
  case hidden =>
    intro down flow t task here performs
    obtain ⟨q, leads⟩ := faithful.fits.leads here
    obtain ⟨late, ended, early, log, lowers, other, begun, older, did, raises⟩ :=
      stands.hidden faithful down here ((isInside_iff leads).mpr ⟨task, performs⟩)
    exact ⟨late, ended, early, log, pump_of_announces faithful (by simp [log]) lowers, action_of_announces lowers,
      other, begun, older, did, action_of_announces raises⟩

end Announced

/-! ### A task that pumps -/

/-- A task schedules another one and pumps, and the one who runs it has made some turns. -/
def pumpsWithin (n : Nat) : Chronicle :=
  (Chronicle.new .standard [] "main" .new).moves <|
    [.arrive "begin" (.idleStep (.setActive true))] ++ turns 0 10
      ++ [.arrive "plan" (.idleStep (.schedule "outer" [.schedule "inner" [], .pump]))] ++ turns 1 10
      ++ [.arrive "pump" (.idleStep .pump)] ++ turns 2 n

/-- A task is run if somebody in some flow is in his section. -/
theorem isRun_of_any {c : Chronicle} (faithful : c.Faithful) (flow : Nat)
    (inside : (c.tracks flow).any announcement.isInside = true) : ∃ task, IsRun c task :=
  have ⟨t, here, within⟩ := List.any_eq_true.mp inside
  (isBusy_iff faithful).mp ⟨flow, t, here, within⟩

/-- As long as the inner task has not come to its end, a task is announced. -/
theorem tasks_announced_within : (∃ task, IsRun (pumpsWithin 19) task) ∧ (pumpsWithin 19).world.idle.invoking = true ∧
    (pumpsWithin 19).world.idle.canRun = false := by
  have faithful : (pumpsWithin 19).Faithful := Chronicle.faithful_moves (Chronicle.faithful_new ..) _
  have announced : Announced (pumpsWithin 19) := tasks_announced .standard [] "main" .new _
  have run := isRun_of_any faithful 2 (by decide +kernel)
  have alone : announcement.endedAlone (pumpsWithin 19).log = true := by decide +kernel
  have up := (announced.exact run).trans alone
  exact ⟨run, up, announced.busy up⟩

/-- It is not so that a task is announced while one is run: once the inner task has come to its end, none is, and
the outer one is run still. -/
theorem unannounced_outer : (∃ task, IsRun (pumpsWithin 28) task) ∧
    (pumpsWithin 28).world.idle.invoking = false ∧ (pumpsWithin 28).world.idle.canRun = true := by
  have faithful : (pumpsWithin 28).Faithful := Chronicle.faithful_moves (Chronicle.faithful_new ..) _
  exact ⟨isRun_of_any faithful 2 (by decide +kernel), by decide +kernel, by decide +kernel⟩

end SessionBroker.IdleWork
