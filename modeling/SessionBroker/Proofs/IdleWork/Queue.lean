import SessionBroker.Proofs.Parts
import SessionBroker.Proofs.Ways

/-!
# What enters and leaves the idle queue

Tasks enter the queue where they are accepted, and leave it where they are started or discarded. Whatever
happens, the tasks accepted are those that have left, in their order, and behind them those that wait.
-/

namespace SessionBroker.IdleWork

/-- The task that a step puts into the queue. -/
def accepts : (action : Action) → action.Reply → Option IdleTask
  | .idle (.schedule work), some promise => some ⟨promise, work⟩
  | _, _ => none

/-- The task that a step takes from the queue to run it. -/
def starts : (action : Action) → action.Reply → Option IdleTask
  | .idle .take, task => task
  | _, _ => none

/-- The tasks that a step drops from the queue. -/
def discards : Action → World → List IdleTask
  | .idle (.setActive false), w => w.idle.tasks
  | _, _ => []

/-- What a step says of whether the loop is active. -/
def activates : Action → Option Bool
  | .idle (.setActive active) => some active
  | _ => none

/-- What a step says of whether a task is run. -/
def announces : Action → Option Bool
  | .idle (.setInvoking invoking) => some invoking
  | _ => none

/-- What a step writes into a promise that has been made. -/
def writes : Action → World → Nat → Option Promise
  | .broker (.keep promise payload), _, p => if promise = p then some (.kept payload) else none
  | .idle (.setActive false), w, p => if p ∈ w.idle.tasks.map (·.promise) then some .broken else none
  | _, _, _ => none

/-- The number of a promise that a step makes for other purposes than an idle task. -/
def makes : (action : Action) → action.Reply → Option Nat
  | .broker .promise, promise => some promise
  | _, _ => none

section Steps

variable {w u : World} {flow : Nat} {pick : Bool} {action : Action} {r : action.Reply}

/-! ### The steps on the queue -/

theorem performs_resume {r : Unit} (performed : World.perform flow pick (.idle (.setActive true)) w = some (r, u)) :
    u.idle = { w.idle with active := true } ∧ u.promises = w.promises := by
  cases performed
  exact ⟨rfl, rfl⟩

theorem performs_suspend {r : Unit} (performed : World.perform flow pick (.idle (.setActive false)) w = some (r, u)) :
    u.idle = { w.idle with active := false, tasks := [] } ∧
      u.promises = World.breakAll w.promises w.idle.tasks := by
  obtain rfl := congrArg Prod.snd (Option.some.inj performed)
  exact ⟨congrArg World.idle (World.discard_eq w.idle.tasks), congrArg Ledger.promises (World.ledger_discard w.idle.tasks)⟩

theorem performs_schedule {work : IdleWork} {r : Option Nat}
    (performed : World.perform flow pick (.idle (.schedule work)) w = some (r, u)) :
    (w.idle.active = true ∧ r = some w.promises.length ∧
        u.idle = { w.idle with tasks := w.idle.tasks ++ [⟨w.promises.length, work⟩] } ∧
        u.promises = w.promises ++ [.open]) ∨
      w.idle.active = false ∧ r = none ∧ u = w := by
  simp only [World.perform, World.performIdle, IdleQueue.schedule] at performed
  cases active : w.idle.active with
  | true =>
    simp only [active, if_true] at performed
    cases performed
    exact .inl ⟨rfl, rfl, by rw [← active], rfl⟩
  | false =>
    simp only [active, Bool.false_eq_true, if_false] at performed
    cases performed
    exact .inr ⟨rfl, rfl, rfl⟩

theorem performs_take {r : Option IdleTask} (performed : World.perform flow pick (.idle .take) w = some (r, u)) :
    (∃ t rest, w.idle.tasks = t :: rest ∧ r = some t ∧ u.idle = { w.idle with tasks := rest } ∧
        u.promises = w.promises) ∨
      w.idle.tasks = [] ∧ r = none ∧ u = w := by
  simp only [World.perform, World.performIdle, IdleQueue.take] at performed
  cases waiting : w.idle.tasks with
  | nil =>
    simp only [waiting] at performed
    cases performed
    exact .inr ⟨rfl, rfl, rfl⟩
  | cons t rest =>
    simp only [waiting] at performed
    cases performed
    exact .inl ⟨t, rest, rfl, rfl, rfl, rfl⟩

/-! ### What a step does to the queue -/

/-- What is accepted goes behind those that wait, and what leaves is in front. -/
theorem tasks_perform (performed : World.perform flow pick action w = some (r, u)) :
    w.idle.tasks ++ (accepts action r).toList =
      (starts action r).toList ++ discards action w ++ u.idle.tasks := by
  cases action with
  | idle op =>
    cases op with
    | isActive | isInvoking | setInvoking => cases performed; simp [accepts, starts, discards, IdleQueue.setInvoking]
    | setActive active =>
      cases active with
      | true => simp [accepts, starts, discards, performs_resume performed]
      | false => simp [accepts, starts, discards, performs_suspend performed]
    | schedule work =>
      rcases performs_schedule performed with ⟨-, rfl, idle, -⟩ | ⟨-, rfl, rfl⟩
      · simp [accepts, starts, discards, idle]
      · simp [accepts, starts, discards]
    | take =>
      rcases performs_take performed with ⟨t, rest, waiting, rfl, idle, -⟩ | ⟨empty, rfl, rfl⟩
      · simp [accepts, starts, discards, waiting, idle]
      · simp [accepts, starts, discards]
  | _ =>
    have same := (World.unmoved_perform performed).idle (by simp)
    simp [accepts, starts, discards, same]

/-- The queue believes what it is told of the loop. -/
theorem flags_perform (performed : World.perform flow pick action w = some (r, u)) :
    u.idle.active = (activates action).getD w.idle.active ∧
      u.idle.invoking = (announces action).getD w.idle.invoking := by
  cases action with
  | idle op =>
    cases op with
    | isActive | isInvoking | setInvoking => cases performed; exact ⟨rfl, rfl⟩
    | setActive active =>
      cases active with
      | true => simp [activates, announces, performs_resume performed]
      | false => simp [activates, announces, performs_suspend performed]
    | schedule work =>
      rcases performs_schedule performed with ⟨-, -, idle, -⟩ | ⟨-, -, rfl⟩
      · simp [activates, announces, idle]
      · exact ⟨rfl, rfl⟩
    | take =>
      rcases performs_take performed with ⟨t, rest, -, -, idle, -⟩ | ⟨-, -, rfl⟩
      · simp [activates, announces, idle]
      · exact ⟨rfl, rfl⟩
  | _ =>
    have same := (World.unmoved_perform performed).idle (by simp)
    simp [activates, announces, same]

/-- Nothing waits unless the loop is active. -/
theorem inactive_perform (performed : World.perform flow pick action w = some (r, u))
    (empty : w.idle.active = false → w.idle.tasks = []) : u.idle.active = false → u.idle.tasks = [] := by
  cases action with
  | idle op =>
    cases op with
    | isActive | isInvoking | setInvoking => cases performed; exact empty
    | setActive active =>
      cases active with
      | true => simp [performs_resume performed]
      | false => simp [performs_suspend performed]
    | schedule work =>
      rcases performs_schedule performed with ⟨active, -, idle, -⟩ | ⟨-, -, rfl⟩
      · simp [idle, active]
      · exact empty
    | take =>
      rcases performs_take performed with ⟨t, rest, waiting, -, idle, -⟩ | ⟨-, -, rfl⟩
      · intro inactive
        simp only [idle] at inactive
        simp [empty inactive] at waiting
      · exact empty
  | _ => rwa [(World.unmoved_perform performed).idle (by simp)]

/-! ### What a step does to promises -/

/-- A promise is given a number that no promise had. -/
theorem promise_of_accepts {t : IdleTask} (performed : World.perform flow pick action w = some (r, u))
    (accepted : accepts action r = some t) :
    t.promise = w.promises.length ∧ u.promises = w.promises ++ [.open] := by
  rcases action with _ | _ | _ | op | _ | _
  case idle =>
    cases op
    case schedule work =>
      rcases performs_schedule performed with ⟨-, rfl, -, promises⟩ | ⟨-, rfl, -⟩
      · cases accepted
        exact ⟨rfl, promises⟩
      · cases accepted
    case take =>
      cases accepted
    all_goals cases accepted
  all_goals cases accepted

theorem promise_of_makes {p : Nat} (performed : World.perform flow pick action w = some (r, u))
    (making : makes action r = some p) : p = w.promises.length ∧ u.promises = w.promises ++ [.open] := by
  rcases action with _ | _ | _ | _ | _ | op
  case broker =>
    cases op
    case promise =>
      cases performed
      cases making
      exact ⟨rfl, rfl⟩
    all_goals cases making
  all_goals cases making

/-- A promise is made for a task or for something else. -/
theorem accepts_ne_makes {t : IdleTask} {p : Nat} (accepted : accepts action r = some t) :
    makes action r ≠ some p := by
  rintro making
  rcases action with _ | _ | _ | _ | _ | op
  case broker => cases accepted
  all_goals cases making

theorem length_breakAll (promises : List Promise) (gone : List IdleTask) :
    (World.breakAll promises gone).length = promises.length := by
  induction gone generalizing promises with
  | nil => rfl
  | cons t rest ih => exact (ih _).trans (List.length_set ..)

theorem writes_eq_some {p : Nat} {x : Promise} : writes action w p = some x ↔
    (∃ payload, action = .broker (.keep p payload) ∧ x = .kept payload) ∨
      action = .idle (.setActive false) ∧ p ∈ w.idle.tasks.map (·.promise) ∧ x = .broken := by
  rcases action with _ | _ | _ | op | _ | op
  case idle =>
    cases op
    case setActive active => cases active <;> simp [writes, eq_comm]
    all_goals simp [writes]
  case broker =>
    cases op
    case keep promise payload =>
      simp only [writes]
      split
      · next same => simp [same, eq_comm]
      · next other => simp [other]
    all_goals simp [writes]
  all_goals simp [writes]

theorem mem_discards {t : IdleTask} :
    t ∈ discards action w ↔ action = .idle (.setActive false) ∧ t ∈ w.idle.tasks := by
  rcases action with _ | _ | _ | op | _ | _
  case idle =>
    cases op
    case setActive active => cases active <;> simp [discards]
    all_goals simp [discards]
  all_goals simp [discards]

theorem getElem?_breakAll {promises : List Promise} {p : Nat} (below : p < promises.length)
    (gone : List IdleTask) : (World.breakAll promises gone)[p]? =
      if p ∈ gone.map (·.promise) then some .broken else promises[p]? := by
  induction gone generalizing promises with
  | nil => simp [World.breakAll]
  | cons t rest ih =>
    have rest' := @ih (promises.set t.promise .broken) (by simpa using below)
    simp only [World.breakAll, List.foldl_cons] at rest' ⊢
    rw [rest']
    by_cases mine : t.promise = p
    · simp [mine, below]
    · simp [mine, Ne.symm mine]

/-- Promises are made one after the other, and each is written into where a step says so. -/
theorem promises_perform (performed : World.perform flow pick action w = some (r, u)) :
    w.promises.length ≤ u.promises.length ∧
      ∀ p < w.promises.length, u.promises[p]? = (writes action w p).or w.promises[p]? := by
  have same : ∀ {ps : List Promise}, ps = w.promises → (∀ p, writes action w p = none) →
      w.promises.length ≤ ps.length ∧
        ∀ p < w.promises.length, ps[p]? = (writes action w p).or w.promises[p]? := by
    rintro _ rfl none
    exact ⟨le_rfl, fun p _ => by simp [none]⟩
  have more : ∀ {ps : List Promise}, ps = w.promises ++ [.open] → (∀ p, writes action w p = none) →
      w.promises.length ≤ ps.length ∧
        ∀ p < w.promises.length, ps[p]? = (writes action w p).or w.promises[p]? := by
    rintro _ rfl none
    exact ⟨by simp, fun p below => by simp [none, List.getElem?_append_left below]⟩
  by_cases books : action.Books
  · cases action with
    | frames op =>
      obtain ⟨_, -, h⟩ := Option.map_eq_some_iff.mp performed
      cases h
      exact same rfl fun _ => rfl
    | idle op =>
      cases op with
      | setActive active =>
        cases active with
        | true => exact same (performs_resume performed).2 fun _ => rfl
        | false =>
          rw [(performs_suspend performed).2]
          refine ⟨(length_breakAll ..).ge, fun p below => ?_⟩
          rw [getElem?_breakAll below]
          simp only [writes]
          split <;> simp
      | schedule work =>
        rcases performs_schedule performed with ⟨-, -, -, promises⟩ | ⟨-, -, rfl⟩
        · exact more promises fun _ => rfl
        · exact same rfl fun _ => rfl
      | take =>
        rcases performs_take performed with ⟨_, _, -, -, -, promises⟩ | ⟨-, -, rfl⟩
        · exact same promises fun _ => rfl
        · exact same rfl fun _ => rfl
      | _ => exact books.elim
    | broker op =>
      cases op with
      | promise => cases performed; exact more rfl fun _ => rfl
      | keep promise payload =>
        cases performed
        refine ⟨by simp [World.setPromise], fun p below => ?_⟩
        by_cases mine : promise = p
        · simp [World.setPromise, writes, mine, below]
        · simp [World.setPromise, writes, mine]
      | ticket | offer | takeAction => cases performed; exact same rfl fun _ => rfl
      | _ => exact books.elim
    | _ => exact books.elim
  · refine same (congrArg Ledger.promises (World.ledger_perform books performed)) fun p => ?_
    rcases action with _ | _ | _ | op | _ | op
    case idle => cases op <;> first | rfl | exact absurd trivial books
    case broker => cases op <;> first | rfl | exact absurd trivial books
    all_goals rfl

end Steps

/-! ## The record of the queue -/

/-- How a task leaves the queue. -/
inductive Exit where
  | started
  | discarded
  deriving DecidableEq

abbrev Log := List (Act brokerInterface World)

/-- The task that an act puts into the queue. -/
def entered? (a : Act brokerInterface World) : Option IdleTask := accepts a.action a.reply

/-- The task that an act takes from the queue to run it. -/
def started? (a : Act brokerInterface World) : Option IdleTask := starts a.action a.reply

/-- The tasks that leave the queue by an act. -/
def exits (a : Act brokerInterface World) : List (IdleTask × Exit) :=
  ((started? a).toList.map fun t => (t, .started)) ++
    (discards a.action a.before).map fun t => (t, .discarded)

/-- The tasks accepted in the course of a record, which has the last act first; the first task first. -/
def accepted : Log → List IdleTask
  | [] => []
  | a :: log => accepted log ++ (entered? a).toList

/-- The tasks that have left the queue, the first one first. -/
def left : Log → List (IdleTask × Exit)
  | [] => []
  | a :: log => left log ++ exits a

/-- The promises that were made for other purposes than idle tasks. -/
def made (log : Log) : List Nat := log.filterMap fun a => makes a.action a.reply

theorem map_exits (a : Act brokerInterface World) :
    (exits a).map (·.1) = (started? a).toList ++ discards a.action a.before := by
  simp [exits, Function.comp_def]

theorem accepted_append (late early : Log) : accepted (late ++ early) = accepted early ++ accepted late := by
  induction late with
  | nil => simp [accepted]
  | cons a late ih => simp [accepted, ih]

theorem left_append (late early : Log) : left (late ++ early) = left early ++ left late := by
  induction late with
  | nil => simp [left]
  | cons a late ih => simp [left, ih]

theorem mem_accepted {log : Log} {t : IdleTask} : t ∈ accepted log ↔ ∃ a ∈ log, entered? a = some t := by
  induction log with
  | nil => simp [accepted]
  | cons a log ih => simp [accepted, ih, or_comm, eq_comm]

theorem mem_accepted_cons {a : Act brokerInterface World} {log : Log} {t : IdleTask} :
    t ∈ accepted (a :: log) ↔ t ∈ accepted log ∨ entered? a = some t := by
  simp [accepted, eq_comm]

theorem mem_made_cons {a : Act brokerInterface World} {log : Log} {p : Nat} :
    p ∈ made (a :: log) ↔ p ∈ made log ∨ makes a.action a.reply = some p := by
  cases making : makes a.action a.reply <;> simp [made, making, or_comm, eq_comm]

theorem mem_left_started {log : Log} {t : IdleTask} :
    (t, .started) ∈ left log ↔ ∃ a ∈ log, started? a = some t := by
  induction log with
  | nil => simp [left]
  | cons a log ih => simp [left, exits, ih, or_comm, eq_comm]

/-- The books of the queue are right. -/
structure Booked (c : Chronicle) : Prop where
  tasks : accepted c.log = (left c.log).map (·.1) ++ c.world.idle.tasks
  /-- They were right after each act. -/
  past : ∀ late a early, c.log = late ++ a :: early →
    accepted (a :: early) = (left (a :: early)).map (·.1) ++ a.after.idle.tasks
  inactive : c.world.idle.active = false → c.world.idle.tasks = []
  below : ∀ t ∈ accepted c.log, t.promise < c.world.promises.length
  others : ∀ p ∈ made c.log, p < c.world.promises.length
  apart : ∀ t ∈ accepted c.log, t.promise ∉ made c.log
  distinct : ((accepted c.log).map (·.promise)).Nodup

section Books

variable {c : Chronicle}

theorem Outside.idle_apply (change : Outside) (w : World) :
    (change.apply w).idle = w.idle ∧ (change.apply w).promises = w.promises := by
  cases change <;> exact ⟨rfl, rfl⟩

/-- Nothing is done that concerns the queue. -/
theorem Booked.stay (booked : Booked c) {d : Chronicle} (log : d.log = c.log) (idle : d.world.idle = c.world.idle)
    (promises : d.world.promises = c.world.promises) : Booked d := by
  obtain ⟨tasks, past, inactive, below, others, apart, distinct⟩ := booked
  rw [← log] at tasks past below others apart distinct
  rw [← idle] at tasks inactive
  rw [← promises] at below others
  exact ⟨tasks, past, inactive, below, others, apart, distinct⟩

/-- Whatever is done, the books stay right. -/
theorem Booked.act (booked : Booked c) {d : Chronicle} {a : Act brokerInterface World} {pick : Bool}
    (log : d.log = a :: c.log) (before : a.before = c.world) (after : a.after = d.world)
    (performed : World.perform a.flow pick a.action a.before = some (a.reply, a.after)) : Booked d := by
  have more := (promises_perform performed).1
  have moved : accepted (a :: c.log) = (left (a :: c.log)).map (·.1) ++ a.after.idle.tasks := by
    have step := tasks_perform performed
    rw [before] at step
    simp only [accepted, left, List.map_append, map_exits, List.append_assoc, booked.tasks, entered?, step]
    simp [before, started?]
  have shorter : ∀ t ∈ accepted c.log, t.promise < a.before.promises.length := before ▸ booked.below
  have fresh : ∀ t, entered? a = some t →
      t.promise = a.before.promises.length ∧ a.after.promises = a.before.promises ++ [.open] :=
    fun t entered => promise_of_accepts performed entered
  have making : ∀ p, makes a.action a.reply = some p →
      p = a.before.promises.length ∧ a.after.promises = a.before.promises ++ [.open] :=
    fun p makes => promise_of_makes performed makes
  rw [← log] at moved
  refine ⟨after ▸ moved, ?past, ?inactive, ?below, ?others, ?apart, ?distinct⟩
  case past =>
    intro late b early same
    cases late with
    | nil =>
      obtain ⟨rfl, rfl⟩ := List.cons.inj (log.symm.trans same)
      exact log ▸ moved
    | cons b late => exact booked.past late _ early (List.cons.inj (log.symm.trans same)).2
  case inactive => exact after ▸ inactive_perform performed (before ▸ booked.inactive)
  case below =>
    rw [log, ← after]
    intro t ht
    rcases mem_accepted_cons.mp ht with old | new
    · exact (shorter t old).trans_le more
    · obtain ⟨number, promises⟩ := fresh t new
      simp [number, promises]
  case others =>
    rw [log, ← after]
    intro p hp
    rcases mem_made_cons.mp hp with old | new
    · exact (before ▸ booked.others p old : p < a.before.promises.length).trans_le more
    · obtain ⟨number, promises⟩ := making p new
      simp [number, promises]
  case apart =>
    rw [log]
    intro t ht hp
    rcases mem_accepted_cons.mp ht with old | new <;> rcases mem_made_cons.mp hp with was | is
    · exact booked.apart t old was
    · exact (shorter t old).ne (making _ is).1
    · have below : t.promise < a.before.promises.length := before ▸ booked.others _ was
      exact below.ne (fresh t new).1
    · rw [entered?] at new
      exact accepts_ne_makes new is
  case distinct =>
    rw [log, accepted, List.map_append, List.nodup_append]
    refine ⟨booked.distinct, ?_, ?_⟩
    · cases entered? a <;> simp
    · rintro p hp _ hq rfl
      obtain ⟨t, ht, rfl⟩ := List.mem_map.mp hp
      obtain ⟨t', new, same⟩ := List.mem_map.mp hq
      exact (shorter t ht).ne (same ▸ (fresh t' (Option.mem_toList.mp new)).1)

theorem booked_move (booked : Booked c) (m : Move) : Booked (c.move m) := by
  rcases c.log_move m with ⟨log, same | ⟨change, world⟩⟩ | ⟨a, pick, log, before, after, performed⟩
  · exact booked.stay log (by rw [same]) (by rw [same])
  · exact booked.stay log (by rw [world, (Outside.idle_apply change _).1])
      (by rw [world, (Outside.idle_apply change _).2])
  · exact booked.act log before after performed

/-! ### What the books say -/

variable {t t' : IdleTask} {e e' : Exit}

/-- No two tasks have the same promise. -/
theorem Booked.same (booked : Booked c) (ht : t ∈ accepted c.log) (ht' : t' ∈ accepted c.log)
    (promise : t.promise = t'.promise) : t = t' :=
  List.inj_on_of_nodup_map booked.distinct ht ht' promise

theorem Booked.mem_accepted_iff (booked : Booked c) :
    t ∈ accepted c.log ↔ (∃ e, (t, e) ∈ left c.log) ∨ t ∈ c.world.idle.tasks := by
  rw [booked.tasks, List.mem_append, List.mem_map]
  simp

/-- A task leaves the queue once. -/
theorem Booked.exit_unique (booked : Booked c) (h : (t, e) ∈ left c.log) (h' : (t, e') ∈ left c.log) : e = e' := by
  have once : ((left c.log).map (·.1)).Nodup := by
    have all := booked.distinct.of_map
    rw [booked.tasks] at all
    exact all.of_append_left
  exact congrArg Prod.snd (List.inj_on_of_nodup_map once h h' rfl)

/-- What has left the queue does not wait. -/
theorem Booked.not_waits (booked : Booked c) (h : (t, e) ∈ left c.log) : t ∉ c.world.idle.tasks := by
  have all := booked.distinct.of_map
  rw [booked.tasks] at all
  exact fun waits => List.disjoint_of_nodup_append all (List.mem_map_of_mem h) waits

end Books

end SessionBroker.IdleWork
