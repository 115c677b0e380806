import SessionBroker.Proofs.IdleWork.Passes

/-!
# What becomes of idle tasks

A task that was accepted waits, or it was started by a pass of the pump, or it was discarded. The pass that
started it runs it and keeps its promise, which nobody else does. So a promise that is open is that of a task
that waits or is being run; it is kept with what the task yields once that was run, and broken once the task
was discarded.
-/

namespace SessionBroker.IdleWork

section Ways

variable {c : Chronicle} {m : Move}

/-- Whoever did something, did it on a way through his body, and all he did on it is on record. -/
theorem way_of_log (faithful : c.Faithful) {a : Act brokerInterface World} (logged : a ∈ c.log) :
    ∃ ds q, (body a.proc).Leads brokerMachine a.flow a.proc ds q ∧ .act a ∈ ds ∧
      ∀ b, .act b ∈ ds → b ∈ c.log := by
  have fits := faithful.fits
  rcases fits.mem_of_log logged with ⟨r, here, flow, proc, done⟩ | ⟨t, here, proc, done⟩
  · have leads := fits.returned r here
    have all := fun b (done : .act b ∈ r.deeds) => fits.mem_log_of_return here done
    rw [flow] at leads
    obtain ⟨_, proc', result, ds⟩ := r
    cases proc
    exact ⟨ds, _, leads, done, all⟩
  · obtain ⟨q, leads⟩ := fits.leads here
    have all := fun b (done : .act b ∈ t.deeds) => fits.mem_log_of_track here done
    obtain ⟨proc', ds⟩ := t
    cases proc
    exact ⟨ds, q, leads, done, all⟩

/-- What has been done by the procedure on top of a flow is on record. -/
theorem mem_log_of_top (faithful : c.Faithful) {flow : Nat} {proc : Proc} {ds : List (Deed brokerInterface World)}
    {lower : List (Track brokerInterface World)} (here : c.annals.tracks flow = ⟨proc, ds⟩ :: lower)
    {b : Act brokerInterface World} (done : .act b ∈ ds) : b ∈ c.log := by
  have top : (⟨proc, ds⟩ : Track brokerInterface World) ∈ c.annals.tracks flow := here ▸ List.mem_cons_self
  exact faithful.fits.mem_log_of_track top done

/-! ### Errands and acts -/

section Errands

variable {a : Act brokerInterface World} {ds : List (Deed brokerInterface World)} {t : IdleTask} {p : Nat}
  {payload : Payload}

theorem errand?_eq_took : errand? a.action a.reply = some (.took (some t)) ↔ started? a = some t := by
  obtain ⟨_, _, action, _, _, _⟩ := a
  rcases action with _ | _ | _ | op | _ | op
  case idle => cases op <;> simp [errand?, started?, starts]
  case broker => cases op <;> simp [errand?, started?, starts]
  all_goals simp [errand?, started?, starts]

theorem errand?_eq_kept :
    errand? a.action a.reply = some (.kept p payload) ↔ a.action = .broker (.keep p payload) := by
  obtain ⟨_, _, action, _, _, _⟩ := a
  rcases action with _ | _ | _ | op | _ | op
  case idle => cases op <;> simp [errand?]
  case broker => cases op <;> simp [errand?]
  all_goals simp [errand?]

theorem errand?_eq_made : errand? a.action a.reply = some (.made p) ↔ makes a.action a.reply = some p := by
  obtain ⟨_, _, action, _, _, _⟩ := a
  rcases action with _ | _ | _ | op | _ | op
  case idle => cases op <;> simp [errand?, makes]
  case broker => cases op <;> simp [errand?, makes]
  all_goals simp [errand?, makes]

theorem made_of_errand (all : ∀ b, .act b ∈ ds → b ∈ c.log) (done : .made p ∈ errands ds) : p ∈ made c.log := by
  obtain ⟨b, here, same⟩ := mem_errands.mp done
  exact List.mem_filterMap.mpr ⟨b, all b here, errand?_eq_made.mp same⟩

theorem started_of_errand (all : ∀ b, .act b ∈ ds → b ∈ c.log) (done : .took (some t) ∈ errands ds) :
    (t, .started) ∈ left c.log := by
  obtain ⟨b, here, same⟩ := mem_errands.mp done
  exact mem_left_started.mpr ⟨b, all b here, errand?_eq_took.mp same⟩

/-- A promise was kept with something. -/
def KeptWith (log : Log) (p : Nat) (payload : Payload) : Prop :=
  ∃ a ∈ log, a.action = .broker (.keep p payload)

theorem keptWith_of_errand (all : ∀ b, .act b ∈ ds → b ∈ c.log) (done : .kept p payload ∈ errands ds) :
    KeptWith c.log p payload := by
  obtain ⟨b, here, same⟩ := mem_errands.mp done
  exact ⟨b, all b here, errand?_eq_kept.mp same⟩

end Errands

/-! ### Who keeps promises -/

/-- The thread of a nested prompt is handed a promise that was made for it. -/
def Handed (log : Log) (proc : Proc) : Prop := ∀ frame p, proc = .nestedPrompt frame p → p ∈ made log

theorem handed_move (faithful : c.Faithful) (handed : c.annals.All (Handed c.log)) :
    (c.move m).annals.All (Handed (c.move m).log) := by
  have grown : ∀ p ∈ made c.log, p ∈ made (c.move m).log := by
    intro p hp
    rcases c.log_move m with ⟨log, -⟩ | ⟨a, _, log, -⟩
    · exact log ▸ hp
    · rw [log]
      exact mem_made_cons.mpr (.inl hp)
  have before : c.annals.All (Handed (c.move m).log) :=
    ⟨fun flow t here frame p same => grown p (handed.1 flow t here frame p same),
      fun r here frame p same => grown p (handed.2 r here frame p same)⟩
  cases m with
  | arrive name request => exact ⟨before.update (by simp [Handed]), before.2⟩
  | outside change => exact before
  | step flow pick =>
    refine before.step (m := brokerMachine) faithful.fits fun f hf => ?_
    obtain ⟨proc, code, wait⟩ := f
    obtain ⟨ds, lower, tracks, leads, -⟩ := faithful.fits.tracked_of_find hf
    have minds := (minds_of_leads leads).1
    have all : ∀ b, .act b ∈ ds → b ∈ c.log := fun b done => mem_log_of_top faithful tracks done
    cases code with
    | done | act => trivial
    | call callee next =>
      rintro frame promise rfl
      exact absurd minds.1 (by simp [lore, Proc.isTaskless])
    | fork other next =>
      rintro frame promise rfl
      exact grown _ (made_of_errand all (minds.1 frame promise rfl))

/-- A promise is kept by the pass that took the task for which it was made, or it was made for no task. -/
theorem keeper (faithful : c.Faithful) (handed : c.annals.All (Handed c.log)) {a : Act brokerInterface World} {p : Nat}
    {payload : Payload} (logged : a ∈ c.log) (keeps : a.action = .broker (.keep p payload)) :
    (a.proc = .pump ∧ ∃ t, (t, .started) ∈ left c.log ∧ t.promise = p ∧ Yields t.work payload) ∨
      p ∈ made c.log := by
  obtain ⟨ds, q, leads, here, all⟩ := way_of_log faithful logged
  obtain ⟨older, newer, rfl, allowed⟩ := may_of_mem leads here
  rw [keeps] at allowed
  rcases allowed with ⟨runner, t, took, promise, yields⟩ | ⟨frame, thread⟩
  · have before : ∀ b, .act b ∈ older → b ∈ c.log := fun b done =>
      all b (List.mem_append_right _ (List.mem_cons_of_mem _ done))
    exact .inl ⟨runner, t, started_of_errand before (took ▸ List.mem_cons_self), promise, yields⟩
  · rcases faithful.fits.mem_of_log logged with ⟨r, there, -, proc, -⟩ | ⟨u, there, proc, -⟩
    · exact .inr (handed.2 r there frame p (proc.trans thread))
    · exact .inr (handed.1 a.flow u there frame p (proc.trans thread))

/-- Only pumps take tasks. -/
theorem pump_of_started (faithful : c.Faithful) {a : Act brokerInterface World} {t : IdleTask}
    (logged : a ∈ c.log) (starts : started? a = some t) : a.proc = .pump := by
  obtain ⟨ds, q, leads, here, -⟩ := way_of_log faithful logged
  obtain ⟨older, newer, -, allowed⟩ := may_of_mem leads here
  obtain ⟨_, _, action, _, _, _⟩ := a
  rcases action with _ | _ | _ | op | _ | _
  case idle =>
    cases op
    case take => exact allowed.1
    all_goals cases starts
  all_goals cases starts

end Ways

/-! ## What becomes of promises -/

/-- The promises of the tasks that were accepted. -/
structure Promises (c : Chronicle) : Prop where
  broken : ∀ t, (t, .discarded) ∈ left c.log → c.world.promises[t.promise]? = some .broken
  kept : ∀ t ∈ accepted c.log, ∀ payload, KeptWith c.log t.promise payload →
    ∃ last, KeptWith c.log t.promise last ∧ c.world.promises[t.promise]? = some (.kept last)
  pending : ∀ t ∈ accepted c.log, (t, .discarded) ∉ left c.log →
    (∀ payload, ¬KeptWith c.log t.promise payload) → c.world.promises[t.promise]? = some .open

/-- What is true of a chronicle whatever has happened. -/
structure Sound (c : Chronicle) : Prop where
  faithful : c.Faithful
  handed : c.annals.All (Handed c.log)
  booked : Booked c
  inOrder : c.annals.InOrder
  looked : Looked c.log c.tracks

section Promises

variable {c : Chronicle} {m : Move} {t : IdleTask} {payload : Payload}

theorem Sound.move (sound : Sound c) (m : Move) : Sound (c.move m) where
  faithful := sound.faithful.move m
  handed := handed_move sound.faithful sound.handed
  booked := booked_move sound.booked m
  inOrder := Chronicle.inOrder_move sound.faithful sound.inOrder m
  looked := looked_move sound.faithful sound.inOrder sound.looked m

/-- The promise of a task is kept only once the task was started. -/
theorem Sound.keeper (sound : Sound c) (ht : t ∈ accepted c.log) {a : Act brokerInterface World}
    (logged : a ∈ c.log) (keeps : a.action = .broker (.keep t.promise payload)) :
    a.proc = .pump ∧ (t, .started) ∈ left c.log ∧ Yields t.work payload := by
  rcases IdleWork.keeper sound.faithful sound.handed logged keeps with ⟨pump, t', started, same, yields⟩ | other
  · obtain rfl := sound.booked.same (sound.booked.mem_accepted_iff.mpr (.inl ⟨_, started⟩)) ht same
    exact ⟨pump, started, yields⟩
  · exact absurd other (sound.booked.apart t ht)

theorem Sound.started_of_keptWith (sound : Sound c) (ht : t ∈ accepted c.log)
    (kept : KeptWith c.log t.promise payload) : (t, .started) ∈ left c.log :=
  have ⟨_, logged, keeps⟩ := kept
  (sound.keeper ht logged keeps).2.1

/-- The promise of a task that is accepted later has not been kept. -/
theorem Sound.keptWith_lt (sound : Sound c) {p : Nat} (kept : KeptWith c.log p payload) :
    p < c.world.promises.length := by
  obtain ⟨a, logged, keeps⟩ := kept
  rcases IdleWork.keeper sound.faithful sound.handed logged keeps with ⟨-, t, started, rfl, -⟩ | other
  · exact sound.booked.below t (sound.booked.mem_accepted_iff.mpr (.inl ⟨_, started⟩))
  · exact sound.booked.others p other

/-- By an act, one comes to what is on record next. -/
structure Acted (c d : Chronicle) (a : Act brokerInterface World) : Prop where
  log : d.log = a :: c.log
  before : a.before = c.world
  after : a.after = d.world
  performed : ∃ pick, World.perform a.flow pick a.action a.before = some (a.reply, a.after)

section Acted

variable {d : Chronicle} {a : Act brokerInterface World}

theorem Acted.accepted (acted : Acted c d a) :
    t ∈ accepted d.log ↔ t ∈ IdleWork.accepted c.log ∨ entered? a = some t := by
  rw [acted.log, mem_accepted_cons]

/-- A task is discarded because it waits while the loop is stopped. -/
theorem Acted.discarded (acted : Acted c d a) : (t, .discarded) ∈ left d.log ↔
    (t, .discarded) ∈ left c.log ∨ a.action = .idle (.setActive false) ∧ t ∈ c.world.idle.tasks := by
  rw [acted.log, left, List.mem_append, ← acted.before, ← mem_discards]
  simp [exits]

theorem Acted.keptWith (acted : Acted c d a) {p : Nat} :
    KeptWith d.log p payload ↔ a.action = .broker (.keep p payload) ∨ KeptWith c.log p payload := by
  simp [KeptWith, acted.log]

/-- What is written into the promise of a task that was accepted before. -/
theorem Acted.promise (acted : Acted c d a) (sound : Sound c) (ht : t ∈ IdleWork.accepted c.log) :
    d.world.promises[t.promise]? = (writes a.action c.world t.promise).or c.world.promises[t.promise]? := by
  obtain ⟨pick, performed⟩ := acted.performed
  have written := (promises_perform performed).2 t.promise
  rw [acted.before, acted.after] at written
  exact written (sound.booked.below t ht)

/-- Only a task that waits has its promise broken. -/
theorem Sound.waits_of_promise (sound : Sound c) (ht : t ∈ accepted c.log)
    (there : t.promise ∈ c.world.idle.tasks.map (·.promise)) : t ∈ c.world.idle.tasks := by
  obtain ⟨t', waits, same⟩ := List.mem_map.mp there
  exact sound.booked.same (sound.booked.mem_accepted_iff.mpr (.inr waits)) ht same ▸ waits

theorem Promises.broken_act (promises : Promises c) (sound : Sound c) (sound' : Sound d) (acted : Acted c d a)
    (gone : (t, .discarded) ∈ left d.log) : d.world.promises[t.promise]? = some .broken := by
  rcases acted.discarded.mp gone with past | ⟨suspends, waits⟩
  · have ht := sound.booked.mem_accepted_iff.mpr (.inl ⟨_, past⟩)
    rw [acted.promise sound ht]
    rcases written : writes a.action c.world t.promise with _ | x
    · exact promises.broken t past
    · rcases writes_eq_some.mp written with ⟨payload, keeps, rfl⟩ | ⟨-, -, rfl⟩
      · have started := sound'.started_of_keptWith (acted.accepted.mpr (.inl ht))
          (acted.keptWith.mpr (.inl keeps))
        cases sound'.booked.exit_unique gone started
      · rfl
  · have ht := sound.booked.mem_accepted_iff.mpr (.inr waits)
    rw [acted.promise sound ht, writes_eq_some.mpr (.inr ⟨suspends, List.mem_map_of_mem waits, rfl⟩)]
    rfl

theorem Promises.kept_act (promises : Promises c) (sound : Sound c) (acted : Acted c d a)
    (ht : t ∈ accepted d.log) (kept : KeptWith d.log t.promise payload) :
    ∃ last, KeptWith d.log t.promise last ∧ d.world.promises[t.promise]? = some (.kept last) := by
  rcases acted.accepted.mp ht with past | new
  · rw [acted.promise sound past]
    rcases written : writes a.action c.world t.promise with _ | x
    · have earlier := (acted.keptWith.mp kept).resolve_left fun keeps => by
        cases written.symm.trans (writes_eq_some.mpr (.inl ⟨payload, keeps, rfl⟩))
      obtain ⟨last, kept, value⟩ := promises.kept t past payload earlier
      exact ⟨last, acted.keptWith.mpr (.inr kept), by rw [value]; rfl⟩
    · rcases writes_eq_some.mp written with ⟨last, keeps, rfl⟩ | ⟨suspends, there, rfl⟩
      · exact ⟨last, acted.keptWith.mpr (.inl keeps), rfl⟩
      · have earlier := (acted.keptWith.mp kept).resolve_left fun keeps => by
          cases suspends.symm.trans keeps
        exact absurd (sound.waits_of_promise past there)
          (sound.booked.not_waits (sound.started_of_keptWith past earlier))
  · obtain ⟨pick, performed⟩ := acted.performed
    have number := (promise_of_accepts performed new).1
    rw [acted.before] at number
    rcases acted.keptWith.mp kept with keeps | earlier
    · obtain ⟨_, _, action, _, _, _⟩ := a
      cases keeps
      cases new
    · exact absurd number (sound.keptWith_lt earlier).ne

theorem Promises.pending_act (promises : Promises c) (sound : Sound c) (acted : Acted c d a)
    (ht : t ∈ accepted d.log) (stays : (t, .discarded) ∉ left d.log)
    (unkept : ∀ payload, ¬KeptWith d.log t.promise payload) : d.world.promises[t.promise]? = some .open := by
  rcases acted.accepted.mp ht with past | new
  · rw [acted.promise sound past]
    rcases written : writes a.action c.world t.promise with _ | x
    · exact promises.pending t past (fun gone => stays (acted.discarded.mpr (.inl gone)))
        fun payload kept => unkept payload (acted.keptWith.mpr (.inr kept))
    · rcases writes_eq_some.mp written with ⟨payload, keeps, rfl⟩ | ⟨suspends, there, rfl⟩
      · exact absurd (acted.keptWith.mpr (.inl keeps)) (unkept payload)
      · exact absurd (acted.discarded.mpr (.inr ⟨suspends, sound.waits_of_promise past there⟩)) stays
  · obtain ⟨pick, performed⟩ := acted.performed
    obtain ⟨number, promises⟩ := promise_of_accepts performed new
    rw [← acted.after, promises, number]
    simp

end Acted

theorem Promises.move (sound : Sound c) (promises : Promises c) (m : Move) : Promises (c.move m) := by
  rcases c.log_move m with ⟨log, same | ⟨change, world⟩⟩ | ⟨a, pick, log, before, after, performed⟩
  · exact ⟨by rw [log, same]; exact promises.broken, by rw [log, same]; exact promises.kept,
      by rw [log, same]; exact promises.pending⟩
  · have kept := (Outside.idle_apply change c.world).2
    rw [← world] at kept
    exact ⟨by rw [log, kept]; exact promises.broken, by rw [log, kept]; exact promises.kept,
      by rw [log, kept]; exact promises.pending⟩
  · have acted : Acted c (c.move m) a := ⟨log, before, after, pick, performed⟩
    exact ⟨fun t => promises.broken_act sound (sound.move m) acted,
      fun t ht payload => promises.kept_act sound acted ht, fun t => promises.pending_act sound acted⟩

end Promises

/-! ## What becomes of tasks -/

/-- A pass of the pump has taken a task and not yet kept its promise. -/
def Runs (c : Chronicle) (t : IdleTask) : Prop :=
  ∃ flow, ∃ u ∈ c.tracks flow, u.proc = .pump ∧ errands u.deeds = [.took (some t)]

/-- A task was started, and its promise was kept with something that it yields. -/
def Ran (log : Log) (t : IdleTask) (payload : Payload) : Prop :=
  (t, .started) ∈ left log ∧ KeptWith log t.promise payload ∧ Yields t.work payload

/-- What has become of a task that was accepted. -/
inductive Fate (c : Chronicle) (t : IdleTask) : Prop where
  | waits (here : t ∈ c.world.idle.tasks) (promise : c.world.promises[t.promise]? = some .open)
  | runs (started : (t, .started) ∈ left c.log) (underway : Runs c t)
      (promise : c.world.promises[t.promise]? = some .open)
  | ran {payload : Payload} (ran : Ran c.log t payload)
      (promise : c.world.promises[t.promise]? = some (.kept payload))
  | discarded (gone : (t, .discarded) ∈ left c.log) (promise : c.world.promises[t.promise]? = some .broken)

section Fates

variable {c : Chronicle} {t : IdleTask} {payload : Payload}

/-- A task that was started is still run by the pass that took it, or its promise was kept. -/
theorem runs_or_kept (faithful : c.Faithful) (started : (t, .started) ∈ left c.log) :
    Runs c t ∨ ∃ payload, KeptWith c.log t.promise payload := by
  obtain ⟨a, logged, starts⟩ := mem_left_started.mp started
  have pump := pump_of_started faithful logged starts
  have mine : ∀ {ds : List (Deed brokerInterface World)}, .act a ∈ ds → .took (some t) ∈ errands ds :=
    fun done => mem_errands.mpr ⟨a, done, errand?_eq_took.mpr starts⟩
  rcases faithful.fits.mem_of_log logged with ⟨r, here, -, proc, done⟩ | ⟨u, here, proc, done⟩
  · have leads := faithful.fits.returned r here
    have all := fun b (done : .act b ∈ r.deeds) => faithful.fits.mem_log_of_return here done
    obtain ⟨flow, _, n, ds⟩ := r
    obtain rfl := proc.trans pump
    have settled : Settled .pump n (errands ds) := (minds_of_leads leads).1
    have taken := mine done
    rcases settled with ⟨took, -⟩ | ⟨t', payload, took, -⟩
    · simp [took] at taken
    · obtain rfl : t = t' := by simpa [took] using taken
      exact .inr ⟨payload, keptWith_of_errand all (took ▸ List.mem_cons_self)⟩
  · obtain ⟨q, leads⟩ := faithful.fits.leads here
    have all := fun b (done : .act b ∈ u.deeds) => faithful.fits.mem_log_of_track here done
    obtain ⟨_, ds⟩ := u
    obtain rfl := proc.trans pump
    have taken := mine done
    rcases errands_pump leads with none | ⟨task, took⟩ | ⟨t', payload, took, -⟩
    · simp [none] at taken
    · obtain rfl : task = some t := by simpa [took, eq_comm] using taken
      exact .inl ⟨a.flow, _, here, rfl, took⟩
    · obtain rfl : t = t' := by simpa [took] using taken
      exact .inr ⟨payload, keptWith_of_errand all (took ▸ List.mem_cons_self)⟩

theorem Sound.ran_of_keptWith (sound : Sound c) (ht : t ∈ accepted c.log)
    (kept : KeptWith c.log t.promise payload) : Ran c.log t payload :=
  have ⟨_, logged, keeps⟩ := kept
  have ⟨_, started, yields⟩ := sound.keeper ht logged keeps
  ⟨started, kept, yields⟩

/-- Something becomes of each task that is accepted. -/
theorem Sound.fate (sound : Sound c) (promises : Promises c) (ht : t ∈ accepted c.log) : Fate c t := by
  by_cases kept : ∃ payload, KeptWith c.log t.promise payload
  · obtain ⟨payload, kept⟩ := kept
    obtain ⟨last, kept, value⟩ := promises.kept t ht payload kept
    exact .ran (sound.ran_of_keptWith ht kept) value
  · push Not at kept
    rcases sound.booked.mem_accepted_iff.mp ht with ⟨_ | _, gone⟩ | waits
    · have stays : (t, Exit.discarded) ∉ left c.log := fun discarded => by
        cases sound.booked.exit_unique gone discarded
      rcases runs_or_kept sound.faithful gone with underway | ⟨payload, was⟩
      · exact .runs gone underway (promises.pending t ht stays kept)
      · exact absurd was (kept payload)
    · exact .discarded gone (promises.broken t gone)
    · have stays : (t, Exit.discarded) ∉ left c.log := fun discarded => sound.booked.not_waits discarded waits
      exact .waits waits (promises.pending t ht stays kept)

end Fates

end SessionBroker.IdleWork
