import SessionBroker.Proofs.IdleWork.Fates

/-!
# Idle work is accounted for

A client that has something run behind the read loop schedules a task and waits for its promise. What it is
told in the end is what has become of its task, and it waits for as long as nothing has. Whether anybody waits
for the promise of a task makes no difference to the task.
-/

namespace SessionBroker

namespace IdleWork

/-! ## Clients that have something run -/

/-- A client that has a task run which is to give a value. -/
@[reducible] def asking (id name : String) (v : Json.Value) (inner : List IdleStep) : Proc :=
  .serveClient id (.idleExecute name v inner)

/-- What such a client hears. -/
inductive Word where
  | scheduled (promise : Option Nat)
  | awaited (promise : Nat) (payload : Option Payload)

def word? : (action : Action) → action.Reply → Option Word
  | .idle (.schedule _), promise => some (.scheduled promise)
  | .broker (.awaitPromise promise), payload => some (.awaited promise payload)
  | _, _ => none

/-- The value that a payload is or is not. -/
def value? : Payload → Option Json.Value
  | .value v => v
  | _ => none

/-- What a client says that has heard something. -/
def saying : List Word → Option (Option Json.Value)
  | [.scheduled none] => some none
  | [.awaited _ payload, .scheduled (some _)] => some (payload.bind value?)
  | _ => none

theorem saying_eq_some {k : List Word} {said : Option Json.Value} (spoken : saying k = some said) :
    (k = [.scheduled none] ∧ said = none) ∨ ∃ p payload p',
      k = [.awaited p payload, .scheduled (some p')] ∧ said = payload.bind value? := by
  unfold saying at spoken
  split at spoken
  · exact .inl ⟨rfl, (Option.some.inj spoken).symm⟩
  · exact .inr ⟨_, _, _, rfl, (Option.some.inj spoken).symm⟩
  · cases spoken

/-- It schedules its task, waits for its promise and reports what it was given. -/
def asks (id name : String) (v : Json.Value) (inner : List IdleStep) : Lore brokerInterface World (List Word) where
  blank := []
  note action r _ k := (word? action r).toList ++ k
  acts action k := match action with
    | .idle (.schedule work) => work = .rehearsal name inner v ∧ k = []
    | .broker (.awaitPromise p) => k = [.scheduled (some p)]
    | .broker (.report name r) => name = id ∧ ∃ said, saying k = some said ∧ r = .idleValue said
    | _ => False
  calls _ _ := False
  starts _ _ := False
  back _ k _ k' := k' = k

section Clients

variable {id name : String} {v : Json.Value} {inner : List IdleStep} {flow : Nat}
  {ds : List (Deed brokerInterface World)}

theorem minds_asking : (body (asking id name v inner)).Minds (asks id name v inner) brokerMachine
    (fun _ _ => True) [] := by
  refine ⟨⟨rfl, rfl⟩, fun _ _ _ promise _ _ => ?_⟩
  cases promise with
  | none => exact ⟨⟨rfl, none, rfl, rfl⟩, fun _ _ _ _ _ _ => trivial⟩
  | some p =>
    refine ⟨rfl, fun _ _ _ payload _ _ => ?_⟩
    rcases payload with _ | payload
    · exact ⟨⟨rfl, none, rfl, rfl⟩, fun _ _ _ _ _ _ => trivial⟩
    · cases payload <;> exact ⟨⟨rfl, _, rfl, rfl⟩, fun _ _ _ _ _ _ => trivial⟩

/-- What is remembered is what was heard. -/
def heard (ds : List (Deed brokerInterface World)) : List Word :=
  (ds.filterMap Deed.act?).filterMap fun a => word? a.action a.reply

theorem remembered_asks : (asks id name v inner).remembered (fun _ _ k => k) ds [] = heard ds := by
  induction ds with
  | nil => rfl
  | cons d ds ih =>
    cases d with
    | act a =>
      refine (congrArg ((word? a.action a.reply).toList ++ ·) ih).trans ?_
      simp only [heard, List.filterMap_cons, Deed.act?]
      cases word? a.action a.reply <;> rfl
    | call | start => exact ih

theorem mem_heard {word : Word} :
    word ∈ heard ds ↔ ∃ a, .act a ∈ ds ∧ word? a.action a.reply = some word := by
  simp [heard, Deed.act?_eq_some]

theorem asks_of_leads {q : Code Unit}
    (leads : (body (asking id name v inner)).Leads brokerMachine flow (asking id name v inner) ds q) :
    q.Minds (asks id name v inner) brokerMachine (fun _ _ => True) (heard ds) ∧
      (asks id name v inner).Followed (fun _ _ k => k) ds [] := by
  have minds : _ ∧ _ := Lore.minds_leads (fun _ _ _ => rfl) minds_asking leads
  rwa [remembered_asks] at minds

/-- What it heard of scheduling its task, it heard of its own task. -/
theorem work_of_heard {o : Option Nat} (followed : (asks id name v inner).Followed (fun _ _ k => k) ds [])
    (said : .scheduled o ∈ heard ds) : ∃ s, .act s ∈ ds ∧
      s.action = .idle (.schedule (.rehearsal name inner v)) ∧
      entered? s = o.map fun p => ⟨p, .rehearsal name inner v⟩ := by
  obtain ⟨s, here, same⟩ := mem_heard.mp said
  obtain ⟨older, newer, -, allowed, -⟩ := Lore.acts_of_followed followed here
  refine ⟨s, here, ?_⟩
  obtain ⟨_, _, action, reply, _, _⟩ := s
  rcases action with _ | _ | _ | op | _ | op
  case idle =>
    cases op
    case schedule work =>
      obtain ⟨rfl, -⟩ := allowed
      cases same
      refine ⟨rfl, ?_⟩
      cases reply <;> rfl
    all_goals cases same
  case broker => cases op <;> cases same
  all_goals cases same

theorem action_of_awaited {a : Act brokerInterface World} {p : Nat} {payload : Option Payload}
    (hears : word? a.action a.reply = some (.awaited p payload)) : a.action = .broker (.awaitPromise p) := by
  obtain ⟨_, _, action, _, _, _⟩ := a
  rcases action with _ | _ | _ | op | _ | op
  case broker =>
    cases op
    case awaitPromise =>
      cases hears
      rfl
    all_goals cases hears
  case idle => cases op <;> cases hears
  all_goals cases hears

/-- Before a client reports something, it was refused, or it was told something of the promise of its task. -/
theorem spoken_of_leads {q : Code Unit} {b : Act brokerInterface World} {other : String} {r : Report}
    (leads : (body (asking id name v inner)).Leads brokerMachine flow (asking id name v inner) ds q)
    (here : .act b ∈ ds) (reports : b.action = .broker (.report other r)) :
    other = id ∧ ∃ said s, r = .idleValue said ∧ .act s ∈ ds ∧
      s.action = .idle (.schedule (.rehearsal name inner v)) ∧
      ((entered? s = none ∧ said = none) ∨ ∃ p payload w, entered? s = some ⟨p, .rehearsal name inner v⟩ ∧
        .act w ∈ ds ∧ word? w.action w.reply = some (.awaited p payload) ∧ said = payload.bind value?) := by
  obtain ⟨older, newer, rfl, allowed, followed⟩ := Lore.acts_of_followed (asks_of_leads leads).2 here
  rw [reports, remembered_asks] at allowed
  obtain ⟨rfl, said, words, rfl⟩ := allowed
  have before : ∀ {a}, .act a ∈ older → .act a ∈ newer ++ .act b :: older := fun done =>
    List.mem_append_right newer (List.mem_cons_of_mem _ done)
  refine ⟨rfl, said, ?_⟩
  rcases saying_eq_some words with ⟨only, rfl⟩ | ⟨p, payload, p', both, rfl⟩
  · obtain ⟨s, done, schedules, refused⟩ := work_of_heard followed (only ▸ List.mem_cons_self)
    exact ⟨s, rfl, before done, schedules, .inl ⟨refused, rfl⟩⟩
  · obtain ⟨s, done, schedules, entered⟩ :=
      work_of_heard followed (both ▸ List.mem_cons_of_mem _ List.mem_cons_self)
    obtain ⟨w, waited, hears⟩ := mem_heard.mp (both ▸ List.mem_cons_self : .awaited p payload ∈ heard older)
    obtain rfl : p = p' := by
      obtain ⟨first, second, rfl, awaits, -⟩ := Lore.acts_of_followed followed waited
      rw [remembered_asks, action_of_awaited hears] at awaits
      have said : .scheduled (some p) ∈ heard first := (show heard first = _ from awaits) ▸ List.mem_cons_self
      obtain ⟨a, older, same⟩ := mem_heard.mp said
      have again : .scheduled (some p) ∈ heard (second ++ .act w :: first) :=
        mem_heard.mpr ⟨a, List.mem_append_right _ (List.mem_cons_of_mem _ older), same⟩
      simpa [both] using again
    exact ⟨s, rfl, before done, schedules, .inr ⟨p, payload, w, entered, before waited, hears, rfl⟩⟩

end Clients

/-! ## What is heard of tasks -/

/-- A promise has told what has become of its task. -/
def Resolved (log : Log) (t : IdleTask) : Option Payload → Prop
  | some payload => Ran log t payload
  | none => (t, .discarded) ∈ left log

/-- Who waited for the promise of a task was told what had become of it; and a client waits for the promise of
its own task. -/
structure Told (b : Act brokerInterface World) (early : Log) : Prop where
  resolved : ∀ p payload, word? b.action b.reply = some (.awaited p payload) →
    ∀ t ∈ accepted early, t.promise = p → Resolved early t payload
  own : ∀ p payload, word? b.action b.reply = some (.awaited p payload) →
    ∀ id name v inner, b.proc = asking id name v inner → ⟨p, .rehearsal name inner v⟩ ∈ accepted early

/-- Something was true of each act and those before it. -/
def EachAct (P : Act brokerInterface World → Log → Prop) : Log → Prop
  | [] => True
  | b :: early => P b early ∧ EachAct P early

theorem EachAct.at {P : Act brokerInterface World → Log → Prop} {late early : Log} {b : Act brokerInterface World}
    (each : EachAct P (late ++ b :: early)) : P b early := by
  induction late with
  | nil => exact each.1
  | cons a late ih => exact ih each.2

section Told

variable {c : Chronicle} {t : IdleTask}

theorem Resolved.mono {early : Log} (late : Log) {payload : Option Payload} (h : Resolved early t payload) :
    Resolved (late ++ early) t payload := by
  have more : ∀ {e : Exit}, (t, e) ∈ left early → (t, e) ∈ left (late ++ early) := fun here => by
    rw [left_append]
    exact List.mem_append_left _ here
  cases payload with
  | none => exact more h
  | some payload =>
    obtain ⟨started, ⟨a, here, keeps⟩, yields⟩ := h
    exact ⟨more started, ⟨a, List.mem_append_right _ here, keeps⟩, yields⟩

/-- Who is told something of a promise, is told what has become of it. -/
theorem performs_await {w u : World} {flow : Nat} {pick : Bool} {p : Nat} {payload : Option Payload}
    (performed : World.perform flow pick (.broker (.awaitPromise p)) w = some (payload, u)) :
    w.promises[p]? ≠ some .open ∧ (∀ kept, w.promises[p]? = some (.kept kept) → payload = some kept) ∧
      (w.promises[p]? = some .broken → payload = none) := by
  simp only [World.perform, World.performBroker] at performed
  split at performed <;> cases performed <;> simp_all

theorem Sound.resolved (sound : Sound c) (promises : Promises c) (ht : t ∈ accepted c.log) {u : World} {flow : Nat}
    {pick : Bool} {payload : Option Payload}
    (performed : World.perform flow pick (.broker (.awaitPromise t.promise)) c.world = some (payload, u)) :
    Resolved c.log t payload := by
  obtain ⟨settled, kept, broken⟩ := performs_await performed
  cases sound.fate promises ht with
  | waits _ promise | runs _ _ promise => exact absurd promise settled
  | ran ran promise =>
    rw [kept _ promise]
    exact ran
  | discarded gone promise =>
    rw [broken promise]
    exact gone

theorem told_act (sound : Sound c) (promises : Promises c) {m : Move} {a : Act brokerInterface World}
    {pick : Bool} (log : (c.move m).log = a :: c.log) (before : a.before = c.world)
    (performed : World.perform a.flow pick a.action a.before = some (a.reply, a.after)) : Told a c.log := by
  refine ⟨fun p payload hears t ht promise => ?_, fun p payload hears id name v inner proc => ?_⟩
  · obtain ⟨flow, _, action, reply, w, u⟩ := a
    obtain rfl : w = c.world := before
    rcases action with _ | _ | _ | op | _ | op
    case broker =>
      cases op
      case awaitPromise p =>
        cases hears
        cases promise
        exact sound.resolved promises ht performed
      all_goals cases hears
    case idle => cases op <;> cases hears
    all_goals cases hears
  · obtain ⟨next, wait, here⟩ := Chronicle.find_of_log log
    obtain ⟨ds, lower, tracks, leads, -⟩ := sound.faithful.fits.tracked_of_find here
    obtain ⟨flow, _, action, reply, w, u⟩ := a
    cases proc
    obtain ⟨minds, followed⟩ := asks_of_leads leads
    rcases action with _ | _ | _ | op | _ | op
    case broker =>
      cases op
      case awaitPromise p =>
        cases hears
        have said : heard ds = [.scheduled (some p)] := minds.1
        obtain ⟨s, done, -, entered⟩ := work_of_heard followed (said ▸ List.mem_cons_self)
        have logged := mem_log_of_top sound.faithful tracks done
        exact mem_accepted.mpr ⟨s, logged, entered⟩
      all_goals cases hears
    case idle => cases op <;> cases hears
    all_goals cases hears

theorem told_move (sound : Sound c) (promises : Promises c) (told : EachAct Told c.log) (m : Move) :
    EachAct Told (c.move m).log := by
  rcases c.log_move m with ⟨log, -⟩ | ⟨a, pick, log, before, -, performed⟩
  · exact log ▸ told
  · rw [log]
    exact ⟨told_act sound promises log before performed, told⟩

/-- What was heard of a task is what has become of it. -/
theorem EachAct.resolved (told : EachAct Told c.log) {late early : Log} {b : Act brokerInterface World}
    (log : c.log = late ++ b :: early) {payload : Option Payload}
    (hears : word? b.action b.reply = some (.awaited t.promise payload)) (ht : t ∈ accepted early) :
    Resolved c.log t payload := by
  have before := (log ▸ told).at.resolved t.promise payload hears t ht rfl
  rw [log, ← List.singleton_append, ← List.append_assoc]
  exact before.mono (late ++ [b])

/-- What a client says is what has become of its task. -/
structure Verdict (log : Log) (asked : Act brokerInterface World) (v : Json.Value) (said : Option Json.Value) :
    Prop where
  ran : ∀ u, said = some u ↔ u = v ∧ ∃ t payload, entered? asked = some t ∧ Ran log t payload
  lost : said = none ↔ entered? asked = none ∨ ∃ t, entered? asked = some t ∧ (t, .discarded) ∈ left log

/-- A client that has reported something had scheduled its task, and reported what had become of it. -/
theorem Sound.verdict (sound : Sound c) (told : EachAct Told c.log) {b : Act brokerInterface World}
    (logged : b ∈ c.log) {id name : String} {v : Json.Value} {inner : List IdleStep}
    (proc : b.proc = asking id name v inner) {other : String} {report : Report}
    (reports : b.action = .broker (.report other report)) :
    other = id ∧ ∃ asked ∈ c.log, asked.flow = b.flow ∧ asked.proc = b.proc ∧
      asked.action = .idle (.schedule (.rehearsal name inner v)) ∧
      ∃ said, report = .idleValue said ∧ Verdict c.log asked v said := by
  obtain ⟨ds, q, leads, here, all⟩ := way_of_log sound.faithful logged
  obtain ⟨flow, _, action, reply, w, u⟩ := b
  cases proc
  obtain ⟨rfl, said, s, rfl, done, schedules, outcome⟩ := spoken_of_leads leads here reports
  obtain ⟨mine, own, -⟩ := leads.act_mem done
  refine ⟨rfl, s, all s done, mine, own, schedules, said, rfl, ?_⟩
  rcases outcome with ⟨refused, rfl⟩ | ⟨p, payload, w, entered, waited, hears, rfl⟩
  · exact ⟨by simp [refused], by simp [refused]⟩
  · have resolved : Resolved c.log ⟨p, .rehearsal name inner v⟩ payload := by
      obtain ⟨late, early, log⟩ := List.append_of_mem (all w waited)
      have own := (log ▸ told).at.own p payload hears _ name v inner (leads.act_mem waited).2.1
      exact told.resolved log hears own
    cases payload with
    | none =>
      have lost : (⟨p, .rehearsal name inner v⟩, Exit.discarded) ∈ left c.log := resolved
      refine ⟨fun u => ⟨nofun, ?_⟩, ⟨fun _ => .inr ⟨_, entered, lost⟩, fun _ => rfl⟩⟩
      rintro ⟨-, t, payload, same, started, -⟩
      obtain rfl := Option.some.inj (entered.symm.trans same)
      cases sound.booked.exit_unique lost started
    | some payload =>
      have ran : Ran c.log ⟨p, .rehearsal name inner v⟩ payload := resolved
      obtain rfl : payload = .value (some v) := ran.2.2
      refine ⟨fun u => ⟨?_, ?_⟩, ⟨nofun, ?_⟩⟩
      · rintro ⟨⟩
        exact ⟨rfl, _, _, entered, ran⟩
      · rintro ⟨rfl, -⟩
        rfl
      · rintro (refused | ⟨t, same, lost⟩)
        · cases refused.symm.trans entered
        · obtain rfl := Option.some.inj (entered.symm.trans same)
          cases sound.booked.exit_unique lost ran.1

/-- A procedure that has returned does not wait. -/
theorem returns_step {d : BrokerConfig} {flow : Nat} {pick : Bool} {proc : brokerInterface.Proc}
    (wait : Waiting brokerInterface proc) (r : brokerInterface.Result proc) :
    brokerMachine.stepFlow d flow pick ⟨proc, .done r, wait⟩ ≠ none := by
  cases wait <;> exact nofun

/-- A client that cannot go on waits for a task of its own that waits or is being run. -/
theorem Sound.stuck (sound : Sound c) (promises : Promises c) {flow : Nat} {id name : String} {v : Json.Value}
    {inner : List IdleStep} {code : Code Unit} {wait : Waiting brokerInterface (asking id name v inner)}
    (here : c.play.config.find? flow = some ⟨asking id name v inner, code, wait⟩)
    (stuck : ∀ pick, brokerMachine.step? c.play.config flow pick = none) :
    ∃ t ∈ accepted c.log, t.work = .rehearsal name inner v ∧ (t ∈ c.world.idle.tasks ∨ Runs c t) := by
  obtain ⟨ds, lower, tracks, leads, -⟩ := sound.faithful.fits.tracked_of_find here
  obtain ⟨minds, followed⟩ := asks_of_leads leads
  have halts : brokerMachine.stepFlow c.play.config flow false ⟨asking id name v inner, code, wait⟩ = none := by
    simpa [Machine.step?, here] using stuck false
  cases code with
  | done r => exact absurd halts (returns_step wait r)
  | call | fork => exact minds.1.elim
  | act action next =>
    have idle : World.perform flow false action c.world = none := by
      rcases performed : brokerMachine.perform flow false action c.play.config.shared with _ | ⟨r, u⟩
      · exact performed
      · simp only [Machine.stepFlow, performed] at halts
        cases halts
    rcases action with _ | _ | _ | op | _ | op
    case idle =>
      cases op
      case schedule =>
        simp only [World.perform, World.performIdle] at idle
        split at idle <;> cases idle
      all_goals exact minds.1.elim
    case broker =>
      cases op
      case report => cases idle
      case awaitPromise p =>
        have said : heard ds = [.scheduled (some p)] := minds.1
        obtain ⟨s, done, -, entered⟩ := work_of_heard followed (said ▸ List.mem_cons_self)
        have logged := mem_log_of_top sound.faithful tracks done
        have ht : ⟨p, .rehearsal name inner v⟩ ∈ accepted c.log := mem_accepted.mpr ⟨s, logged, entered⟩
        refine ⟨_, ht, rfl, ?_⟩
        simp only [World.perform, World.performBroker] at idle
        cases sound.fate promises ht with
        | waits waits _ => exact .inl waits
        | runs _ underway _ => exact .inr underway
        | ran _ promise | discarded _ promise =>
          simp only [promise] at idle
          cases idle
      all_goals exact minds.1.elim
    all_goals exact minds.1.elim

end Told

end IdleWork

/-! ## Who does not wait -/

namespace Chronicle

/-- A flow is dropped: it is not there any more. -/
def drop (c : Chronicle) (flow : Nat) : Chronicle := { c with play := c.play.without (· = flow) }

variable {c : Chronicle} {flow : Nat}

theorem drop_move {m : Move} (other : ∀ pick, m ≠ .step flow pick) (old : flow < c.play.config.next) :
    (c.move m).drop flow = (c.drop flow).move m := by
  have steps : ∀ id pick, m = .step id pick → id ≠ flow := fun id pick same own => other pick (own ▸ same)
  have play : (c.play.move m).without (· = flow) = (c.play.without (· = flow)).move m :=
    Play.without_move (fun id pick same => by simpa using steps id pick same) (by simpa using old.ne')
  have annals : (c.move m).annals = ((c.drop flow).move m).annals := by
    cases m with
    | arrive | outside => rfl
    | step id pick =>
      have found : (c.play.config.without (· = flow)).find? id = c.play.config.find? id :=
        Config.find?_without (by simpa using steps id pick rfl)
      simp only [move, drop, Play.without, Annals.step, found]
      rfl
  exact congrArg₂ Chronicle.mk play annals

/-- Whoever makes no more steps might as well be dropped: whatever happens, happens all the same. -/
theorem drop_moves {ms : List Move} (still : ∀ pick, .step flow pick ∉ ms) (old : flow < c.play.config.next) :
    (c.moves ms).drop flow = (c.drop flow).moves ms := by
  induction ms generalizing c with
  | nil => rfl
  | cons m ms ih =>
    have other : ∀ pick, m ≠ .step flow pick := fun pick same => still pick (same ▸ List.mem_cons_self)
    rw [moves_cons, moves_cons, ← drop_move other old]
    exact ih (fun pick mem => still pick (List.mem_cons_of_mem m mem)) (old.trans_le (Play.next_le_move m))

end Chronicle

namespace IdleWork

/-- Idle work is accounted for. -/
structure Accounted (c : Chronicle) : Prop where
  /-- The tasks accepted are those that have left the queue, in this order, and behind them those that wait. -/
  queue : accepted c.log = (left c.log).map (·.1) ++ c.world.idle.tasks
  /-- No task is there twice. -/
  once : ((accepted c.log).map (·.promise)).Nodup
  /-- Tasks are started in the order in which they were accepted, -/
  order : (((left c.log).filter (·.2 = .started)).map (·.1)).Sublist (accepted c.log)
  /-- and by pumps. -/
  starters : ∀ a ∈ c.log, ∀ t, started? a = some t → a.proc = .pump
  inactive : c.world.idle.active = false → c.world.idle.tasks = []
  /-- When a pump is about to return, nothing waits but what others have put into the queue since it looked, -/
  emptied : ∀ flow n wait, c.play.config.find? flow = some ⟨.pump, .done n, wait⟩ →
    ∃ late look early, c.log = late ++ look :: early ∧ look.flow = flow ∧ vain look.action look.reply = true ∧
      (∀ a ∈ late, a.flow ≠ flow) ∧ accepted late = (left late).map (·.1) ++ c.world.idle.tasks
  /-- and nothing at all if nobody else has done anything since. -/
  empty : ∀ flow n wait, c.play.config.find? flow = some ⟨.pump, .done n, wait⟩ →
    (∀ a ∈ c.log.head?, a.flow = flow) → c.world.idle.tasks = []
  /-- A pump returns how many tasks its own passes have started. -/
  counts : ∀ flow n ds early, ⟨flow, .pump, n, ds⟩ :: early <:+ c.annals.returnsOf flow →
    n = ((passes (⟨flow, .pump, n, ds⟩ :: early)).flatMap Return.tasks).length ∧
      ∀ r ∈ passes (⟨flow, .pump, n, ds⟩ :: early), r.flow = flow ∧ r.proc = .pump
  /-- A task waits, or is being run, or was run and its promise kept, or was discarded and its promise broken. -/
  fate : ∀ t ∈ accepted c.log, Fate c t
  /-- Whoever waited for the promise of a task was told what has become of it. -/
  resolved : ∀ late b early, c.log = late ++ b :: early → ∀ t ∈ accepted early, ∀ payload,
    word? b.action b.reply = some (.awaited t.promise payload) → Resolved c.log t payload
  /-- A client is told what its task yields if that was run, and nothing if it was refused or discarded. -/
  verdict : ∀ b ∈ c.log, ∀ id name v inner, b.proc = asking id name v inner →
    ∀ other report, b.action = .broker (.report other report) →
      other = id ∧ ∃ asked ∈ c.log, asked.flow = b.flow ∧ asked.proc = b.proc ∧
        asked.action = .idle (.schedule (.rehearsal name inner v)) ∧
        ∃ said, report = .idleValue said ∧ Verdict c.log asked v said
  /-- It can go on unless its task waits or is being run. -/
  waits : ∀ flow id name v inner code wait,
    c.play.config.find? flow = some ⟨asking id name v inner, code, wait⟩ →
    (∀ pick, brokerMachine.step? c.play.config flow pick = none) →
      ∃ t ∈ accepted c.log, t.work = .rehearsal name inner v ∧ (t ∈ c.world.idle.tasks ∨ Runs c t)
  /-- If it is dropped, everything goes on as if it only did not ask any more. -/
  dropped : ∀ flow < c.play.config.next, ∀ ms : List Move, (∀ pick, .step flow pick ∉ ms) →
    ((c.drop flow).moves ms).world = (c.moves ms).world ∧ ((c.drop flow).moves ms).log = (c.moves ms).log

theorem Sound.empty {c : Chronicle} (sound : Sound c) {flow n : Nat} {wait : Waiting brokerInterface .pump}
    (here : c.play.config.find? flow = some ⟨.pump, .done n, wait⟩)
    (alone : ∀ a ∈ c.log.head?, a.flow = flow) : c.world.idle.tasks = [] := by
  have found := foundNone_of_done sound.faithful sound.inOrder sound.looked here
  obtain ⟨late, look, early, log, -, -, others, rest⟩ := empty_of_foundNone sound.faithful sound.booked found
  cases late with
  | nil => exact rest.symm
  | cons a late =>
    have mine : a.flow = flow := alone a (by rw [log]; rfl)
    exact absurd mine (others a List.mem_cons_self)

theorem sound_new (settings : BrokerSettings) (endpoints : List (EngineName × Endpoint)) (main : EngineName)
    (host : Host) : Sound (.new settings endpoints main host) where
  faithful := Chronicle.faithful_new ..
  handed := ⟨by rintro _ _ ⟨⟩, by rintro _ ⟨⟩⟩
  booked := ⟨rfl, by simp [Chronicle.log, Chronicle.new], fun _ => rfl, by rintro _ ⟨⟩, by rintro _ ⟨⟩,
    by rintro _ ⟨⟩, .nil⟩
  inOrder := ⟨by rintro _ _ ⟨⟩, fun _ => trivial⟩
  looked := by rintro _ _ ⟨⟩

/-- Whatever happens, idle work is accounted for. -/
theorem accounted (settings : BrokerSettings) (endpoints : List (EngineName × Endpoint)) (main : EngineName)
    (host : Host) (ms : List Move) : Accounted ((Chronicle.new settings endpoints main host).moves ms) := by
  obtain ⟨sound, promises, told⟩ := Chronicle.moves_keep
    (P := fun c => Sound c ∧ Promises c ∧ EachAct Told c.log)
    (fun c m ⟨sound, promises, told⟩ => ⟨sound.move m, promises.move sound m, told_move sound promises told m⟩)
    ⟨sound_new settings endpoints main host,
      ⟨by rintro _ ⟨⟩, by rintro _ ⟨⟩, by rintro _ ⟨⟩⟩, trivial⟩ ms
  generalize (Chronicle.new settings endpoints main host).moves ms = c at sound promises told
  have fits := sound.faithful.fits
  exact {
    queue := sound.booked.tasks
    once := sound.booked.distinct
    order := by
      rw [sound.booked.tasks]
      exact (List.filter_sublist.map _).trans (List.sublist_append_left ..)
    starters := fun a logged t starts => pump_of_started sound.faithful logged starts
    inactive := sound.booked.inactive
    emptied := fun flow n wait here => empty_of_foundNone sound.faithful sound.booked
      (foundNone_of_done sound.faithful sound.inOrder sound.looked here)
    empty := fun flow n wait here => sound.empty here
    counts := fun flow n ds early suffix => count_passes ((sound.inOrder.chained flow).suffix suffix)
      (fun r here => fits.returned r (List.mem_filter.mp (suffix.subset here)).1) rfl
    fate := fun t ht => sound.fate promises ht
    resolved := fun late b early log t ht payload hears => told.resolved log hears ht
    verdict := fun b logged id name v inner proc other report => sound.verdict told logged proc
    waits := fun flow id name v inner code wait here => sound.stuck promises here
    dropped := fun flow old ms still => by
      have same := Chronicle.drop_moves still old
      exact ⟨(congrArg Chronicle.world same).symm, (congrArg Chronicle.log same).symm⟩ }

end IdleWork

end SessionBroker
