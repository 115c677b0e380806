import SessionBroker.Proofs.IdleWork.Account
import SessionBroker.Proofs.Signals

/-!
# Rehearsals

Clients may rehearse what read loops and their tasks do with the idle queue. Rehearsals are played by pumps only,
for tasks that were scheduled by those who belong to one. So where no client asks for a rehearsal, nobody who
belongs to one is ever under way.
-/

namespace SessionBroker

/-- A client asks for a rehearsal. -/
def Move.isRehearsal : Move → Bool
  | .arrive _ request => request.isRehearsal
  | _ => false

namespace IdleWork

/-- Nobody under way belongs to a rehearsal, and no task that was accepted is one. -/
structure Earnest (c : Chronicle) : Prop where
  all : c.annals.All fun proc : Proc => proc.isRehearsal = false
  tasks : ∀ t ∈ accepted c.log, ∀ name inner v, t.work ≠ .rehearsal name inner v

section Earnest

variable {c : Chronicle} {flow : Nat}

/-- Who may not take tasks calls and starts nobody who belongs to a rehearsal. -/
theorem next_of_gives {α : Type} {P : Action → Prop} {p : Code α} (gives : p.Gives P) (never : ¬ P (.idle .take)) :
    p.Next fun proc : Proc => proc.isRehearsal = false := by
  cases p with
  | done | act => trivial
  | call | fork => exact Bool.eq_false_iff.mpr fun rehearsal => never (gives.1 rehearsal)

/-- A pump plays no rehearsal for a task that is none. -/
theorem next_of_pump {ds : List (Deed brokerInterface World)} {q : Code Nat}
    (leads : (body .pump).Leads brokerMachine flow .pump ds q)
    (tasks : ∀ took task, .act took ∈ ds → started? took = some task → ∀ name inner v,
      task.work ≠ .rehearsal name inner v) : q.Next fun proc : Proc => proc.isRehearsal = false := by
  rcases leads.of_perform with rfl | ⟨o, _, _, since, rfl, took⟩
  · cases leads
    trivial
  cases o with
  | none =>
    obtain ⟨-, rfl⟩ := Program.Leads.of_done took
    trivial
  | some t =>
    have plain := tasks _ t (List.mem_append_right since List.mem_cons_self) rfl
    have gives : (Reading.pass t).Gives fun action => action ≠ .idle .take :=
      Reading.gives_pass (fun _ => nofun) fun name inner v work => absurd work (plain name inner v)
    exact next_of_gives (Program.Leads.within (p := Reading.pass t) took gives) fun never => never rfl

/-- Nobody calls or starts somebody who belongs to a rehearsal. -/
theorem Earnest.next (earnest : Earnest c) (faithful : c.Faithful) (booked : Booked c) (f : Flow brokerInterface)
    (hf : c.play.config.find? flow = some f) : f.code.Next fun proc : Proc => proc.isRehearsal = false := by
  obtain ⟨ds, lower, here, leads, -⟩ := faithful.fits.tracked_of_find hf
  obtain ⟨proc, code, wait⟩ := f
  have top : (⟨proc, ds⟩ : Track brokerInterface World) ∈ c.annals.tracks flow := here ▸ List.mem_cons_self
  -- Only those who take tasks may call somebody who belongs to a rehearsal, and only pumps take tasks.
  by_cases may : proc.Gives (.idle .take)
  · cases may
    refine next_of_pump leads fun took task did started => earnest.tasks task ?_
    have logged := faithful.fits.mem_log_of_track top did
    exact booked.mem_accepted_iff.mpr (.inl ⟨_, mem_left_started.mpr ⟨took, logged, started⟩⟩)
  · exact next_of_gives (leads.within (gives_body proc)) may

/-- Nobody schedules a rehearsal. -/
theorem Earnest.accepts (earnest : Earnest c) (faithful : c.Faithful) {m : Move} {a : Act brokerInterface World}
    (log : (c.move m).log = a :: c.log) {t : IdleTask} (entered : entered? a = some t) (name : String)
    (inner : List IdleStep) (v : Json.Value) : t.work ≠ .rehearsal name inner v := by
  obtain ⟨next, wait, found⟩ := Chronicle.find_of_log log
  obtain ⟨ds, lower, here, leads, -⟩ := faithful.fits.tracked_of_find found
  have other := earnest.all.1 a.flow ⟨a.proc, ds⟩ (here ▸ List.mem_cons_self)
  have within := leads.within (gives_body a.proc)
  obtain ⟨flow, proc, action, r, w, u⟩ := a
  rintro work
  have asked : action = .idle (.schedule (.rehearsal name inner v)) := by
    rcases action with _ | _ | _ | op | _ | _
    case idle =>
      cases op
      case schedule =>
        cases r with
        | none => cases entered
        | some promise =>
          cases entered
          exact work ▸ rfl
      all_goals cases entered
    all_goals cases entered
  subst asked
  cases within.1 rfl with
  | plan rehearses => exact absurd rehearses (by rw [other]; decide)

theorem Earnest.move (earnest : Earnest c) (faithful : c.Faithful) (booked : Booked c) {m : Move}
    (other : m.isRehearsal = false) : Earnest (c.move m) := by
  refine ⟨?all, ?tasks⟩
  case all =>
    cases m with
    | arrive name request =>
      exact ⟨earnest.all.update (List.forall_mem_singleton.mpr other), earnest.all.2⟩
    | outside change => exact earnest.all
    | step flow pick => exact earnest.all.step (m := brokerMachine) faithful.fits (earnest.next faithful booked)
  case tasks =>
    rcases c.log_move m with ⟨log, -⟩ | ⟨a, pick, log, -, -, -⟩
    · exact log ▸ earnest.tasks
    · rw [log]
      intro t ht
      rcases mem_accepted_cons.mp ht with old | new
      · exact earnest.tasks t old
      · exact earnest.accepts faithful log new

theorem Earnest.moves (earnest : Earnest c) (sound : Sound c) {ms : List Move}
    (others : ∀ m ∈ ms, m.isRehearsal = false) : Earnest (c.moves ms) := by
  induction ms generalizing c with
  | nil => exact earnest
  | cons m ms ih =>
    obtain ⟨other, others⟩ := List.forall_mem_cons.mp others
    exact ih (earnest.move sound.faithful sound.booked other) (sound.move m) others

/-- Nobody who has done something belongs to a rehearsal. -/
theorem Earnest.proc (earnest : Earnest c) (faithful : c.Faithful) {a : Act brokerInterface World}
    (logged : a ∈ c.log) : a.proc.isRehearsal = false := by
  rcases faithful.fits.mem_of_log logged with ⟨r, here, -, proc, -⟩ | ⟨t, here, proc, -⟩
  · exact proc ▸ earnest.all.2 r here
  · exact proc ▸ earnest.all.1 a.flow t here

/-- Where no client asks for a rehearsal, nobody who belongs to one is ever under way. -/
theorem earnest_moves (settings : BrokerSettings) (endpoints : List (EngineName × Endpoint)) (main : EngineName)
    (host : Host) {ms : List Move} (others : ∀ m ∈ ms, m.isRehearsal = false) :
    Earnest ((Chronicle.new settings endpoints main host).moves ms) :=
  have begins : Earnest (.new settings endpoints main host) :=
    ⟨⟨by rintro _ _ ⟨⟩, by rintro _ ⟨⟩⟩, by rintro _ ⟨⟩⟩
  begins.moves (sound_new settings endpoints main host) others

end Earnest

end IdleWork

end SessionBroker
