import SessionBroker.Proofs.IdleWork.Rehearsals
import SessionBroker.Proofs.Sections

/-!
# Read loops

Who has the host read a line says that a read loop is active, and takes that back when the host has read it. Each
frame may have a read loop of its own, so that several are inside the host at a time; they share one flag and one
queue of idle tasks. The first loop to end takes the flag down and drops what waits, whichever loops are left.
-/

namespace SessionBroker.ReadLoops

open IdleWork

/-! ## The flag -/

theorem action_of_activates {action : Action} {b : Bool} (said : activates action = some b) :
    action = .idle (.setActive b) := by
  rcases action with _ | _ | _ | op | _ | _
  case idle => cases op <;> cases said; rfl
  all_goals cases said

/-- The flag that says that a read loop is active. -/
def signal : Flag where
  sets := activates
  isUp w := w.idle.active
  hasSection
    | .readLoop _ => true
    | _ => false
  signals said := by
    rw [action_of_activates said]
    rfl

/-- The host's part of a read loop: it reads one line. -/
def hostCall : Code (Option String) := do
  let reader : Nat ← Code.broker .ticket
  Code.host (.beginRead reader)
  let line : Option String ← Code.invoke (.hostRead reader)
  Code.host (.endRead reader)
  return line

theorem readLoop_eq : Reading.readLoop =
    Flag.bracket (.idle (.setActive true)) (.idle (.setActive false)) hostCall pure := rfl

theorem silent_hostCall : hostCall.Gives fun action => signal.sets action = none := by
  refine .bind (Program.silent_broker rfl) fun reader => .bind (Program.silent_host rfl) fun _ => ?_
  exact .bind (Program.silent_invoke rfl) fun line => .bind (Program.silent_host rfl) fun _ => trivial

theorem signal_lawful : signal.IsLawful where
  perform performed := (flags_perform performed).1
  apply change w := congrArg IdleQueue.active (Outside.idle_apply change w).1
  new _ _ _ _ := rfl
  bodies proc has := by
    cases proc
    case readLoop frame =>
      exact Flag.minds_bracket rfl rfl silent_hostCall fun _ => trivial
    all_goals cases has

/-! ## Loops under way -/

/-- Somebody's read loop is under way: he has said that it is active, and what he has done since was the host's
part, all of it at most. -/
def Reads (flow : Nat) (t : Track brokerInterface World) : Prop :=
  ∃ frame, t.proc = .readLoop frame ∧ Flag.During (.idle (.setActive true)) hostCall flow t.proc t.deeds

/-- Some read loop is under way. -/
def IsReading (c : Chronicle) : Prop := ∃ flow, ∃ t ∈ c.tracks flow, Reads flow t

/-- Procedures that dispose of the broker. -/
def disposes : Proc → Bool
  | .dispose => true
  | _ => false

section Loops

variable {c : Chronicle}

/-- A procedure is in its section just if its read loop is under way. -/
theorem isInside_iff {flow : Nat} {t : Track brokerInterface World} {q : Code t.proc.Result}
    (leads : (body t.proc).Leads brokerMachine flow t.proc t.deeds q) : signal.isInside t = true ↔ Reads flow t := by
  obtain ⟨proc, ds⟩ := t
  constructor
  · intro inside
    obtain ⟨has, marked⟩ := Bool.and_eq_true_iff.mp inside
    cases proc
    case readLoop frame =>
      have during := Flag.marks_iff rfl rfl silent_hostCall leads
      exact ⟨frame, rfl, during.mp (of_decide_eq_true marked)⟩
    all_goals cases has
  · rintro ⟨frame, rfl, during⟩
    exact decide_eq_true (during.marks rfl silent_hostCall)

/-- Somebody is in his section just if a read loop is under way. -/
theorem isBusy_iff (faithful : c.Faithful) : signal.IsBusy c ↔ IsReading c := by
  refine exists_congr fun flow => exists_congr fun t => and_congr_right fun here => ?_
  obtain ⟨q, leads⟩ := faithful.fits.leads here
  exact isInside_iff leads

/-- Before anybody disposes, and where nobody rehearses, nobody but read loops touches the flag. -/
theorem readLoop_of_activates (faithful : c.Faithful) (earnest : Earnest c)
    (live : ∀ a ∈ c.log, disposes a.proc = false) {a : Act brokerInterface World} {b : Bool} (logged : a ∈ c.log)
    (sets : signal.sets a.action = some b) : ∃ frame, a.proc = .readLoop frame := by
  have gives := faithful.gives logged (signal.signals sets)
  have other : a.proc.isRehearsal = false := earnest.proc faithful logged
  have alive := live a logged
  rw [action_of_activates sets] at gives
  generalize a.proc = who at gives other alive
  cases gives with
  | read => exact ⟨_, rfl⟩
  | dispose => cases alive
  | rehearse | ask => cases other

theorem signal_reserved (faithful : c.Faithful) (earnest : Earnest c) (live : ∀ a ∈ c.log, disposes a.proc = false) :
    signal.IsReserved c.log := by
  intro a logged isSome
  obtain ⟨b, sets⟩ := Option.isSome_iff_exists.mp isSome
  obtain ⟨frame, proc⟩ := readLoop_of_activates faithful earnest live logged sets
  rw [proc]
  rfl

/-- Whoever drops idle tasks says that no loop is active. -/
theorem action_of_discards {action : Action} {w : World} (drops : discards action w ≠ []) :
    signal.sets action = some false := by
  rcases action with _ | _ | _ | op | _ | _
  case idle =>
    cases op
    case setActive active =>
      cases active with
      | false => rfl
      | true => exact absurd rfl drops
    all_goals exact absurd rfl drops
  all_goals exact absurd rfl drops

end Loops

/-- What the flag says of the read loops, and what they do to the queue. -/
structure Signalled (c : Chronicle) : Prop where
  /-- The flag is up only while a loop is under way. -/
  sound : c.world.idle.active = true → IsReading c
  /-- While a loop is under way, the flag is up just if no loop ended last while another one was under way. -/
  exact : IsReading c → c.world.idle.active = signal.endedAlone c.log
  /-- If the flag is down while a loop is under way, another one has ended since this one began. -/
  hidden : c.world.idle.active = false → ∀ flow t, t ∈ c.tracks flow → Reads flow t →
    ∃ late ended early, c.log = late ++ ended :: early ∧ (∃ frame, ended.proc = .readLoop frame) ∧
      ended.action = .idle (.setActive false) ∧ .act ended ∉ t.deeds ∧
      ∃ begun ∈ early, .act begun ∈ t.deeds ∧ begun.action = .idle (.setActive true)
  /-- Whenever a loop has ended, nothing waits. -/
  drops : ∀ ended ∈ c.log, ended.action = .idle (.setActive false) → ended.after.idle.tasks = []
  /-- Tasks are dropped only by loops that end; no loop is left then just if that one has ended alone. -/
  ends : ∀ ended early, c.log = ended :: early → discards ended.action ended.before ≠ [] →
    (∃ frame, ended.proc = .readLoop frame) ∧ (¬ IsReading c ↔ signal.endedAlone c.log = true)

/-- Whatever clients ask for and whenever the host reads a line, until somebody disposes the flag is up from the
moment a read loop begins until the next one ends. -/
theorem signalled (settings : BrokerSettings) (endpoints : List (EngineName × Endpoint)) (main : EngineName)
    (host : Host) (ms : List Move) (earnest : ∀ m ∈ ms, m.isRehearsal = false)
    (live : ∀ a ∈ ((Chronicle.new settings endpoints main host).moves ms).log, disposes a.proc = false) :
    Signalled ((Chronicle.new settings endpoints main host).moves ms) := by
  have faithful := Chronicle.faithful_moves (Chronicle.faithful_new settings endpoints main host) ms
  have stands := Flag.stands_moves signal_lawful settings endpoints main host ms
  have earnest := earnest_moves settings endpoints main host earnest
  generalize (Chronicle.new settings endpoints main host).moves ms = c at faithful stands earnest live
  have reserved := signal_reserved faithful earnest live
  refine ⟨?sound, ?exact, ?hidden, ?drops, ?ends⟩
  case sound => exact fun up => (isBusy_iff faithful).mp (stands.isBusy reserved up)
  case exact => exact fun reading => stands.isUp_of_isBusy reserved ((isBusy_iff faithful).mpr reading)
  case hidden =>
    intro down flow t here reads
    obtain ⟨q, leads⟩ := faithful.fits.leads here
    obtain ⟨late, ended, early, log, lowers, other, begun, older, did, raises⟩ :=
      stands.hidden faithful down here ((isInside_iff leads).mpr reads)
    exact ⟨late, ended, early, log, readLoop_of_activates faithful earnest live (by simp [log]) lowers,
      action_of_activates lowers, other, begun, older, did, action_of_activates raises⟩
  case drops =>
    rintro ⟨flow, proc, action, r, w, u⟩ logged rfl
    obtain ⟨pick, performed⟩ := faithful.fits.performed logged
    have suspends : World.perform flow pick (.idle (.setActive false)) w = some (r, u) := performed
    exact congrArg IdleQueue.tasks (performs_suspend suspends).1
  case ends =>
    intro ended early log gone
    have lowers := action_of_discards gone
    refine ⟨readLoop_of_activates faithful earnest live (by simp [log]) lowers, ?_⟩
    rw [← isBusy_iff faithful, ← stands.inside_ne_nil, not_not, log, Flag.endedAlone]
    simp [lowers]

/-! ### Two read loops -/

/-- A read loop is under way, and another one at a nested prompt. A client has something run behind them, a line
comes in, and the newer loop makes some turns. -/
def overlap (n : Nat) : List Move :=
  [.arrive "outer" (.readLine none)] ++ turns 0 20 ++ [.arrive "prompt" .enterNestedPrompt] ++ turns 1 20
    ++ [.arrive "inner" (.readLine none)] ++ turns 3 20 ++ [.arrive "client" (.onPipeline .null)] ++ turns 4 20
    ++ [.outside (.hostLine "exit")] ++ turns 3 n

def overlapping (n : Nat) : Chronicle := (Chronicle.new .standard [] "main" .new).moves (overlap n)

/-- The older loop is under way if somebody in its flow is in his section. -/
theorem isReading_overlapping {n : Nat} (inside : ((overlapping n).tracks 0).any signal.isInside = true) :
    IsReading (overlapping n) := by
  have faithful : (overlapping n).Faithful := Chronicle.faithful_moves (Chronicle.faithful_new ..) _
  have ⟨t, here, within⟩ := List.any_eq_true.mp inside
  exact (isBusy_iff faithful).mp ⟨0, t, here, within⟩

/-- As long as neither of the two loops has ended, the flag is up. -/
theorem signalled_overlap : (∀ m ∈ overlap 0, m.isRehearsal = false) ∧
    (∀ a ∈ (overlapping 0).log, disposes a.proc = false) ∧ IsReading (overlapping 0) ∧
    (overlapping 0).world.idle.active = true := by
  have earnest : ∀ m ∈ overlap 0, m.isRehearsal = false := by decide +kernel
  have live : ∀ a ∈ (overlapping 0).log, disposes a.proc = false := by decide +kernel
  have reading : IsReading (overlapping 0) := isReading_overlapping (by decide +kernel)
  have signalled : Signalled (overlapping 0) := signalled .standard [] "main" .new (overlap 0) earnest live
  have alone : signal.endedAlone (overlapping 0).log = true := by decide +kernel
  exact ⟨earnest, live, reading, (signalled.exact reading).trans alone⟩

/-- It is not so that the flag is up while a read loop is under way, nor that work is dropped only when no loop is
left: when the newer loop ends, the task that waits is dropped and the flag is down, and the older one is left. -/
theorem unsignalled_loop : (∀ m ∈ overlap 4, m.isRehearsal = false) ∧
    (∀ a ∈ (overlapping 4).log, disposes a.proc = false) ∧ IsReading (overlapping 4) ∧
    (overlapping 4).world.idle.active = false ∧
    ∃ ended early, (overlapping 4).log = ended :: early ∧ discards ended.action ended.before ≠ [] := by
  have gone : ((overlapping 4).log.head?.any fun a => !(discards a.action a.before).isEmpty) = true := by
    decide +kernel
  obtain ⟨ended, first, drops⟩ := (Option.any_eq_true _ _).mp gone
  obtain ⟨early, log⟩ := List.head?_eq_some_iff.mp first
  refine ⟨by decide +kernel, by decide +kernel, isReading_overlapping (by decide +kernel), by decide +kernel,
    ended, early, log, ?_⟩
  simpa using drops

end SessionBroker.ReadLoops
