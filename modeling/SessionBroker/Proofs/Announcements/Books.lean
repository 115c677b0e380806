import SessionBroker.Proofs.Attendance
import SessionBroker.Proofs.Duties.Terms

/-!
# The books of announcements

Two things are kept apart: what has been announced of commands and aborts, and whether the phase and
the flag, which all commands share, speak of the commands that have ended. A command that keeps silent
at its end passes from the one to the other.
-/

namespace SessionBroker

def Proc.isCommand : Proc → Bool
  | .runCommand .. => true
  | _ => false

/-- Calls by which commands are aborted. -/
def Proc.aborts : Proc → Bool
  | .serveClient _ (.abort _) | .dispose => true
  | _ => false

def commands (proc : Proc) : Nat := proc.isCommand.toNat

def Notice.isStart : Notice → Bool
  | .progress .running _ => true
  | _ => false

def Notice.isEnd : Notice → Bool
  | .progress how _ => how ≠ .running
  | _ => false

namespace Channel

variable (c : Channel) (notice : Notice)

/-- How many commands have been announced. -/
def starts : Nat := c.sent.countP Notice.isStart

/-- How many ends have been announced, of commands and by aborts. -/
def ends : Nat := c.sent.countP Notice.isEnd

@[simp] theorem starts_send : (c.send notice).starts = c.starts + notice.isStart.toNat := by
  simp only [starts, send, List.countP_append, countP_cons_toNat, List.countP_nil, Nat.zero_add]

@[simp] theorem ends_send : (c.send notice).ends = c.ends + notice.isEnd.toNat := by
  simp only [ends, send, List.countP_append, countP_cons_toNat, List.countP_nil, Nat.zero_add]

end Channel

namespace Announcements

open Duties Duties.Duty

abbrev History := List (Event brokerInterface)

/-- How many rights to abort a procedure brings. -/
def aborters (proc : Proc) : Nat := (brought proc).count able

/-! ## Weights -/

/-- Commands that have not been announced. -/
def early : Duty → Nat
  | fresh | begun => 1
  | _ => 0

/-- Commands that have been announced. -/
def late : Duty → Nat
  | running | ending _ | unspoken | ended => 1
  | _ => 0

/-- Commands and aborts of which something is still to be said. -/
def untold : Duty → Nat
  | fresh | begun | running | ending _ | unspoken | alarm _ => 1
  | _ => 0

/-- Commands and aborts of which nothing is to be said. -/
def told : Duty → Nat
  | ended | able | owing => 1
  | _ => 0

/-- Commands that have ended. -/
def gone : Duty → Nat
  | ending _ | unspoken | ended => 1
  | _ => 0

/-- Commands whose end has not been dealt with. -/
def unsettled : Duty → Nat
  | ending _ | unspoken => 1
  | _ => 0

/-- Commands that no abort will speak for any more. -/
def closed : Duty → Nat
  | unspoken | ended => 1
  | _ => 0

/-- Commands that ended while an abort was pending. -/
def mute : Duty → Nat
  | ending .aborting => 1
  | _ => 0

/-- Commands that ended after the broker. -/
def lost : Duty → Nat
  | ending .disposed => 1
  | _ => 0

attribute [local simp] early late untold told gone unsettled closed mute lost

theorem gone_le (d : Duty) : gone d ≤ late d := by cases d <;> simp

theorem closed_le (d : Duty) : closed d ≤ gone d := by cases d <;> simp

theorem unsettled_le (d : Duty) : unsettled d ≤ gone d := by cases d <;> simp

theorem mute_le (d : Duty) : mute d ≤ gone d := by
  cases d
  case ending before => cases before <;> decide
  all_goals exact Nat.zero_le _

variable {i n : Nat} {h : History} {p p' : Phase} {flag : Bool} {c : Channel}
  {all fewer : Multiset Duty} {a b : Duty}

/-! ## What has been announced -/

/-- Commands and aborts are announced; `i` aborts were accepted while no command was in flight. While
the flag is up, the abort that was announced last is to be the end of a command. -/
structure Announced (i : Nat) (h : History) (flag : Bool) (c : Channel) (all : Multiset Duty) : Prop where
  entering : c.starts + tally early all ≤ entered commands h
  starting : returned commands h + tally late all ≤ c.starts
  most : c.ends + tally untold all ≤ entered commands h + i + flag.toNat
  least : returned commands h + i + flag.toNat + returned aborters h + tally told all ≤
    c.ends + entered aborters h

def spokenWeights : List (Duty → Nat) := [early, late, untold, told]

namespace Announced

theorem lighter (right : Announced i h flag c all)
    (le : ∀ w ∈ spokenWeights, tally w fewer ≤ tally w all) : Announced i h flag c fewer := by
  simp only [spokenWeights, List.forall_mem_cons, List.not_mem_nil] at le
  obtain ⟨hearly, hlate, huntold, htold, -⟩ := le
  obtain ⟨entering, starting, most, least⟩ := right
  constructor <;> omega

theorem trade (right : Announced i h flag c ({a} + all)) (lighter : ∀ w ∈ spokenWeights, w b ≤ w a) :
    Announced i h flag c ({b} + all) :=
  right.lighter fun w hw => tally_trade (lighter w hw)

/-- Only what is announced of commands and aborts counts. -/
theorem same {c' : Channel} (right : Announced i h flag c all) (starts : c'.starts = c.starts)
    (ends : c'.ends = c.ends) : Announced i h flag c' all := by
  obtain ⟨entering, starting, most, least⟩ := right
  constructor <;> simp only [starts, ends] <;> assumption

theorem announce (right : Announced i h flag c ({begun} + all)) (hadErrors : Bool) :
    Announced i h flag (c.send (.progress .running hadErrors)) ({running} + all) := by
  obtain ⟨entering, starting, most, least⟩ := right
  simp only [tally_add, tally_singleton, early, late, untold, told] at entering starting most least
  constructor <;> simp [Notice.isStart, Notice.isEnd] <;> omega

/-- The end of a command or an abort is announced. -/
theorem tell (right : Announced i h flag c ({a} + all)) {notice : Notice}
    (ends : notice.isStart = false ∧ notice.isEnd = true) (old : early b = early a ∧ late b = late a)
    (saying : untold b + 1 ≤ untold a) (said : told b ≤ told a + 1) :
    Announced i h flag (c.send notice) ({b} + all) := by
  obtain ⟨entering, starting, most, least⟩ := right
  simp only [tally_add, tally_singleton] at entering starting most least
  constructor <;>
    simp only [tally_add, tally_singleton, Channel.starts_send, Channel.ends_send, ends, old,
      Bool.toNat_true, Bool.toNat_false, Nat.add_zero] <;>
    omega

/-- A command keeps silent at its end, because an abort has spoken for it. -/
theorem hush {before : Phase} (right : Announced i h true c ({ending before} + all)) :
    Announced i h false c ({ended} + all) := by
  obtain ⟨entering, starting, most, least⟩ := right
  simp at entering starting most least
  constructor <;> simp <;> omega

/-- An abort is accepted, with or without a command in flight. -/
theorem abort (right : Announced i h false c ({able} + all)) (inFlight : Bool) :
    Announced (i + (!inFlight).toNat) h inFlight c ({alarm p} + all) := by
  have either : inFlight.toNat + (!inFlight).toNat = 1 := by cases inFlight <;> rfl
  obtain ⟨entering, starting, most, least⟩ := right
  simp at entering starting most least
  constructor <;> simp <;> omega

/-- Commands that have not ended are in flight. -/
theorem returned_le (right : Announced i h flag c all) :
    returned commands h + tally late all + tally early all ≤ entered commands h := by
  have entering := right.entering
  have starting := right.starting
  omega

end Announced

/-! ## What has ended -/

/-- The phase and the flag speak of the commands that have ended; they are `n`. -/
structure Agreed (n : Nat) (h : History) (p : Phase) (flag : Bool) (all : Multiset Duty) : Prop where
  counted : returned commands h + tally gone all ≤ n
  /-- While an abort is pending at most one command has ended and not returned. -/
  single : flag ∨ p = .aborting → n ≤ returned commands h + 1
  /-- A command that ended while an abort was pending finds it announced. -/
  silent : tally mute all ≤ flag.toNat
  /-- An abort that was announced for a command finds one. -/
  awaited : flag → returned commands h + tally closed all < entered commands h
  /-- An abort without a command has not been announced for any. -/
  pending : p = .aborting → tally unsettled all = 0 ∧ (flag ∨ entered commands h = returned commands h)
  /-- Where the phase is that of a command, some command has not ended. -/
  busy : p = .running → returned commands h + tally gone all < entered commands h
  alive : tally lost all = 0

def endWeights : List (Duty → Nat) := [gone, unsettled, mute, lost]

namespace Agreed

theorem lighter (right : Agreed n h p flag all) (le : ∀ w ∈ endWeights, tally w fewer ≤ tally w all)
    (awaits : flag → tally closed fewer ≤ tally closed all) : Agreed n h p flag fewer := by
  simp only [endWeights, List.forall_mem_cons, List.not_mem_nil] at le
  obtain ⟨hgone, hunsettled, hmute, hlost, -⟩ := le
  constructor
  case counted => exact (Nat.add_le_add_left hgone _).trans right.counted
  case single => exact right.single
  case silent => exact hmute.trans right.silent
  case awaited => exact fun up => (Nat.add_le_add_left (awaits up) _).trans_lt (right.awaited up)
  case pending =>
    intro aborting
    obtain ⟨none, whose⟩ := right.pending aborting
    exact ⟨Nat.le_zero.mp (hunsettled.trans none.le), whose⟩
  case busy => exact fun runs => (Nat.add_le_add_left hgone _).trans_lt (right.busy runs)
  case alive => exact Nat.le_zero.mp (hlost.trans right.alive.le)

theorem trade (right : Agreed n h p flag ({a} + all)) (lighter : ∀ w ∈ endWeights, w b ≤ w a)
    (awaits : flag → closed b ≤ closed a) : Agreed n h p flag ({b} + all) :=
  right.lighter (fun w hw => tally_trade (lighter w hw)) fun up => tally_trade (awaits up)

/-- The phase changes, but not to that of an abort. -/
theorem phase (right : Agreed n h p flag all) (aborting : p' = .aborting → p = .aborting)
    (busy : p' = .running → returned commands h + tally gone all < entered commands h) :
    Agreed n h p' flag all :=
  { right with
    single := fun pending => right.single (pending.imp_right aborting)
    pending := fun pending => right.pending (aborting pending)
    busy := busy }

/-- Where the phase is set back nobody has to do so any more. -/
theorem back (right : Agreed n h p flag all) : Agreed n h (p.toward .ready) flag all := by
  apply right.phase
  · intro aborting
    cases p <;> cases aborting
  · intro runs
    cases p <;> cases runs

theorem finish (right : Agreed n h p flag ({running} + all)) (alive : p ≠ .disposed)
    (flies : returned commands h < entered commands h)
    (orderly : flag ∨ p = .aborting → n = returned commands h) :
    Agreed (n + 1) h (p.toward .ready) flag ({ending p} + all) := by
  have back : p.toward .ready ≠ .aborting ∧ p.toward .ready ≠ .running := by cases p <;> decide
  have counted := right.counted
  simp at counted
  constructor
  case counted =>
    simp
    omega
  case single =>
    rintro (up | aborting)
    · rw [orderly (.inl up)]
    · exact absurd aborting back.1
  case silent =>
    by_cases aborting : p = .aborting
    · subst aborting
      -- the flag is up, since a command is in flight, and no other command has ended
      have up : flag = true := by
        rcases (right.pending rfl).2 with up | landed
        · exact up
        · omega
      have last := orderly (.inr rfl)
      have others : tally mute all ≤ tally gone all := tally_le mute_le
      simp [up]
      omega
    · have silent : tally mute all ≤ flag.toNat := by simpa using right.silent
      have none : mute (ending p) = 0 := by cases p <;> first | rfl | exact absurd rfl aborting
      rwa [tally_add, tally_singleton, none, Nat.zero_add]
  case awaited =>
    intro up
    simpa using right.awaited up
  case pending => exact fun aborting => absurd aborting back.1
  case busy => exact fun runs => absurd runs back.2
  case alive =>
    have living : tally lost all = 0 := by simpa using right.alive
    have none : lost (ending p) = 0 := by cases p <;> first | rfl | exact absurd rfl alive
    rwa [tally_add, tally_singleton, none, Nat.zero_add]

theorem hush {before : Phase} (right : Agreed n h p true ({ending before} + all)) :
    Agreed n h p false ({ended} + all) := by
  have calm : p ≠ .aborting := by
    intro aborting
    have none := (right.pending aborting).1
    simp at none
  -- it is the only one that has ended, so no other one is mute
  have last := right.single (.inl rfl)
  have others : tally mute all ≤ tally gone all := tally_le mute_le
  have counted := right.counted
  have living := right.alive
  simp at counted living
  constructor
  case single => exact fun pending => by simp [calm] at pending
  case awaited => exact nofun
  case pending => exact fun aborting => absurd aborting calm
  case busy =>
    have busy := right.busy
    simpa using busy
  all_goals
    simp
    omega

theorem abort (right : Agreed n h p false ({able} + all)) {inFlight : Bool}
    (last : n = returned commands h) (landed : ¬inFlight → entered commands h = returned commands h)
    (flying : inFlight → returned commands h < entered commands h) :
    Agreed n h .aborting inFlight ({alarm p} + all) := by
  have counted := right.counted
  have silent := right.silent
  have living := right.alive
  simp at counted silent living
  have ends : tally closed all ≤ tally gone all := tally_le closed_le
  have settled : tally unsettled all ≤ tally gone all := tally_le unsettled_le
  constructor
  case single => exact fun _ => last.le.trans (Nat.le_succ _)
  case awaited =>
    intro up
    have flies := flying up
    simp
    omega
  case pending =>
    intro _
    refine ⟨by simp; omega, ?_⟩
    by_cases flies : inFlight
    · exact .inl flies
    · exact .inr (landed flies)
  case busy => exact nofun
  all_goals
    simp
    omega

end Agreed

/-! ## Both -/

structure Balanced (i n : Nat) (h : History) (p : Phase) (flag : Bool) (c : Channel)
    (all : Multiset Duty) : Prop where
  announced : Announced i h flag c all
  agreed : Agreed n h p flag all

namespace Balanced

theorem less (le : fewer ≤ all) (right : Balanced i n h p flag c all) :
    Balanced i n h p flag c fewer where
  announced := right.announced.lighter fun _ _ => tally_mono le
  agreed := right.agreed.lighter (fun _ _ => tally_mono le) fun _ => tally_mono le

/-- One duty takes the place of another that weighs as much. -/
theorem trade (right : Balanced i n h p flag c ({a} + all)) (spoken : ∀ w ∈ spokenWeights, w b ≤ w a)
    (ends : ∀ w ∈ endWeights, w b ≤ w a) (awaits : flag → closed b ≤ closed a) :
    Balanced i n h p flag c ({b} + all) :=
  ⟨right.announced.trade spoken, right.agreed.trade ends awaits⟩

/-- A command that has not ended may set the phase. -/
theorem goesOn (right : Balanced i n h p flag c ({a} + all)) (goes : early a + late a = 1)
    (on : gone a = 0) : Balanced i n h (p.toward .running) flag c ({a} + all) := by
  refine ⟨right.announced, right.agreed.phase ?_ ?_⟩
  · intro aborting
    cases p <;> first | rfl | cases aborting
  · intro _
    have flies := right.announced.returned_le
    have rest : tally gone all ≤ tally late all := tally_le gone_le
    simp only [tally_add, tally_singleton] at flies ⊢
    omega

theorem back (right : Balanced i n h p flag c all) : Balanced i n h (p.toward .ready) flag c all :=
  ⟨right.announced, right.agreed.back⟩

theorem announce (right : Balanced i n h p flag c ({begun} + all)) (hadErrors : Bool) :
    Balanced i n h p flag (c.send (.progress .running hadErrors)) ({running} + all) :=
  ⟨right.announced.announce hadErrors, right.agreed.trade (by decide) fun _ => le_rfl⟩

theorem tell (right : Balanced i n h p flag c ({a} + all)) {notice : Notice}
    (ends : notice.isStart = false ∧ notice.isEnd = true) (old : early b = early a ∧ late b = late a)
    (saying : untold b + 1 ≤ untold a) (said : told b ≤ told a + 1)
    (lighter : ∀ w ∈ endWeights, w b ≤ w a) (awaits : flag → closed b ≤ closed a) :
    Balanced i n h p flag (c.send notice) ({b} + all) :=
  ⟨right.announced.tell ends old saying said, right.agreed.trade lighter awaits⟩

theorem finish (right : Balanced i n h p flag c ({running} + all)) (alive : p ≠ .disposed)
    (orderly : flag ∨ p = .aborting → n = returned commands h) :
    Balanced i (n + 1) h (p.toward .ready) flag c ({ending p} + all) := by
  have flies := right.announced.returned_le
  simp at flies
  exact ⟨right.announced.trade (by simp [spokenWeights]), right.agreed.finish alive (by omega) orderly⟩

/-- A command that ended while an abort was pending finds it announced. -/
theorem up_of_mute (right : Balanced i n h p flag c ({ending .aborting} + all)) : flag = true := by
  have silent := right.agreed.silent
  cases flag
  · simp at silent
  · rfl

theorem hush {before : Phase} (right : Balanced i n h p true c ({ending before} + all)) :
    Balanced i n h p false c ({ended} + all) :=
  ⟨right.announced.hush, right.agreed.hush⟩

/-- A command that was stopped has seen that no abort has spoken for it. -/
theorem ask {before : Phase} (right : Balanced i n h p false c ({ending before} + all)) :
    Balanced i n h p false c ({unspoken} + all) :=
  right.trade (by simp [spokenWeights]) (by simp [endWeights]) nofun

/-- An abort is accepted, and the flag is raised if a command is in flight. -/
theorem abort (right : Balanced i n h p false c ({able} + all)) {debugger inFlight : Bool}
    (last : n = returned commands h) (flying : inFlight ↔ returned commands h < entered commands h)
    (whose : p = .running ∨ debugger = inFlight) :
    Balanced (i + (!inFlight).toNat) n h .aborting (p = .running || debugger) c ({alarm p} + all) := by
  have runs : p = .running → inFlight := fun runs =>
    flying.mpr ((Nat.le_add_right _ _).trans_lt (right.agreed.busy runs))
  have raised : (decide (p = .running) || debugger) = inFlight := by
    rcases whose with set | rfl
    · simp [set, runs set]
    · simpa using runs
  rw [raised]
  refine ⟨right.announced.abort inFlight, right.agreed.abort last (fun none => ?_) flying.mp⟩
  have least := right.announced.returned_le
  rw [flying] at none
  omega

/-- Once all have returned no abort is pending, and everything has been announced. -/
theorem settled (right : Balanced i n h p flag c all)
    (landed : entered commands h = returned commands h)
    (calm : entered aborters h = returned aborters h) : c.ends = c.starts + i := by
  have down : flag = false := by
    rw [Bool.eq_false_iff]
    intro up
    have waits := right.agreed.awaited up
    omega
  obtain ⟨entering, starting, most, least⟩ := right.announced
  simp only [down, Bool.toNat_false] at most least
  omega

end Balanced

/-! ## Procedures -/

variable {proc : Proc} {e : Errand brokerInterface Duty proc}

theorem brought_spoken (proc : Proc) : tally early (brought proc) = commands proc ∧
    tally late (brought proc) = 0 ∧ tally untold (brought proc) = commands proc ∧
      tally told (brought proc) = aborters proc := by
  cases proc
  case serveClient name request => cases request <;> exact ⟨rfl, rfl, rfl, rfl⟩
  all_goals exact ⟨rfl, rfl, rfl, rfl⟩

theorem brought_ends (proc : Proc) : tally closed (brought proc) = 0 ∧
    ∀ w ∈ endWeights, tally w (brought proc) = 0 := by
  simp only [endWeights, List.forall_mem_cons]
  cases proc
  case serveClient name request => cases request <;> exact ⟨rfl, rfl, rfl, rfl, rfl, nofun⟩
  all_goals exact ⟨rfl, rfl, rfl, rfl, rfl, nofun⟩

/-- Who returns has said everything and has come to an end. -/
theorem spent_weights {x : Multiset Duty} (done : spent proc x) (alive : tally lost x = 0) :
    commands proc ≤ tally late x ∧ commands proc ≤ tally gone x ∧ commands proc ≤ tally closed x ∧
      aborters proc + commands proc ≤ tally told x := by
  cases proc
  case runCommand =>
    obtain ⟨_, rfl | rfl, rfl⟩ := done
    · exact ⟨le_rfl, le_rfl, le_rfl, le_rfl⟩
    · simp at alive
  case serveClient name request =>
    obtain rfl : x = purse request := done
    cases request <;> exact ⟨Nat.zero_le _, Nat.zero_le _, Nat.zero_le _, le_rfl⟩
  all_goals
    obtain rfl := done
    exact ⟨Nat.zero_le _, Nat.zero_le _, Nat.zero_le _, le_rfl⟩

theorem aborters_eq_zero (command : proc.isCommand = false) (aborts : proc.aborts = false) :
    aborters proc = 0 := by
  cases proc
  case runCommand => cases command
  case dispose => cases aborts
  case serveClient name request => cases request <;> first | rfl | cases aborts
  all_goals rfl

theorem Announced.enters (right : Announced i h flag c all) (proc : Proc) :
    Announced i (.entered proc :: h) flag c (brought proc + all) := by
  obtain ⟨hearly, hlate, huntold, htold⟩ := brought_spoken proc
  obtain ⟨entering, starting, most, least⟩ := right
  constructor <;> simp only [tally_add, entered, returned, hearly, hlate, huntold, htold] <;> omega

theorem Agreed.enters (right : Agreed n h p flag all)
    (orderly : proc.isCommand → p = .aborting → returned commands h < entered commands h) :
    Agreed n (.entered proc :: h) p flag (brought proc + all) := by
  obtain ⟨hclosed, hends⟩ := brought_ends proc
  simp only [endWeights, List.forall_mem_cons] at hends
  obtain ⟨hgone, hunsettled, hmute, hlost, -⟩ := hends
  obtain ⟨counted, single, silent, awaited, pending, busy, alive⟩ := right
  constructor
  case single => exact single
  all_goals simp only [tally_add, entered, returned, hclosed, hgone, hunsettled, hmute, hlost]
  case awaited =>
    intro up
    have waits := awaited up
    omega
  case pending =>
    intro aborting
    obtain ⟨none, whose⟩ := pending aborting
    refine ⟨by omega, ?_⟩
    rcases whose with up | idle
    · exact .inl up
    · by_cases command : proc.isCommand
      · have flies := orderly command aborting
        omega
      · simp [commands, command, idle]
  case busy =>
    intro runs
    have flies := busy runs
    omega
  all_goals omega

theorem Announced.returns {x : Multiset Duty} (right : Announced i h flag c (x + all))
    (spoken : commands proc ≤ tally late x) (said : aborters proc + commands proc ≤ tally told x)
    (r : proc.Result) : Announced i (.returned proc r :: h) flag c all := by
  obtain ⟨entering, starting, most, least⟩ := right
  simp only [tally_add] at entering starting most least
  constructor <;> simp only [entered, returned] <;> omega

theorem Agreed.returns {x : Multiset Duty} (right : Agreed n h p flag (x + all))
    (past : commands proc ≤ tally gone x) (ended : commands proc ≤ tally closed x)
    (least : returned commands h + commands proc ≤ entered commands h) (r : proc.Result) :
    Agreed n (.returned proc r :: h) p flag all := by
  obtain ⟨counted, single, silent, awaited, pending, busy, alive⟩ := right
  simp only [tally_add] at counted silent awaited pending busy alive
  constructor
  case silent => exact (Nat.le_add_left _ _).trans silent
  case alive => omega
  all_goals simp only [entered, returned]
  case single =>
    intro pending
    have last := single pending
    omega
  case awaited =>
    intro up
    have waits := awaited up
    omega
  case pending =>
    intro aborting
    obtain ⟨none, whose⟩ := pending aborting
    exact ⟨by omega, whose.imp_right fun idle => by omega⟩
  case busy =>
    intro runs
    have flies := busy runs
    omega
  all_goals omega

theorem Balanced.enters (served : Serves proc e) (right : Balanced i n h p flag c (e.price + all))
    (orderly : proc.isCommand → p = .aborting → returned commands h < entered commands h) :
    Balanced i n (.entered proc :: h) p flag c (e.kept + e.stock + all) := by
  have mine : e.kept + e.stock + all = brought proc + (e.price + all) := by
    rw [served.entering, add_comm e.price, add_assoc]
  rw [mine]
  exact ⟨right.announced.enters proc, right.agreed.enters orderly⟩

theorem Balanced.returns (served : Serves proc e) {r : proc.Result} {own : Multiset Duty}
    (yields : e.yields r own) (right : Balanced i n h p flag c (e.kept + own + all)) :
    Balanced i n (.returned proc r :: h) p flag c (e.back r own + all) := by
  obtain ⟨x, split, done⟩ := served.returning yields
  have mine : e.kept + own + all = x + (e.back r own + all) := by
    rw [split, add_comm (e.back r own), add_assoc]
  rw [mine] at right
  have alive : tally lost x = 0 := by
    have none := right.agreed.alive
    rw [tally_add] at none
    omega
  obtain ⟨spoken, past, ended, said⟩ := spent_weights done alive
  have least := right.announced.returned_le
  rw [tally_add, tally_add] at least
  exact ⟨right.announced.returns spoken said r, right.agreed.returns past ended (by omega) r⟩

end Announcements

end SessionBroker
