import Mathlib.Data.Finset.Card
import SessionBroker.Proofs.Attendance
import SessionBroker.Proofs.Duties.Conduct
import SessionBroker.Proofs.Parts

/-!
# Repose

Whatever happens to a broker, its phase changes only as phases may. While a command or an abort has set
the phase, somebody is under way who will set it back; while a lease is out, somebody is under way who
will give it back. So once nobody is under way the broker is ready, or disposed, and no lease is out.
-/

namespace SessionBroker

/-! ## Changes of the phase -/

theorem Phase.toward_cases (p target : Phase) :
    p.toward target = p ∨ p.canBecome (p.toward target) := by
  unfold toward
  split
  · next may => exact .inr may
  · exact .inl rfl

/-- A step changes the phase as phases may change. -/
theorem World.phaseAfter_cases (p : Phase) (action : Action) :
    phaseAfter p action = p ∨ p.canBecome (phaseAfter p action) := by
  unfold phaseAfter
  split
  · exact p.toward_cases _
  · exact p.toward_cases .ready
  · cases p <;> first | exact .inl rfl | exact .inr rfl
  · exact .inl rfl

/-- Whatever happens, the phase changes as phases may change. -/
theorem Play.phase_move (p : Play) (m : Move) :
    (p.move m).phase = p.phase ∨ p.phase.canBecome (p.move m).phase := by
  cases m with
  | arrive name request => exact .inl rfl
  | outside change => cases change <;> exact .inl rfl
  | step flow pick =>
    simp only [Play.move]
    split
    · exact .inl rfl
    · next d hs =>
      obtain ⟨⟨proc, code, wait⟩, -, hs⟩ := Option.bind_eq_some_iff.mp hs
      cases code with
      | done a => cases wait <;> cases hs <;> exact .inl rfl
      | call | fork => cases hs; exact .inl rfl
      | act action next =>
        simp only [Machine.stepFlow] at hs
        split at hs
        · cases hs
        · next hp =>
          cases hs
          have after := World.phase_perform hp
          show _ = _ ∨ Phase.canBecome _ _ = true
          simp only [Play.phase, Config.update, after]
          exact World.phaseAfter_cases _ _

/-- Nothing follows the end of a broker. -/
theorem Play.disposed_moves {p : Play} (disposed : p.phase = .disposed) (ms : List Move) :
    (p.moves ms).phase = .disposed := by
  refine Play.moves_keep (P := fun q => q.phase = .disposed) (fun q m ended => ?_) disposed ms
  rcases q.phase_move m with same | may
  · rw [same, ended]
  · rw [ended] at may
    cases may

namespace Repose

open Duties Duties.Duty

abbrev History := List (Event brokerInterface)

/-! ## The phase -/

/-- The duties that have to do with the phase. -/
def ofPhase : Duty → Nat
  | hand | lease _ => 0
  | _ => 1

/-- The duties of those who do not set the phase back. -/
def idle : Duty → Nat
  | able | alarm .running | ending _ | unspoken | ended => 1
  | _ => 0

/-- How many duties that have to do with the phase a procedure brings. -/
def phaseDuties (proc : Proc) : Nat := tally ofPhase (brought proc)

/-- Every duty is that of somebody under way, and who has set the phase will set it back. -/
structure Phased (h : History) (p : Phase) (all : Multiset Duty) : Prop where
  due : tally ofPhase all + returned phaseDuties h ≤ entered phaseDuties h
  someone : p = .running ∨ p = .aborting →
    tally idle all + returned phaseDuties h < entered phaseDuties h
  known : p ≠ .unknown

variable {h : History} {w t : World} {p : Phase} {all got : Multiset Duty} {flow : Nat} {pick : Bool}
  {proc : Proc}

theorem Phased.less {less : Multiset Duty} (le : less ≤ all) (right : Phased h p all) :
    Phased h p less where
  due := (Nat.add_le_add_right (tally_mono le) _).trans right.due
  someone set := (Nat.add_le_add_right (tally_mono le) _).trans_lt (right.someone set)
  known := right.known

theorem toward_ready (known : p ≠ .unknown) : (p.toward .ready ≠ .running ∧
    p.toward .ready ≠ .aborting) ∧ p.toward .ready ≠ .unknown := by
  cases p <;> first | exact absurd rfl known | decide

theorem toward_running (known : p ≠ .unknown) : p.toward .running ≠ .unknown := by
  cases p <;> first | exact absurd rfl known | decide

/-- Where the phase is set back nobody needs to do so any more. -/
theorem Phased.back {less : Multiset Duty} (right : Phased h p all)
    (fewer : tally ofPhase less ≤ tally ofPhase all) {p' : Phase}
    (back : (p' ≠ .running ∧ p' ≠ .aborting) ∧ p' ≠ .unknown) : Phased h p' less where
  due := (Nat.add_le_add_right fewer _).trans right.due
  someone set := by
    rcases set with rfl | rfl
    · exact absurd rfl back.1.1
    · exact absurd rfl back.1.2
  known := back.2

section

variable {a b : Duty}

/-- One duty takes the place of another. -/
theorem Phased.trade (right : Phased h p ({a} + all)) (fewer : ofPhase b ≤ ofPhase a)
    (idler : idle b ≤ idle a) : Phased h p ({b} + all) where
  due := (Nat.add_le_add_right (tally_trade fewer) _).trans right.due
  someone set := (Nat.add_le_add_right (tally_trade idler) _).trans_lt (right.someone set)
  known := right.known

theorem idle_le (d : Duty) : idle d ≤ ofPhase d := by
  cases d
  case alarm before => cases before <;> decide
  all_goals first | exact Nat.le_refl _ | exact Nat.zero_le _

/-- Who sets the phase has something to do and is not idle. -/
theorem Phased.set (right : Phased h p ({a} + all)) (due : ofPhase a = 1) (fewer : ofPhase b = 1)
    (busy : idle b = 0) {p' : Phase} (known : p' ≠ .unknown) : Phased h p' ({b} + all) where
  due := (Nat.add_le_add_right (tally_trade (fewer.trans due.symm).le) _).trans right.due
  someone _ := by
    have owed := right.due
    have others : tally idle all ≤ tally ofPhase all := tally_le idle_le
    simp only [tally_add, tally_singleton] at owed ⊢
    omega
  known := known

end

theorem phased_acts {action : Action} {u : Use brokerInterface Duty action} {r : action.Reply}
    (used : Discharges action u) (right : Phased h w.phase (u.takes + all))
    (hp : World.perform flow pick action w = some (r, t)) (gives : u.gives r got) :
    Phased h t.phase (got + all) := by
  have after := World.phase_perform hp
  cases used
  case look i ticket caller =>
    obtain rfl := gives
    have free : ofPhase (fetched i r) = 0 ∧ idle (fetched i r) = 0 := by
      unfold fetched
      split <;> exact ⟨rfl, rfl⟩
    rw [after]
    exact right.trade free.1.le free.2.le
  case begin =>
    obtain rfl := gives
    rw [after]
    exact right.set (b := begun) rfl rfl rfl (toward_running right.known)
  case goOn =>
    obtain rfl := gives
    rw [after]
    exact right.set (b := running) rfl rfl rfl (toward_running right.known)
  case «end» =>
    obtain rfl := gives
    rw [after]
    exact right.back (tally_trade (b := ending r) le_rfl) (toward_ready right.known)
  case setBack =>
    obtain rfl := gives
    rw [after]
    exact right.back (tally_trade (b := able) le_rfl) (toward_ready right.known)
  case release | announce | silent | speak | tell =>
    obtain rfl := gives
    rw [after]
    exact right.trade le_rfl le_rfl
  case ask before _ _ =>
    obtain rfl := gives
    rw [after]
    cases r <;> exact right.trade le_rfl le_rfl
  case abort debug =>
    obtain rfl := gives
    rcases World.beginAbort_perform hp with ⟨rfl, rfl⟩ | ⟨rfl, -, -, rfl⟩
    · exact right
    · by_cases runs : w.phase = .running
      · have set : Phased h .aborting ({able} + all) :=
          ⟨right.due, fun _ => right.someone (.inl runs), by simp⟩
        exact set.trade le_rfl (by simp [begunAbort, runs, idle])
      · have owes : idle (alarm w.phase) = 0 := by
          cases hw : w.phase <;> first | exact absurd hw runs | rfl
        exact right.set (b := alarm w.phase) rfl rfl owes (by simp)
  case warn before hadErrors =>
    obtain rfl := gives
    rw [after]
    exact right.trade (by cases before <;> decide) (by cases before <;> decide)
  case calm calm =>
    obtain rfl := gives
    rw [after]
    rcases phaseAfter_calm calm w.phase with same | back | gone
    · rw [same]
      exact right
    · rw [back]
      exact right.back le_rfl (toward_ready right.known)
    · rw [gone]
      exact right.back le_rfl (by simp)

/-- Who returns has become idle. -/
theorem phaseDuties_le {x : Multiset Duty} (done : spent proc x) :
    phaseDuties proc ≤ tally idle x := by
  cases proc
  case runCommand =>
    obtain ⟨_, rfl | rfl, rfl⟩ := done <;> exact le_rfl
  case serveClient name request =>
    obtain rfl : x = purse request := done
    show tally ofPhase (purse request) ≤ _
    cases request <;> exact le_rfl
  case dispose =>
    obtain rfl : x = {able} := done
    exact le_rfl
  all_goals exact Nat.zero_le _

theorem phased_enters {e : Errand brokerInterface Duty proc} (served : Serves proc e)
    (right : Phased h p (e.price + all)) : Phased (.entered proc :: h) p (e.kept + e.stock + all) where
  due := by
    have due := right.due
    rw [served.entering]
    simp only [tally_add, entered, returned, phaseDuties] at due ⊢
    omega
  someone set := by
    have someone := right.someone set
    have fewer : tally idle (brought proc) ≤ tally ofPhase (brought proc) := tally_le idle_le
    rw [served.entering]
    simp only [tally_add, entered, returned, phaseDuties] at someone ⊢
    omega
  known := right.known

theorem phased_returns {e : Errand brokerInterface Duty proc} (served : Serves proc e)
    {r : proc.Result} {own : Multiset Duty} (yields : e.yields r own)
    (right : Phased h p (e.kept + own + all)) : Phased (.returned proc r :: h) p (e.back r own + all) := by
  obtain ⟨x, split, done⟩ := served.returning yields
  rw [split] at right
  have least := phaseDuties_le done
  have fewer : tally idle x ≤ tally ofPhase x := tally_le idle_le
  refine ⟨?_, fun set => ?_, right.known⟩
  · have due := right.due
    simp only [tally_add, entered, returned] at due ⊢
    omega
  · have someone := right.someone set
    simp only [tally_add, entered, returned] at someone ⊢
    omega

/-! ## Leases -/

/-- How many hands a procedure brings. -/
def hands (proc : Proc) : Nat := (brought proc).count hand

/-- For every lease that is out somebody's hand is not free, and leases are held only while they are
out. -/
structure Leased (h : History) (s : FrameStack) (all : Multiset Duty) : Prop where
  out : ∀ S : Finset Nat, (∀ i ∈ S, s.isOut i) →
    all.count hand + S.card + returned hands h ≤ entered hands h
  held : ∀ i, all.count (lease i) ≤ (s.isOut i).toNat

variable {s u : FrameStack}

/-- Where no lease goes out or comes back, nothing changes. -/
theorem Leased.same {less : Multiset Duty} (right : Leased h s all)
    (hands : less.count hand ≤ all.count hand)
    (leases : ∀ i, less.count (lease i) ≤ all.count (lease i)) (same : ∀ i, u.isOut i = s.isOut i) :
    Leased h u less where
  out S out := by
    have before := right.out S fun i hi => (same i).symm.trans (out i hi)
    omega
  held i := by
    rw [same i]
    exact (leases i).trans (right.held i)

theorem Leased.goesOut {i : Nat} (right : Leased h s ({hand} + all)) (free : s.isOut i = false)
    (out : u.isOut i = true) (same : ∀ j, j ≠ i → u.isOut j = s.isOut j) :
    Leased h u ({lease i} + all) where
  out S hS := by
    have before := right.out (S.erase i) fun j hj => by
      rw [← same j (Finset.ne_of_mem_erase hj)]
      exact hS j (Finset.mem_of_mem_erase hj)
    have most := Finset.pred_card_le_card_erase (s := S) (a := i)
    simp only [Multiset.count_add, Multiset.count_singleton_self] at before ⊢
    rw [Multiset.count_singleton, if_neg (by simp)]
    omega
  held j := by
    have before := right.held j
    simp only [Multiset.count_add, Multiset.count_singleton] at before ⊢
    by_cases mine : j = i
    · subst mine
      rw [free] at before
      simp only [reduceCtorEq, if_true, if_false, out, Bool.toNat_true, Bool.toNat_false] at before ⊢
      omega
    · rw [same j mine]
      simpa [mine] using before

theorem Leased.comesBack {i : Nat} (right : Leased h s ({lease i} + all))
    (same : ∀ j, u.isOut j = (s.isOut j && decide (j ≠ i))) : Leased h u ({hand} + all) := by
  have out : s.isOut i = true := by
    have held := right.held i
    simp only [Multiset.count_add, Multiset.count_singleton_self] at held
    cases hs : s.isOut i
    · rw [hs] at held
      simp at held
    · rfl
  constructor
  · intro S hS
    have away : i ∉ S := fun mine => by
      have := hS i mine
      simp [same] at this
    have before := right.out (insert i S) fun j hj => by
      rcases Finset.mem_insert.mp hj with rfl | hj
      · exact out
      · have := hS j hj
        rw [same, Bool.and_eq_true] at this
        exact this.1
    rw [Finset.card_insert_of_notMem away] at before
    simp only [Multiset.count_add, Multiset.count_singleton_self] at before ⊢
    rw [Multiset.count_singleton, if_neg (by simp)] at before
    omega
  · intro j
    have before := right.held j
    simp only [Multiset.count_add, Multiset.count_singleton] at before ⊢
    rw [same]
    by_cases mine : j = i
    · subst mine
      rw [out] at before
      simp only [reduceCtorEq, ne_eq, not_true, decide_false, Bool.and_false, if_true, if_false,
        Bool.toNat_true, Bool.toNat_false] at before ⊢
      omega
    · simpa [mine] using before

/-- Calm steps leave the leases alone. -/
theorem isOut_calm {action : Action} {r : action.Reply} (calm : action.IsCalm)
    (hp : World.perform flow pick action w = some (r, t)) (i : Nat) :
    t.frames.isOut i = w.frames.isOut i := by
  cases action with
  | frames op =>
    exact FrameStack.isOut_perform (by rintro _ _ _ rfl; exact calm) (by rintro _ rfl; exact calm)
      (World.frames_step hp)
  | _ => rw [World.frames_perform (by rintro _ ⟨⟩) hp]

/-- Duties that have to do with no lease take each other's place. -/
theorem Leased.trade {a b : Duty} (right : Leased h s ({a} + all)) (noHand : b ≠ hand)
    (noLease : ∀ i, b ≠ lease i) (same : u = s) : Leased h u ({b} + all) := by
  subst same
  refine right.same ?_ (fun i => ?_) fun _ => rfl
  · rw [Multiset.count_add, Multiset.count_singleton, if_neg noHand.symm, zero_add]
    exact Multiset.count_le_of_le _ (Multiset.le_add_left _ _)
  · rw [Multiset.count_add, Multiset.count_singleton, if_neg (noLease i).symm, zero_add]
    exact Multiset.count_le_of_le _ (Multiset.le_add_left _ _)

theorem leased_acts {action : Action} {u : Use brokerInterface Duty action} {r : action.Reply}
    (used : Discharges action u) (right : Leased h w.frames (u.takes + all))
    (hp : World.perform flow pick action w = some (r, t)) (gives : u.gives r got) :
    Leased h t.frames (got + all) := by
  cases used
  case look i ticket caller =>
    obtain rfl := gives
    obtain ⟨goesOut, stays⟩ := FrameStack.isOut_look (World.frames_step hp)
    by_cases granted : r = .granted
    · rw [fetched, if_pos granted]
      obtain ⟨free, out⟩ := goesOut granted
      exact right.goesOut free out fun j other => stays j fun _ => other
    · rw [fetched, if_neg granted]
      exact right.same le_rfl (fun _ => le_rfl) fun j => stays j fun g => absurd g granted
  case release i =>
    obtain rfl := gives
    exact right.comesBack fun j => FrameStack.isOut_release (World.frames_step hp)
  case calm calm =>
    obtain rfl := gives
    exact right.same le_rfl (fun _ => le_rfl) (isOut_calm calm hp)
  all_goals
    obtain rfl := gives
    have same := World.frames_perform (by rintro _ ⟨⟩) hp
  case ask before _ _ => cases r <;> exact right.trade (by simp [asked]) (by simp [asked]) same
  case abort debug =>
    rcases r with _ | ⟨before, _⟩ <;>
      exact right.trade (by simp [begunAbort]) (by simp [begunAbort]) same
  case warn before hadErrors =>
    by_cases runs : before = .running <;>
      exact right.trade (by simp [announced, runs]) (by simp [announced, runs]) same
  all_goals exact right.trade (by simp) (by simp) same

theorem count_lease_brought (i : Nat) : (brought proc).count (lease i) = 0 := by
  cases proc
  case serveClient name request =>
    show (purse request).count (lease i) = 0
    cases request <;> simp [purse]
  all_goals simp [brought]

theorem hands_le {x : Multiset Duty} (done : spent proc x) : hands proc ≤ x.count hand := by
  cases proc
  case runCommand =>
    obtain ⟨_, rfl | rfl, rfl⟩ := done <;> exact le_rfl
  all_goals
    obtain rfl := done
    exact le_rfl

theorem leased_enters {e : Errand brokerInterface Duty proc} (served : Serves proc e)
    (right : Leased h s (e.price + all)) : Leased (.entered proc :: h) s (e.kept + e.stock + all) where
  out S out := by
    have before := right.out S out
    rw [served.entering]
    simp only [Multiset.count_add, entered, returned, hands] at before ⊢
    omega
  held i := by
    have before := right.held i
    rw [served.entering]
    simp only [Multiset.count_add, count_lease_brought] at before ⊢
    omega

theorem leased_returns {e : Errand brokerInterface Duty proc} (served : Serves proc e)
    {r : proc.Result} {own : Multiset Duty} (yields : e.yields r own)
    (right : Leased h s (e.kept + own + all)) : Leased (.returned proc r :: h) s (e.back r own + all) := by
  obtain ⟨x, split, done⟩ := served.returning yields
  rw [split] at right
  have least := hands_le done
  refine ⟨fun S out => ?_, fun i => ?_⟩
  · have before := right.out S out
    simp only [Multiset.count_add, entered, returned] at before ⊢
    omega
  · have before := right.held i
    simp only [Multiset.count_add] at before ⊢
    omega

/-! ## Plays -/

/-- Who has set the phase or taken a lease is under way. -/
structure Reposes (h : History) (w : World) (all : Multiset Duty) : Prop where
  phased : Phased h w.phase all
  leased : Leased h w.frames all

theorem balances : contract.Balances brokerMachine Reposes where
  loses le right := ⟨right.phased.less le,
    right.leased.same (Multiset.count_le_of_le _ le) (fun _ => Multiset.count_le_of_le _ le) fun _ => rfl⟩
  acts {h s t all flow pick action r} u used right hp := by
    obtain ⟨got, gives⟩ := gives_some used r
    exact ⟨got, gives, phased_acts used right.phased hp gives, leased_acts used right.leased hp gives⟩
  enters e served right := ⟨phased_enters served right.phased, leased_enters served right.leased⟩
  returns e served yields right :=
    ⟨phased_returns served yields right.phased, leased_returns served yields right.leased⟩
  bodies := bodies

variable {q : Play} {ms : List Move}

theorem reposes_apply (change : Outside) (h : History) (w : World) (all : Multiset Duty)
    (right : Reposes h w all) : Reposes h (change.apply w) all where
  phased := by
    have phase : (change.apply w).phase = w.phase := by cases change <;> rfl
    rw [phase]
    exact right.phased
  leased := right.leased.same le_rfl (fun _ => le_rfl) (change.isOut_apply w)

theorem keeps_move (keeps : q.Keeps contract Reposes) {m : Move} (call : m.IsCall) :
    (q.move m).Keeps contract Reposes := by
  refine keeps.move bodies (balances.entered (fun name request hm => ?_) reposes_apply)
  subst hm
  exact ⟨_, .client name call, rfl⟩

theorem keeps_moves (keeps : q.Keeps contract Reposes) (calls : ∀ m ∈ ms, m.IsCall) :
    (q.moves ms).Keeps contract Reposes := by
  induction ms generalizing q with
  | nil => exact keeps
  | cons m ms ih =>
    obtain ⟨call, calls⟩ := List.forall_mem_cons.mp calls
    exact ih (keeps_move keeps call) calls

theorem reposes_new (settings : BrokerSettings) (endpoints : List (EngineName × Endpoint))
    (main : EngineName) (host : Host) : Reposes [] (.new settings endpoints main host) 0 where
  phased :=
    { due := le_rfl
      someone := fun set => by rcases set with set | set <;> cases set
      known := nofun }
  leased := by
    have none : ∀ i, FrameStack.new.isOut i = false := by
      intro i
      rcases i with _ | i <;> rfl
    refine ⟨fun S out => ?_, fun i => Nat.zero_le _⟩
    have empty : S = ∅ := Finset.eq_empty_of_forall_notMem fun i hi => by
      have := out i hi
      rw [show (World.new settings endpoints main host).frames = .new from rfl, none i] at this
      cases this
    rw [empty]
    exact le_rfl

/-- Calls, commands, and requests that are served on the threads of frames. -/
def isBusy : Proc → Bool
  | .serveClient .. | .dispose | .runCommand .. | .serve .. => true
  | _ => false

/-- No call and no command is under way. -/
def AtRest (c : BrokerConfig) : Prop := ∀ proc ∈ c.procs, isBusy proc = false

instance (c : BrokerConfig) : Decidable (AtRest c) := by
  unfold AtRest
  infer_instance

theorem brought_eq_zero (calm : isBusy proc = false) : brought proc = 0 := by
  cases proc <;> first | rfl | cases calm

/-- A broker that has begun stays so. -/
theorem started_moves (started : q.phase ≠ .notStarted) (ms : List Move) :
    (q.moves ms).phase ≠ .notStarted := by
  refine Play.moves_keep (P := fun q => q.phase ≠ .notStarted) (fun q m started => ?_) started ms
  rcases q.phase_move m with same | may
  · rwa [same]
  · intro back
    rw [back] at may
    cases hq : q.phase <;> rw [hq] at may <;> cases may

/-- Whatever happens to a broker, its phase changes only as phases may, and it stays disposed once it
is. Whenever no call and no command is under way after the broker has been set up, it is ready or
disposed, and no frame's lease is out. -/
theorem comes_to_rest (settings : BrokerSettings) (endpoints : List (EngineName × Endpoint))
    (main : EngineName) (host : Host) (before after : List Move)
    (calls : ∀ m ∈ before ++ after, m.IsCall) :
    let p := (Play.new settings endpoints main host).moves before
    let q := p.moves after
    p.phase ≠ .notStarted →
      (∀ m, (q.move m).phase = q.phase ∨ q.phase.canBecome (q.move m).phase) ∧
      (q.phase = .disposed → ∀ ms, (q.moves ms).phase = .disposed) ∧
      (AtRest q.config → (q.phase = .ready ∨ q.phase = .disposed) ∧
        ∀ i, q.config.shared.frames.isOut i = false) := by
  intro p q started
  refine ⟨q.phase_move, Play.disposed_moves, fun rest => ?_⟩
  have moves : q = (Play.new settings endpoints main host).moves (before ++ after) := by
    simp only [q, p, Play.moves, List.foldl_append]
  have attended : q.Attended := moves ▸ Play.attended_moves settings endpoints main host _
  have keeps : q.Keeps contract Reposes :=
    moves ▸ keeps_moves (Play.keeps_new (reposes_new settings endpoints main host)) calls
  obtain ⟨-, all, -, right⟩ := keeps
  have none : ∀ weight : Proc → Nat, (∀ proc, isBusy proc = false → weight proc = 0) →
      entered weight q.history = returned weight q.history := by
    intro weight light
    have balance := attended.balance weight
    rwa [attending_eq_zero fun proc here => light proc (rest proc here), Nat.add_zero] at balance
  constructor
  · have nobody := none phaseDuties fun proc calm => by rw [phaseDuties, brought_eq_zero calm]; rfl
    have back : ¬(q.phase = .running ∨ q.phase = .aborting) := by
      intro set
      have someone := right.phased.someone set
      omega
    have known : q.phase ≠ .unknown := right.phased.known
    have begun : q.phase ≠ .notStarted := started_moves started after
    cases hq : q.phase with
    | ready => exact .inl rfl
    | disposed => exact .inr rfl
    | running => exact absurd (.inl hq) back
    | aborting => exact absurd (.inr hq) back
    | notStarted => exact absurd hq begun
    | unknown => exact absurd hq known
  · intro i
    have nobody := none hands fun proc calm => by rw [hands, brought_eq_zero calm]; rfl
    by_contra out
    have held := right.leased.out {i} fun j hj => by
      rw [Finset.mem_singleton.mp hj]
      simpa using out
    rw [Finset.card_singleton] at held
    omega

/-! ### An aborted stop -/

/-- An engine that stops in the debugger, and on which a command can wait. -/
def stoppingEndpoints : List (EngineName × Endpoint) :=
  [("main", ⟨.new ⟨5, 1⟩ ⟨1, "localhost", "host"⟩
    [("stop", .break ⟨none, none, []⟩), ("wait", .block)], false, none, none⟩)]

/-- A broker of that engine. -/
abbrev stopping : Play := .new .standard stoppingEndpoints "main" .new

def setUp : List Move := [.arrive "set up" (.setUp "main" true)] ++ turns 0 40

/-- A command stops in the debugger, and another one waits at the debugger's prompt. -/
def stopAndWait : List Move :=
  [.arrive "stop" (.execute (.script "stop") .standard none)] ++ turns 1 80
    ++ [.arrive "wait" (.execute (.script "wait") .interactive none)] ++ turns 2 40 ++ turns 1 60

/-- Both are aborted, one after the other. -/
def abortBoth : List Move :=
  [.arrive "abort" (.abort false)] ++ turns 3 40 ++ turns 1 60 ++ turns 2 40
    ++ [.arrive "leave" (.abort true)] ++ turns 4 40 ++ turns 1 120

instance (m : Move) : Decidable m.IsCall := by
  rcases m with ⟨name, request⟩ | _ | _
  · cases request <;> simp only [Move.IsCall, ClientRequest.IsCall] <;> infer_instance
  all_goals exact .isTrue trivial

/-- Commands that run and hold leases are gone once they have been aborted. -/
theorem comes_to_rest_after_aborts :
    let p := (stopping.moves setUp).moves stopAndWait
    let q := (stopping.moves setUp).moves (stopAndWait ++ abortBoth)
    p.phase = .running ∧ p.config.shared.frames.isOut 0 ∧ p.config.shared.frames.isOut 1 ∧
      AtRest q.config ∧ (q.phase = .ready ∨ q.phase = .disposed) ∧
        ∀ i, q.config.shared.frames.isOut i = false := by
  have calls : ∀ m ∈ setUp ++ (stopAndWait ++ abortBoth), m.IsCall := by decide +kernel
  have started : (stopping.moves setUp).phase ≠ .notStarted := by decide +kernel
  have busy : ((stopping.moves setUp).moves stopAndWait).phase = .running ∧
      ((stopping.moves setUp).moves stopAndWait).config.shared.frames.isOut 0 ∧
      ((stopping.moves setUp).moves stopAndWait).config.shared.frames.isOut 1 := by decide +kernel
  have rest : AtRest ((stopping.moves setUp).moves (stopAndWait ++ abortBoth)).config := by
    decide +kernel
  have settles := comes_to_rest .standard stoppingEndpoints "main" .new setUp
    (stopAndWait ++ abortBoth) calls
  -- from here on the broker need not be computed any more
  generalize stopping.moves setUp = p at started busy rest settles ⊢
  exact ⟨busy.1, busy.2.1, busy.2.2, rest, (settles started).2.2 rest⟩

end Repose

end SessionBroker
