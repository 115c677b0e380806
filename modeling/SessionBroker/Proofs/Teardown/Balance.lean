import SessionBroker.Proofs.Repose
import SessionBroker.Proofs.Teardown.Frames
import SessionBroker.Proofs.Teardown.Leaving
import SessionBroker.Proofs.Teardown.Sessions

/-!
# What holds all the time during the teardown

The charges of all flows together account for the state of the broker: what nobody is charged with has
been done. Every action that a flow may perform with its charge keeps this so, and its reply is one that
can be.
-/

namespace SessionBroker

namespace World

variable {w u : World} {flow : Nat} {pick : Bool} {action : Action} {r : action.Reply}

/-- No engine comes or goes. -/
theorem isSome_endpoint?_perform (h : perform flow pick action w = some (r, u)) (name : EngineName) :
    (u.endpoint? name).isSome = (w.endpoint? name).isSome := by
  rcases endpoint?_perform h name with ⟨op, reply, p, q, -, before, -, after⟩ | ⟨-, same⟩
  · rw [before, after]
    rfl
  · rw [same]

/-- Nothing but a step to that phase disposes a broker, and nothing makes up for it. -/
theorem disposed_perform (other : action ≠ .broker (.setPhase .disposed))
    (h : perform flow pick action w = some (r, u)) : u.phase = .disposed ↔ w.phase = .disposed := by
  have toward (p target : Phase) (other : target ≠ .disposed) : p.toward target = .disposed ↔ p = .disposed := by
    cases p <;> cases target <;> simp_all [Phase.toward, Phase.canBecome]
  rw [phase_perform h]
  cases action with
  | broker op =>
    cases op
    case setPhase target =>
      exact toward _ _ fun same => other (by rw [same])
    case endCommand => exact toward _ _ (by decide)
    case beginAbort =>
      simp only [phaseAfter]
      cases w.phase <;> simp [Phase.ignoresAbort]
    all_goals exact Iff.rfl
  | _ => exact Iff.rfl

/-- A broker that is disposed stays so. -/
theorem disposed_stays (h : perform flow pick action w = some (r, u)) (disposed : w.phase = .disposed) :
    u.phase = .disposed := by
  by_cases other : action = .broker (.setPhase .disposed)
  · subst other
    have after : u.phase = w.phase.toward .disposed := phase_perform h
    rw [after, disposed]
    rfl
  · exact (disposed_perform other h).mpr disposed

end World

namespace Teardown

open Unwinding (changerAfter closedAfter)

/-! ## The read loop -/

/-- The read loop has nothing to run, and whoever waits for a command behind it gets a response. -/
structure Idling (old : Onset) (w : World) : Prop where
  tasks : w.idle.tasks = []
  pumps : w.host.pumps = 0
  promises : ∀ p ∈ old.awaited, w.promises[p]? = some .open ∨
    ∃ payload, w.promises[p]? = some (.kept payload) ∧ answers payload

namespace Idling

variable {old : Onset} {w u : World} {flow : Nat} {pick : Bool} {h : Charge} (idling : Idling old w)
include idling

theorem take_eq : w.idle.take = (none, w.idle) := by
  rw [IdleQueue.take, idling.tasks]

/-- No task is discarded. -/
theorem setActive {active : Bool} {r : Unit}
    (performed : World.perform flow pick (.idle (.setActive active)) w = some (r, u)) :
    u.idle.tasks = [] ∧ u.promises = w.promises := by
  simp only [World.perform, World.performIdle, IdleQueue.setActive, idling.tasks] at performed
  cases active <;>
    · cases performed
      exact ⟨rfl, rfl⟩

/-- A read finds no idle tasks to run. -/
theorem poll {reader : Nat} {event : ReadEvent} {host : Host} (polled : w.host.poll? reader = some (event, host)) :
    event ≠ .pump ∧ host.pumps = 0 := by
  unfold Host.poll? at polled
  simp only [idling.pumps, lt_irrefl, if_false] at polled
  split at polled
  · cases polled
  · split at polled
    · cases polled
      exact ⟨by rintro ⟨⟩, rfl⟩
    · split at polled
      · cases polled
        exact ⟨by rintro ⟨⟩, rfl⟩
      · split at polled
        · cases polled
          exact ⟨by rintro ⟨⟩, idling.pumps⟩
        · cases polled

theorem noteIdle_eq {op : IdleOp} {r : op.Reply} (performed : World.perform flow pick (.idle op) w = some (r, u)) :
    noteIdle h op r = some h := by
  cases op
  case take =>
    simp only [World.perform, World.performIdle, idling.take_eq] at performed
    cases performed
    rfl
  all_goals rfl

theorem noteHost_eq {op : HostOp} {r : op.Reply} (performed : World.perform flow pick (.host op) w = some (r, u)) :
    noteHost h op r = some h := by
  obtain ⟨⟨r', host⟩, polled, same⟩ := Option.map_eq_some_iff.mp performed
  cases same
  cases op
  case poll reader =>
    have other := (idling.poll polled).1
    cases r <;> first | rfl | exact absurd rfl other
  all_goals rfl

/-- Whoever waits for a command behind the read loop is told what it came to. -/
theorem told {p : Nat} {payload : Option Payload}
    (performed : World.perform flow pick (.broker (.awaitPromise p)) w = some (payload, u)) :
    p ∈ old.awaited → payload.any answers := by
  intro awaited
  simp only [World.perform, World.performBroker] at performed
  rcases idling.promises p awaited with waits | ⟨told, kept, right⟩
  · rw [waits] at performed
    cases performed
  · rw [kept] at performed
    cases performed
    exact right

variable {action : Action} {r : action.Reply}

theorem tasks_perform (may : may old h action) (performed : World.perform flow pick action w = some (r, u)) :
    u.idle.tasks = [] := by
  by_cases other : ∀ op, action ≠ .idle op
  · rw [(World.unmoved_perform performed).idle other]
    exact idling.tasks
  · obtain ⟨op, rfl⟩ : ∃ op, action = .idle op := by simpa using other
    cases op
    case setActive active => exact (idling.setActive performed).1
    case setInvoking =>
      cases performed
      exact idling.tasks
    case take =>
      simp only [World.perform, World.performIdle, idling.take_eq] at performed
      cases performed
      exact idling.tasks
    all_goals exact may.elim

theorem pumps_perform (may : may old h action) (performed : World.perform flow pick action w = some (r, u)) :
    u.host.pumps = 0 := by
  by_cases other : ∀ op, action ≠ .host op
  · rw [(World.unmoved_perform performed).host other]
    exact idling.pumps
  · obtain ⟨op, rfl⟩ : ∃ op, action = .host op := by simpa using other
    obtain ⟨⟨r', host⟩, polled, same⟩ := Option.map_eq_some_iff.mp performed
    cases same
    cases op
    case poll reader => exact (idling.poll polled).2
    case startLoop | call | endRead =>
      cases polled
      exact idling.pumps
    all_goals exact may.elim

/-- A promise that somebody waits for is kept at most with what he may be told. -/
theorem promises_perform (may : may old h action) (performed : World.perform flow pick action w = some (r, u)) :
    ∀ p ∈ old.awaited, u.promises[p]? = some .open ∨
      ∃ payload, u.promises[p]? = some (.kept payload) ∧ answers payload := by
  have unmoved (same : u.promises = w.promises) := same ▸ idling.promises
  by_cases books : action.Books
  · cases action with
    | frames op =>
      obtain ⟨_, -, same⟩ := Option.map_eq_some_iff.mp performed
      cases same
      exact idling.promises
    | idle op =>
      cases op
      case setActive active =>
        exact unmoved (idling.setActive performed).2
      case take =>
        cases performed
        exact idling.promises
      all_goals first | exact may.elim | exact books.elim
    | broker op =>
      cases op
      case keep p payload =>
        cases performed
        intro p' awaited
        show (w.promises.set p (.kept payload))[p']? = _ ∨ ∃ _, (w.promises.set p (.kept payload))[p']? = _ ∧ _
        by_cases same : p = p'
        · subst same
          have inside : p < w.promises.length := by
            by_contra outside
            have none := List.getElem?_eq_none (not_lt.mp outside)
            rcases idling.promises p awaited with waits | ⟨_, kept, -⟩
            · simp [none] at waits
            · simp [none] at kept
          exact .inr ⟨payload, List.getElem?_set_self inside, may awaited⟩
        · rw [List.getElem?_set_ne same]
          exact idling.promises p' awaited
      all_goals first | exact may.elim | exact books.elim
    | _ => exact books.elim
  · exact unmoved (congrArg Ledger.promises (World.ledger_perform books performed))

/-- Nobody has the read loop run anything, and nobody breaks a promise. -/
theorem perform (may : may old h action) (performed : World.perform flow pick action w = some (r, u)) :
    Idling old u :=
  ⟨idling.tasks_perform may performed, idling.pumps_perform may performed, idling.promises_perform may performed⟩

end Idling

/-! ## The account -/

/-- The charges of all flows account for a state of the broker. The flow with the number `d` disposes it. -/
structure Account (old : Onset) (d : Nat) (x : Reach) (here : Nat → Prop) (changer : Option Nat)
    (closed : List EngineName) (w : World) (hand : Nat → Charge) : Prop where
  mine : (hand d).reach = some x
  others : ∀ i, i ≠ d → (hand i).reach = none
  frames : Frames old x.told x.lost x.finished here (fun i => (hand i).duty) w.frames
  sessions : Sessions old w.sessions w.hooksOn closed (hand (changer.getD d)).deeds x.bare x.ending.isSome
  changing : ∀ i, (hand i).change.isSome ↔ changer = some i
  quiet : x.ending.isSome → changer = none
  engines : ∀ name, (w.endpoint? name).isSome = known old name
  phase : w.phase = .disposed ↔ x.ended
  ended : x.ended → x.ending = some [] ∧ ∀ i ∈ old.frames.above.drop x.lost, i ∈ x.finished
  seen : ∀ i n, (hand i).seen = some n → w.availabilityChanges = n

theorem Charge.deeds_advance {h : Charge} {f : Reach → Reach} (same : ∀ x, (f x).ending = x.ending) :
    (h.advance f).deeds = h.deeds := by
  cases far : h.reach <;> simp [Charge.advance, Charge.deeds, far, same]

namespace Account

variable {old : Onset} {w u : World} {d flow : Nat} {x : Reach} {here : Nat → Prop} {changer : Option Nat}
  {closed : List EngineName} {hand : Nat → Charge} {pick : Bool} {action : Action} {r : action.Reply}

variable (a : Account old d x here changer closed w hand)
include a

/-- Those who are in no change of the session stack make their steps while nobody is. -/
theorem changer_eq_none (turn : ∀ i, changer = some i → i = flow) (unchanged : (hand flow).change = none) :
    changer = none := by
  rcases changer with _ | i
  · rfl
  · obtain rfl := turn i rfl
    have := (a.changing i).mpr rfl
    simp [unchanged] at this

/-- Only the flow that disposes the broker has got anywhere. -/
theorem eq_of_reach {y : Reach} (far : (hand flow).reach = some y) : flow = d ∧ x = y := by
  have mine : flow = d := by
    by_contra other
    simp [a.others flow other] at far
  subst mine
  exact ⟨rfl, Option.some.inj (a.mine.symm.trans far)⟩

omit a in
theorem duty_update (k : Charge) : (fun i => (Function.update hand flow k i).duty) =
    Function.update (fun i => (hand i).duty) flow k.duty :=
  Function.comp_update Charge.duty hand flow k

omit a in
/-- What a flow keeps of its charge is as it was for all flows. -/
theorem part_update {β : Type} (part : Charge → β) {k : Charge} (same : part k = part (hand flow)) (i : Nat) :
    part (Function.update hand flow k i) = part (hand i) := by
  by_cases mine : i = flow
  · subst mine
    rw [Function.update_self, same]
  · rw [Function.update_of_ne mine]

/-- A step that has to do with nobody's charge. -/
theorem keep (h : World.perform flow pick action w = some (r, u)) (frames : u.frames = w.frames)
    (sessions : u.sessions = w.sessions)
    (hooks : ∀ name before, action.hooksAfter name before = before)
    (phase : action ≠ .broker (.setPhase .disposed))
    (availability : action ≠ .broker .availabilityChanged) :
    Account old d x here changer closed u hand where
  mine := a.mine
  others := a.others
  frames := frames ▸ a.frames
  sessions := by
    have same : u.hooksOn = w.hooksOn := funext fun name => (World.hooksOn_perform h).trans (hooks _ _)
    exact same ▸ sessions ▸ a.sessions
  changing := a.changing
  quiet := a.quiet
  engines name := (World.isSome_endpoint?_perform h name).trans (a.engines name)
  phase := (World.disposed_perform phase h).trans a.phase
  ended := a.ended
  seen i n hn := ((World.unmoved_perform h).availabilityChanges availability).trans (a.seen i n hn)

/-- A step on the frames, which may get the flow that disposes the broker further. -/
theorem framed {k : Charge} {told lost : Nat} {finished : List Nat} {s : FrameStack}
    (change : k.change = (hand flow).change) (seen : k.seen = (hand flow).seen)
    (reach : k.reach = (hand flow).reach.map fun x => { x with told, lost, finished })
    (others : flow ≠ d → told = x.told ∧ lost = x.lost ∧ finished = x.finished)
    (lostLe : x.lost ≤ lost) (more : x.finished ⊆ finished)
    (frames : Frames old told lost finished here (Function.update (fun i => (hand i).duty) flow k.duty) s) :
    Account old d { x with told, lost, finished } here changer closed { w with frames := s }
      (Function.update hand flow k) := by
  have deeds : k.deeds = (hand flow).deeds := by
    rw [Charge.deeds, Charge.deeds, change, reach]
    cases (hand flow).reach <;> rfl
  constructor
  case mine =>
    by_cases mine : d = flow
    · subst mine
      simp [reach, a.mine]
    · obtain ⟨rfl, rfl, rfl⟩ := others (Ne.symm mine)
      rw [Function.update_of_ne mine]
      exact a.mine
  case others =>
    intro i other
    by_cases mine : i = flow
    · subst mine
      simp [reach, a.others i other]
    · rw [Function.update_of_ne mine]
      exact a.others i other
  case frames => rwa [duty_update]
  case sessions =>
    rw [part_update Charge.deeds deeds]
    exact a.sessions
  case changing =>
    intro i
    rw [part_update Charge.change change]
    exact a.changing i
  case quiet => exact a.quiet
  case engines => exact a.engines
  case phase => exact a.phase
  case ended =>
    intro past
    obtain ⟨nothing, all⟩ := a.ended past
    exact ⟨nothing, fun i hi => more (all i (List.drop_subset_drop_left _ lostLe hi))⟩
  case seen =>
    intro i n hn
    rw [part_update Charge.seen seen] at hn
    exact a.seen i n hn

/-- What a flow may do to frames keeps the account, and nothing else is replied than can be. -/
theorem act_frames (fit : Fit old) (there : here flow) {op : FrameOp} {r : op.Reply}
    (may : mayFrames old (hand flow) op)
    (h : World.perform flow pick (.frames op) w = some (r, u)) :
    ∃ k x', note old (hand flow) (.frames op) r = some k ∧
      Account old d x' here changer closed u (Function.update hand flow k) := by
  obtain ⟨⟨r', s⟩, performed, same⟩ := Option.map_eq_some_iff.mp h
  cases same
  -- a step that changes the flow's duty alone
  have turned {duty : Duty} {s : FrameStack} (frames : Frames old x.told x.lost x.finished here
      (Function.update (fun i => (hand i).duty) flow duty) s) :
      Account old d x here changer closed { w with frames := s }
        (Function.update hand flow { hand flow with duty }) := by
    refine a.framed (k := { hand flow with duty }) rfl rfl ?_ (fun _ => ⟨rfl, rfl, rfl⟩) le_rfl
      (List.Subset.refl _) frames
    cases far : (hand flow).reach with
    | none => rfl
    | some y =>
      obtain ⟨-, rfl⟩ := a.eq_of_reach far
      rfl
  -- one that changes no duty
  have stayed {s : FrameStack} (frames : Frames old x.told x.lost x.finished here
      (fun i => (hand i).duty) s) : Account old d x here changer closed { w with frames := s }
        (Function.update hand flow (hand flow)) :=
    turned (by rwa [Function.update_eq_self])
  cases op
  case take i =>
    obtain ⟨action, rfl, stop, frames⟩ := a.frames.take there (by rw [show hand flow = _ from may]) performed
    refine ⟨_, x, if_neg fun wrong => wrong.2 (stop wrong.1), turned frames⟩
  case remove i =>
    have both := Option.some.inj performed
    obtain rfl : (w.frames.remove i).1 = r := congrArg Prod.fst both
    obtain rfl : (w.frames.remove i).2 = s := congrArg Prod.snd both
    exact ⟨_, x, rfl, turned (a.frames.remove fit there may)⟩
  case dispose i =>
    cases performed
    obtain ⟨rest, mine⟩ := may
    refine ⟨_, x, rfl, turned ?_⟩
    rw [show (hand flow).duty.rest = rest by rw [mine]; rfl]
    exact a.frames.dispose fit there mine
  case closeGate i =>
    cases performed
    obtain ⟨rest, mine⟩ := may
    refine ⟨_, x, rfl, turned ?_⟩
    rw [show (hand flow).duty.rest = rest by rw [mine]; rfl]
    exact a.frames.closeGate there mine
  case release i =>
    cases performed
    refine ⟨hand flow, x, rfl, stayed (a.frames.same (FrameStack.ref_modifyGate _) rfl
      (fun _ => FrameStack.mailbox?_modifyGate _) fun i => Shut.modify fun f closed => ?_)⟩
    unfold Gate.release
    split <;> exact closed
  case live =>
    cases performed
    obtain ⟨y, far⟩ := Option.isSome_iff_exists.mp may
    obtain ⟨rfl, rfl⟩ := a.eq_of_reach far
    obtain ⟨k, lostLe, leTold, inside, above, same, number⟩ := a.frames.live_eq
    refine ⟨(hand flow).advance ({ · with lost := k }), { x with lost := k }, ?_, ?_⟩
    · simp only [note, noteFrames, far, number, same, lostLe, leTold, inside, and_self, if_true]
    · have reach : ((hand flow).advance ({ · with lost := k })).reach =
          (hand flow).reach.map fun y => { y with told := x.told, lost := k, finished := x.finished } := by
        simp [Charge.advance, far]
      refine a.framed rfl rfl reach (fun other => absurd rfl other) lostLe (List.Subset.refl _) ?_
      rw [show ((hand flow).advance _).duty = (hand flow).duty from rfl, Function.update_eq_self]
      exact a.frames.look leTold inside above
  case tryExit i action =>
    obtain ⟨y, far, among, stop⟩ := may
    obtain ⟨rfl, rfl⟩ := a.eq_of_reach far
    refine ⟨_, { x with told := max x.told (old.frames.above.idxOf i + 1) }, rfl, ?_⟩
    refine a.framed rfl rfl ?_ (fun other => absurd rfl other) le_rfl (List.Subset.refl _) ?_
    · simp [Charge.advance, far]
    · rw [show ((hand flow).advance _).duty = (hand flow).duty from rfl, Function.update_eq_self]
      exact a.frames.tryExit fit among stop performed
  case hasServer i =>
    cases performed
    exact ⟨hand flow, x, if_pos (a.frames.hasServer may), stayed a.frames⟩
  case awaitFinish i =>
    have nothing : s = w.frames := by
      simp only [FrameStack.perform] at performed
      split at performed
      · cases performed
        rfl
      · split at performed
        · cases performed
          rfl
        · cases performed
    cases far : (hand flow).reach with
    | none =>
      refine ⟨hand flow, x, congrArg some (Charge.advance_of_none far _), nothing ▸ stayed a.frames⟩
    | some y =>
      obtain ⟨rfl, rfl⟩ := a.eq_of_reach far
      obtain ⟨-, j, -, hj⟩ := may.2 x far
      refine ⟨_, { x with finished := i :: x.finished }, rfl, ?_⟩
      refine a.framed rfl rfl ?_ (fun other => absurd rfl other) le_rfl (List.subset_cons_self _ _) ?_
      · simp [Charge.advance, far]
      · rw [show ((hand flow).advance _).duty = (hand flow).duty from rfl, Function.update_eq_self]
        exact nothing ▸ a.frames.awaitFinish (List.mem_of_getElem? hj) performed
  all_goals exact may.elim

/-- A step that has to do with a change of the session stack. -/
theorem changed {k : Charge} {changer' : Option Nat} {closed' : List EngineName}
    (h : World.perform flow pick action w = some (r, u)) (frames : u.frames = w.frames)
    (phase : action ≠ .broker (.setPhase .disposed))
    (availability : action ≠ .broker .availabilityChanged)
    (duty : k.duty = (hand flow).duty) (seen : k.seen = (hand flow).seen) (reach : k.reach = (hand flow).reach)
    (sessions : Sessions old u.sessions u.hooksOn closed' (Function.update hand flow k (changer'.getD d)).deeds
      x.bare x.ending.isSome)
    (changing : k.change.isSome ↔ changer' = some flow)
    (others : ∀ i, i ≠ flow → (changer = some i ↔ changer' = some i))
    (quiet : x.ending.isSome → changer' = none) :
    Account old d x here changer' closed' u (Function.update hand flow k) := by
  have reaches (i : Nat) := part_update Charge.reach reach i
  refine ⟨(reaches d).trans a.mine, fun i other => (reaches i).trans (a.others i other), ?_, sessions, fun i => ?_,
    quiet, fun name => (World.isSome_endpoint?_perform h name).trans (a.engines name),
    (World.disposed_perform phase h).trans a.phase, a.ended, fun i n hn => ?_⟩
  · rw [duty_update, duty, Function.update_eq_self (f := fun i => (hand i).duty) flow, frames]
    exact a.frames
  · by_cases mine : i = flow
    · subst mine
      rw [Function.update_self]
      exact changing
    · rw [Function.update_of_ne mine]
      exact (a.changing i).trans (others i mine)
  · rw [part_update Charge.seen seen] at hn
    exact ((World.unmoved_perform h).availabilityChanges availability).trans (a.seen i n hn)

/-- A step by which the flow that disposes the broker gets further. -/
theorem advanced {f : Reach → Reach} {closed' : List EngineName}
    (h : World.perform d pick action w = some (r, u)) (frames : u.frames = w.frames)
    (availability : action ≠ .broker .availabilityChanged)
    (same : (f x).told = x.told ∧ (f x).lost = x.lost ∧ (f x).finished = x.finished)
    (sessions : Sessions old u.sessions u.hooksOn closed'
      (Function.update hand d ((hand d).advance f) (changer.getD d)).deeds (f x).bare (f x).ending.isSome)
    (quiet : (f x).ending.isSome → changer = none) (phase : u.phase = .disposed ↔ (f x).ended)
    (ended : (f x).ended → (f x).ending = some [] ∧ ∀ i ∈ old.frames.above.drop x.lost, i ∈ x.finished) :
    Account old d (f x) here changer closed' u (Function.update hand d ((hand d).advance f)) := by
  obtain ⟨told, lost, finished⟩ := same
  refine ⟨by simp [Charge.advance, a.mine], fun i other => ?_, ?_, sessions, fun i => ?_, quiet,
    fun name => (World.isSome_endpoint?_perform h name).trans (a.engines name), phase, ?_, fun i n hn => ?_⟩
  · rw [Function.update_of_ne other]
    exact a.others i other
  · rw [duty_update, show ((hand d).advance f).duty = (hand d).duty from rfl,
      Function.update_eq_self (f := fun i => (hand i).duty) d, frames, told, lost, finished]
    exact a.frames
  · rw [part_update Charge.change (by rfl)]
    exact a.changing i
  · rw [lost, finished]
    exact ended
  · rw [part_update Charge.seen (by rfl)] at hn
    exact ((World.unmoved_perform h).availabilityChanges availability).trans (a.seen i n hn)

/-- What a flow may do to engines keeps the account. -/
theorem act_engine {e : EngineName} {op : EngineOp} {r : op.Reply} (may : may old (hand flow) (.engine e op))
    (h : World.perform flow pick (.engine e op) w = some (r, u)) :
    ∃ k x', note old (hand flow) (.engine e op) r = some k ∧
      Account old d x' here changer (closedAfter closed (.engine e op)) u (Function.update hand flow k) := by
  have frames : u.frames = w.frames := World.frames_perform (by rintro _ ⟨⟩) h
  have stack : u.sessions = w.sessions := (World.unmoved_perform h).sessions (by rintro _ ⟨⟩)
  have after (name : EngineName) : u.hooksOn name = (Action.engine e op).hooksAfter name (w.hooksOn name) :=
    World.hooksOn_perform h
  by_cases deed : isDeed op
  · obtain ⟨rest, deeds⟩ := may.2.2 deed
    rcases changes : (hand flow).change with _ | todo
    · -- the bottom session is being given up
      obtain ⟨y, far, ending⟩ : ∃ y, (hand flow).reach = some y ∧ y.ending = some ((e, op) :: rest) := by
        simp only [Charge.deeds, changes, Option.getD_none] at deeds
        rcases far : (hand flow).reach with _ | y
        · simp [far] at deeds
        · rcases ending : y.ending with _ | todo
          · simp [far, ending] at deeds
          · exact ⟨y, rfl, by simpa [far, ending] using deeds⟩
      obtain ⟨rfl, rfl⟩ := a.eq_of_reach far
      have nobody : changer = none := a.quiet (by simp [ending])
      have early : ¬x.ended := fun past => by simpa [ending] using (a.ended past).1
      refine ⟨(hand flow).advance fun x => { x with ending := x.ending.map List.tail }, _,
        by simp [note, deed, Charge.proceed, changes, Charge.advance], a.advanced h frames (by rintro ⟨⟩)
          ⟨rfl, rfl, rfl⟩ ?_ (fun _ => nobody) ?_ (fun past => absurd past early)⟩
      · have sessions := a.sessions
        simp only [nobody, Option.getD_none, deeds] at sessions
        have last := stack ▸ sessions.deed after
        simpa [nobody, Charge.advance, Charge.deeds, changes, far, ending] using last
      · exact (World.disposed_perform (by rintro ⟨⟩) h).trans a.phase
    · -- a session was popped
      have turn : changer = some flow := (a.changing flow).mp (by simp [changes])
      obtain rfl : todo = (e, op) :: rest := by simpa [Charge.deeds, changes] using deeds
      refine ⟨{ hand flow with change := some rest }, x, by simp [note, deed, Charge.proceed, changes],
        a.changed h frames (by rintro ⟨⟩) (by rintro ⟨⟩) rfl rfl rfl ?_ (by simp [turn]) (fun _ _ => Iff.rfl)
          a.quiet⟩
      have sessions := a.sessions
      simp only [turn, Option.getD_some, deeds] at sessions
      have next := stack ▸ sessions.deed after
      simpa [turn, Charge.deeds] using next
  · have same : Function.update hand flow (hand flow) = hand := Function.update_eq_self flow hand
    have open' : closedAfter closed (.engine e op) = closed := by
      cases op <;> first | rfl | exact absurd rfl deed
    refine ⟨hand flow, x, by simp [note, deed], ?_⟩
    rw [same, open']
    refine a.keep h frames stack (fun name before => ?_) (by rintro ⟨⟩) (by rintro ⟨⟩)
    cases op <;> first | exact absurd rfl deed | simp [Action.hooksAfter, EngineOp.hooksAfter]

/-- The sessions that are left are on engines that are there. -/
theorem known_engine (fit : Fit old) {s : Session} (left : s ∈ w.sessions.toList) : known old s.engine := by
  refine fit.engines s ?_
  rw [SessionStack.toList, List.mem_append] at left ⊢
  rw [← a.sessions.bottom]
  exact left.imp_left fun above => a.sessions.above.subset above

/-- What a flow may do to the sessions keeps the account. -/
theorem act_sessions (fit : Fit old) (turn : ∀ i, changer = some i → i = flow) {op : SessionOp} {r : op.Reply}
    (may : maySessions (hand flow) op) (h : World.perform flow pick (.sessions op) w = some (r, u)) :
    ∃ k x', note old (hand flow) (.sessions op) r = some k ∧
      Account old d x' here (changerAfter flow w changer (.sessions op)) closed u
        (Function.update hand flow k) := by
  have frames : u.frames = w.frames := World.frames_perform (by rintro _ ⟨⟩) h
  have after : u.hooksOn = w.hooksOn := funext fun name => World.hooksOn_perform h
  have phase : u.phase = .disposed ↔ x.ended := (World.disposed_perform (by rintro ⟨⟩) h).trans a.phase
  have same : Function.update hand flow (hand flow) = hand := Function.update_eq_self flow hand
  have performed : w.performSessions op = some (r, u) := h
  cases op
  case current =>
    obtain ⟨below, all⟩ := w.sessions.toList_eq
    have here := a.known_engine fit (s := w.sessions.current) (by simp [all])
    cases performed
    exact ⟨hand flow, x, if_pos here, same.symm ▸ a⟩
  case pop =>
    have nobody : changer = none := a.changer_eq_none turn may.1
    subst nobody
    have unchanged : (hand d).change = none := by
      rw [← Option.not_isSome_iff_eq_none, a.changing d]
      simp
    simp only [World.performSessions] at performed
    split at performed
    · -- there is none to pop
      next popped =>
      cases performed
      have empty : w.sessions.above.isEmpty := by
        unfold SessionStack.pop? at popped
        split at popped
        · next nothing => simp [nothing]
        · cases popped
      simp only [changerAfter, empty, if_true]
      rcases far : (hand flow).reach with _ | y
      · exact ⟨hand flow, x, congrArg some (Charge.advance_of_none far _), same.symm ▸ a⟩
      · obtain ⟨rfl, rfl⟩ := a.eq_of_reach far
        refine ⟨_, _, rfl, a.advanced (f := ({ · with bare := true })) h frames (by rintro ⟨⟩)
          ⟨rfl, rfl, rfl⟩ ?_ a.quiet phase a.ended⟩
        rw [part_update Charge.deeds (by exact Charge.deeds_advance fun _ => rfl)]
        exact a.sessions.none popped
    · -- the current session is popped
      next s t popped =>
      cases performed
      have full : w.sessions.above.isEmpty = false := by
        rw [SessionStack.pop?_eq_some.mp popped]
        rfl
      have early : x.ending = none := by
        rw [← Option.not_isSome_iff_eq_none]
        intro late
        simp [a.sessions.empty (a.sessions.last late)] at full
      have nothing : (hand d).deeds = [] := by simp [Charge.deeds, unchanged, a.mine, early]
      have here : known old s.engine ∧ known old t.current.engine := by
        obtain ⟨below, all⟩ := t.toList_eq
        have whole : w.sessions.toList = s :: t.toList := by
          rw [SessionStack.pop?_eq_some.mp popped, SessionStack.toList_push]
        exact ⟨a.known_engine fit (by simp [whole]), a.known_engine fit (by simp [whole, all])⟩
      simp only [changerAfter, full, Bool.false_eq_true, if_false]
      refine ⟨{ hand flow with change := some (popDeeds s t.current) }, x, if_pos (by simp [here]),
        a.changed h frames (by rintro ⟨⟩) (by rintro ⟨⟩) rfl rfl rfl ?_ (by simp)
          (fun i other => by simp [Ne.symm other]) (by simp [early])⟩
      have sessions := a.sessions
      simp only [Option.getD_none, nothing] at sessions
      simpa [after, Charge.deeds] using sessions.pop popped
  case bottom =>
    obtain ⟨unchanged, y, far, bare, early⟩ := may
    obtain ⟨rfl, rfl⟩ := a.eq_of_reach far
    have nobody : changer = none := a.changer_eq_none turn unchanged
    subst nobody
    cases performed
    have nothing : (hand flow).deeds = [] := by simp [Charge.deeds, unchanged, far, early]
    refine ⟨_, _, if_pos a.sessions.bottom, a.advanced
      (f := ({ · with ending := some (lastDeeds old.sessions.bottom) })) h frames (by rintro ⟨⟩)
      ⟨rfl, rfl, rfl⟩ ?_ (fun _ => rfl) phase fun past => by simpa [early] using (a.ended past).1⟩
    have sessions := a.sessions
    simp only [Option.getD_none, nothing, bare, early, Option.isSome_none] at sessions
    simpa [Charge.advance, Charge.deeds, unchanged, far, bare] using sessions.give
  all_goals exact may.elim

/-- A flow has looked how often the availability has changed. -/
theorem counted : Account old d x here changer closed w
    (Function.update hand flow { hand flow with seen := some w.availabilityChanges }) := by
  have reaches (i : Nat) : (Function.update hand flow { hand flow with seen := some w.availabilityChanges } i).reach =
      (hand i).reach := part_update Charge.reach (by rfl) i
  refine ⟨(reaches d).trans a.mine, fun i other => (reaches i).trans (a.others i other), ?_, ?_, fun i => ?_,
    a.quiet, a.engines, a.phase, a.ended, fun i n hn => ?_⟩
  · rw [duty_update, Function.update_eq_self (f := fun i => (hand i).duty) flow]
    exact a.frames
  · rw [part_update Charge.deeds (by rfl)]
    exact a.sessions
  · rw [part_update Charge.change (by rfl)]
    exact a.changing i
  · by_cases mine : i = flow
    · subst mine
      simpa using hn
    · exact a.seen i n (by simpa [Function.update_of_ne mine] using hn)

/-- What a flow may do to the broker's own state keeps the account, and nothing else is replied than can
be. -/
theorem act_broker (idling : Idling old w) {op : BrokerOp} {r : op.Reply} (may : mayBroker old (hand flow) op)
    (h : World.perform flow pick (.broker op) w = some (r, u)) :
    ∃ k x', note old (hand flow) (.broker op) r = some k ∧
      Account old d x' here (changerAfter flow w changer (.broker op)) closed u
        (Function.update hand flow k) := by
  have frames : u.frames = w.frames := World.frames_perform (by rintro _ ⟨⟩) h
  have stack : u.sessions = w.sessions := (World.unmoved_perform h).sessions (by rintro _ ⟨⟩)
  have after : u.hooksOn = w.hooksOn := funext fun name => World.hooksOn_perform h
  have same : Function.update hand flow (hand flow) = hand := Function.update_eq_self flow hand
  have kept (phase : op ≠ .setPhase .disposed) (availability : op ≠ .availabilityChanged) :
      Account old d x here changer closed u (Function.update hand flow (hand flow)) := by
    rw [same]
    exact a.keep h frames stack (fun _ _ => rfl) (fun wrong => phase (by cases wrong; rfl))
      fun wrong => availability (by cases wrong; rfl)
  cases op
  case phase =>
    obtain rfl : w.phase = r := congrArg Prod.fst (Option.some.inj h)
    rcases far : (hand flow).reach with _ | y
    · exact ⟨hand flow, x, by simp only [note, noteBroker, far], kept (by rintro ⟨⟩) (by rintro ⟨⟩)⟩
    · obtain ⟨rfl, rfl⟩ := a.eq_of_reach far
      have fine : ¬(w.phase = .disposed ∧ (!x.ended) = true) := by
        rintro ⟨disposed, early⟩
        simp [a.phase.mp disposed] at early
      refine ⟨(hand flow).advance ({ · with looked := true }), _, by simp only [note, noteBroker, far, if_neg fine],
        a.advanced h frames (by rintro ⟨⟩) ⟨rfl, rfl, rfl⟩ ?_ a.quiet
          ((World.disposed_perform (by rintro ⟨⟩) h).trans a.phase) a.ended⟩
      rw [part_update Charge.deeds (by exact Charge.deeds_advance fun _ => rfl), stack, after]
      exact a.sessions
  case notify n =>
    cases n
    case sessionChanged change s =>
      have told : (hand flow).change = some [] := may
      have turn : changer = some flow := (a.changing flow).mp (by simp [told])
      subst turn
      have early : x.ending = none := by
        rw [← Option.not_isSome_iff_eq_none]
        intro late
        cases a.quiet late
      refine ⟨{ hand flow with change := none }, x, rfl, a.changed h frames (by rintro ⟨⟩) (by rintro ⟨⟩)
        rfl rfl rfl ?_ (by simp [changerAfter]) (fun i other => by simp [changerAfter, Ne.symm other])
        fun _ => rfl⟩
      have sessions := a.sessions
      have nothing : (hand flow).deeds = [] := by simp [Charge.deeds, told]
      simp only [Option.getD_some, nothing] at sessions
      have none : (Function.update hand flow { hand flow with change := none } d).deeds = [] := by
        by_cases mine : d = flow
        · subst mine
          simp [Charge.deeds, a.mine, early]
        · have unchanged : (hand d).change = none := by
            rw [← Option.not_isSome_iff_eq_none, a.changing d]
            simp [Ne.symm mine]
          simp [Function.update_of_ne mine, Charge.deeds, unchanged, a.mine, early]
      rw [stack, after]
      simp only [changerAfter, Option.getD_none, none]
      exact sessions
    all_goals exact ⟨hand flow, x, rfl, kept (by rintro ⟨⟩) (by rintro ⟨⟩)⟩
  case setPhase target =>
    rcases may with rfl | ⟨rfl, y, far, ending, finished⟩
    · exact ⟨hand flow, x, rfl, kept (by rintro ⟨⟩) (by rintro ⟨⟩)⟩
    · obtain ⟨rfl, rfl⟩ := a.eq_of_reach far
      refine ⟨(hand flow).advance ({ · with ended := true }), _, rfl, a.advanced h frames (by rintro ⟨⟩)
        ⟨rfl, rfl, rfl⟩ ?_ a.quiet ?_ fun _ => ⟨ending, finished⟩⟩
      · rw [part_update Charge.deeds (by exact Charge.deeds_advance fun _ => rfl), stack, after]
        exact a.sessions
      · have disposed : u.phase = w.phase.toward .disposed := World.phase_perform h
        rw [disposed]
        cases w.phase <;> simp [Phase.toward, Phase.canBecome]
  case availabilityChanges =>
    cases h
    exact ⟨_, x, rfl, a.counted⟩
  case awaitPromise p => exact ⟨hand flow, x, if_pos (idling.told h), kept (by rintro ⟨⟩) (by rintro ⟨⟩)⟩
  case awaitAvailability since =>
    have mine : (hand flow).seen = some since := by rw [show hand flow = _ from may]
    have none : since = w.availabilityChanges := (a.seen flow since mine).symm
    simp only [World.perform, World.performBroker, none, lt_irrefl, if_false] at h
    cases h
  all_goals first | exact may.elim | exact ⟨hand flow, x, rfl, kept (by rintro ⟨⟩) (by rintro ⟨⟩)⟩

/-- What a flow is charged with keeps the account. -/
theorem act (fit : Fit old) (idling : Idling old w) (there : here flow) (turn : ∀ i, changer = some i → i = flow)
    (may : may old (hand flow) action) (h : World.perform flow pick action w = some (r, u)) :
    ∃ k x', note old (hand flow) action r = some k ∧
      Account old d x' here (changerAfter flow w changer action) (closedAfter closed action) u
        (Function.update hand flow k) := by
  cases action with
  | engine e op => exact a.act_engine may h
  | frames op => exact a.act_frames fit there may h
  | sessions op => exact a.act_sessions fit turn may h
  | broker op => exact a.act_broker idling may h
  | idle op =>
    refine ⟨hand flow, x, idling.noteIdle_eq h, ?_⟩
    rw [Function.update_eq_self]
    exact a.keep h (World.frames_perform (by rintro _ ⟨⟩) h)
      ((World.unmoved_perform h).sessions (by rintro _ ⟨⟩)) (fun _ _ => rfl) (by rintro ⟨⟩) (by rintro ⟨⟩)
  | host op =>
    refine ⟨hand flow, x, idling.noteHost_eq h, ?_⟩
    rw [Function.update_eq_self]
    exact a.keep h (World.frames_perform (by rintro _ ⟨⟩) h)
      ((World.unmoved_perform h).sessions (by rintro _ ⟨⟩)) (fun _ _ => rfl) (by rintro ⟨⟩) (by rintro ⟨⟩)

/-- One with nothing left to be done goes away. -/
theorem leave (free : (hand flow).duty = .clears []) :
    Account old d x (fun i => here i ∧ i ≠ flow) changer closed w hand :=
  { a with frames := a.frames.leave free }

end Account

end Teardown

end SessionBroker
