import SessionBroker.Proofs.Teardown.Balance

/-!
# The course of the teardown

The account is kept by every step of any flow, and flows leave only when nothing is left for them to do.
When nobody can make another step, everything has been done: whoever is charged with something can go on,
and the one who waits for a frame waits for one who can.
-/

namespace SessionBroker

/-- The procedure that a flow began with. -/
def Waiting.outermost {I : Interface} : {proc : I.Proc} → Waiting I proc → I.Proc
  | _, .root proc => proc
  | _, .caller _ below => below.outermost

namespace Config

variable {I : Interface} {σ : Type} {c : Config I σ} {id : Nat}

theorem isSome_find?_update {g : Flow I} {s : σ} (i : Nat) :
    ((Config.update { c with shared := s } id g).find? i).isSome = (c.find? i).isSome := by
  rw [find?_update, Option.isSome_map]
  rfl

theorem mem_of_find? {f : Flow I} (hf : c.find? id = some f) : (id, f) ∈ c.flows := by
  obtain ⟨⟨i, g⟩, hp, rfl⟩ := Option.map_eq_some_iff.mp hf
  obtain rfl : i = id := by simpa using List.find?_some hp
  exact List.mem_of_find?_eq_some hp

end Config

namespace Teardown

open Unwinding (changerAfter closedAfter)

/-- Procedures that leave nothing to be done when they end. -/
def endsFree : Proc → Bool
  | .serveClient .. | .nestedPrompt .. | .restartLoop _ => true
  | _ => false

theorem free_of_returns {proc : Proc} {r : proc.Result} {h k : Charge} (free : endsFree proc)
    (returns : Returns h proc r k) : k.IsFree ∧ ∀ x, k.reach = some x → x.ended := by
  cases proc
  case serveClient name request =>
    cases request
    case dispose =>
      obtain ⟨x, rfl, ended⟩ := returns
      refine ⟨⟨rfl, rfl⟩, ?_⟩
      rintro _ ⟨⟩
      exact ended
    all_goals
      obtain rfl : k = {} := returns
      exact ⟨⟨rfl, rfl⟩, by rintro _ ⟨⟩⟩
  case nestedPrompt =>
    obtain rfl : k = {} := returns
    exact ⟨⟨rfl, rfl⟩, by rintro _ ⟨⟩⟩
  case restartLoop =>
    obtain ⟨n, rfl⟩ := returns
    exact ⟨⟨rfl, rfl⟩, by rintro _ ⟨⟩⟩
  all_goals cases free

/-- A teardown under way. The flow with the number `d` disposes the broker. -/
structure Underway (old : Onset) (d : Nat) (u : Unwinding) (x : Reach) (hand : Nat → Charge) : Prop where
  numbered : u.config.Numbered
  minds : (lore old).Kept brokerMachine u.config fun i => some (hand i)
  outermost : ∀ p ∈ u.config.flows, endsFree p.2.waiting.outermost
  account : Account old d x (fun i => (u.config.find? i).isSome) u.changer u.closed u.config.shared hand
  idling : Idling old u.config.shared
  there : ∀ i, u.changer = some i → (u.config.find? i).isSome
  gone : u.config.find? d = none → x.ended

variable {old : Onset} {d flow : Nat} {u v : Unwinding} {x : Reach} {hand : Nat → Charge} {pick : Bool}

namespace Underway

variable (b : Underway old d u x hand)
include b

/-- One who has ended goes away. -/
theorem leave {proc : Proc} {a : proc.Result}
    (hf : u.config.find? flow = some ⟨proc, .done a, Waiting.root (I := brokerInterface) proc⟩)
    (minds : (lore old).Kept brokerMachine v.config fun i => some (hand i))
    (config : v.config = u.config.remove flow) (changer : v.changer = u.changer) (closed : v.closed = u.closed) :
    Underway old d v x hand := by
  have mine := Config.mem_of_find? hf
  obtain ⟨called, returned, -⟩ := b.minds _ mine
  obtain ⟨h, -, returns⟩ := returned (hand flow) rfl
  obtain ⟨⟨duty, change⟩, ended⟩ := free_of_returns (b.outermost _ mine) returns
  have found (i : Nat) : v.config.find? i = if i = flow then none else u.config.find? i := by
    rw [config, Config.find?_remove]
  have here : (fun i => ((v.config.find? i).isSome : Prop)) = fun i => (u.config.find? i).isSome ∧ i ≠ flow := by
    funext i
    by_cases same : i = flow <;> simp [found, same]
  refine ⟨config ▸ b.numbered.remove flow, minds, fun p hp => ?_, ?_, config ▸ b.idling, fun i hi => ?_,
    fun none => ?_⟩
  · rw [config] at hp
    exact b.outermost p (List.mem_filter.mp hp).1
  · rw [here, changer, closed, config]
    exact b.account.leave duty
  · rw [changer] at hi
    have other : i ≠ flow := by
      rintro rfl
      have changing := (b.account.changing i).mpr hi
      simp [change] at changing
    rw [found, if_neg other]
    exact b.there i hi
  · by_cases same : d = flow
    · exact ended x (same ▸ b.account.mine)
    · rw [found, if_neg same] at none
      exact b.gone none

/-- One who has not ended goes on. -/
theorem goesOn {f g : Flow brokerInterface} {w : World} {x' : Reach} {hand' : Nat → Charge}
    (hf : u.config.find? flow = some f) (config : v.config = Config.update { u.config with shared := w } flow g)
    (outermost : g.waiting.outermost = f.waiting.outermost)
    (minds : (lore old).Kept brokerMachine v.config fun i => some (hand' i))
    (account : Account old d x' (fun i => (u.config.find? i).isSome) v.changer v.closed w hand')
    (idling : Idling old w)
    (there : ∀ i, v.changer = some i → i = flow ∨ u.changer = some i) (ended : x.ended → x'.ended) :
    Underway old d v x' hand' := by
  have here (i : Nat) : (v.config.find? i).isSome = (u.config.find? i).isSome := by
    rw [config, Config.isSome_find?_update]
  refine ⟨?_, minds, fun p hp => ?_, ?_, config ▸ idling, fun i hi => ?_, fun none => ended (b.gone ?_)⟩
  · have shared : Config.Numbered { u.config with shared := w } := ⟨b.numbered.unique, b.numbered.below⟩
    exact config ▸ shared.update flow g
  · rw [config] at hp
    obtain ⟨q, hq, rfl⟩ := List.mem_map.mp hp
    by_cases mine : q.1 = flow
    · rw [if_pos mine, outermost]
      exact b.outermost _ (Config.mem_of_find? hf)
    · rw [if_neg mine]
      exact b.outermost q hq
  · simp only [here]
    rw [config]
    exact account
  · rw [here]
    rcases there i hi with rfl | before
    · rw [hf]
      rfl
    · exact b.there i before
  · rw [← Option.not_isSome_iff_eq_none, ← here, none]
    simp

/-- Every step is a part of the teardown. -/
theorem step (fit : Fit old) (h : u.step? flow pick = some v) : ∃ x' hand', Underway old d v x' hand' := by
  obtain ⟨turn, ⟨proc, code, wait⟩, hf, same | acted⟩ := Unwinding.step_cases h
  · obtain ⟨quiet, stepped, changer, closed⟩ := same
    refine ⟨x, hand, ?_⟩
    have steps : brokerMachine.step? u.config flow pick = some v.config := by
      rw [Machine.step?, hf, Option.bind_some, stepped]
    have minds := b.minds.step (bodies fit) b.numbered steps
    have account := changer ▸ closed ▸ b.account
    cases code with
    | done a =>
      have learnt : (lore old).Kept brokerMachine v.config fun i => some (hand i) := by
        simpa only [Lore.learn, hf] using minds
      cases wait with
      | root => exact b.leave hf learnt (Option.some.inj stepped).symm changer closed
      | caller next below =>
        exact b.goesOn hf (w := u.config.shared) (Option.some.inj stepped).symm rfl learnt account b.idling
          (fun i hi => .inr (changer ▸ hi)) id
    | call callee next =>
      have learnt : (lore old).Kept brokerMachine v.config fun i => some (hand i) := by
        simpa only [Lore.learn, hf] using minds
      exact b.goesOn hf (w := u.config.shared) (Option.some.inj stepped).symm rfl learnt account b.idling
        (fun i hi => .inr (changer ▸ hi)) id
    | fork other next =>
      obtain ⟨called, ⟨starts, -⟩, -⟩ := b.minds _ (Config.mem_of_find? hf)
      cases starts
    | act action next => cases quiet
  · obtain ⟨_, action, next, _, r, w, same, performed, rfl⟩ := acted
    cases same
    obtain ⟨called, ⟨acts, goesOn⟩, waiting⟩ := b.minds _ (Config.mem_of_find? hf)
    have may := (acts _ rfl).2
    obtain ⟨k, x', noted, account⟩ := b.account.act fit b.idling (by simp [hf]) turn may performed
    have remembered : (fun i => some (Function.update hand flow k i)) = Function.update (fun i => some (hand i))
        flow ((lore old).note action r u.config.shared (some (hand flow))) := by
      rw [show (lore old).note action r _ (some (hand flow)) = some k from noted]
      exact Function.comp_update some hand flow k
    refine ⟨x', Function.update hand flow k, b.goesOn hf rfl rfl ?_ account (b.idling.perform may performed)
      (fun i hi => Unwinding.eq_or_of_changerAfter hi) fun past => ?_⟩
    · rw [remembered]
      exact b.minds.update ⟨called, goesOn flow pick _ r w performed, waiting⟩
    · rw [← account.phase]
      exact World.disposed_stays performed (b.account.phase.mpr past)

end Underway

/-! ## At a standstill -/

/-- Actions that may have to wait in a teardown. -/
def waits : Action → Bool
  | .frames (.take _) | .frames (.awaitFinish _) | .host (.poll _) | .broker (.awaitPromise _)
  | .broker (.awaitAvailability _) => true
  | _ => false

/-- Everything else that a flow may do can be done at once. -/
theorem performs {h : Charge} {w : World} {action : Action}
    (engines : ∀ name, (w.endpoint? name).isSome = known old name) (may : may old h action)
    (now : waits action = false) : (World.perform flow pick action w).isSome := by
  cases action with
  | engine e op =>
    obtain ⟨here, atOnce, -⟩ := may
    rw [← engines] at here
    obtain ⟨p, hp⟩ := Option.isSome_iff_exists.mp here
    have answers : (p.perform op).isSome := by
      cases op
      case endBlock | endHold => cases atOnce
      case enter =>
        simp only [Endpoint.perform]
        split <;> rfl
      all_goals rfl
    simpa only [World.perform, World.performEngine, hp, Option.isSome_map] using answers
  | frames op =>
    cases op
    case take | awaitFinish => cases now
    case tryExit i action =>
      simp only [World.perform, FrameStack.perform, Option.isSome_map]
      split <;> rfl
    all_goals first | exact may.elim | rfl
  | sessions op =>
    cases op
    case pop =>
      simp only [World.perform, World.performSessions]
      split <;> rfl
    all_goals first | exact may.elim | rfl
  | idle op => cases op <;> first | exact may.elim | rfl
  | host op =>
    cases op
    case poll => cases now
    all_goals first | exact may.elim | rfl
  | broker op =>
    cases op
    case awaitPromise | awaitAvailability => cases now
    all_goals first | exact may.elim | rfl

/-- Whoever waits has nothing to do with sessions. He waits at a mailbox, or for a frame that was told to
exit if he is the one who disposes the broker, or for what is no business of his. -/
theorem charge_of_waits {h : Charge} {action : Action} (may : may old h action) (waits : waits action) :
    h.change = none ∧ ((∃ i, action = .frames (.take i) ∧ h = { duty := .waits i }) ∨
      (∃ i, action = .frames (.awaitFinish i) ∧ h.duty = .clears [] ∧
        ∀ x, h.reach = some x → Among old x.told i) ∨ h.duty = .clears [] ∧ h.reach = none) := by
  cases action with
  | frames op =>
    cases op
    case take i =>
      obtain rfl : h = _ := may
      exact ⟨rfl, .inl ⟨i, rfl, rfl⟩⟩
    case awaitFinish i => exact ⟨may.1.2, .inr (.inl ⟨i, rfl, may.1.1, fun x far => (may.2 x far).2⟩)⟩
    all_goals cases waits
  | host op =>
    cases op
    case poll =>
      obtain rfl : h = _ := may
      exact ⟨rfl, .inr (.inr ⟨rfl, rfl⟩)⟩
    all_goals cases waits
  | broker op =>
    cases op
    case awaitPromise =>
      obtain rfl : h = _ := may
      exact ⟨rfl, .inr (.inr ⟨rfl, rfl⟩)⟩
    case awaitAvailability =>
      obtain rfl : h = _ := may
      exact ⟨rfl, .inr (.inr ⟨rfl, rfl⟩)⟩
    all_goals cases waits
  | _ => cases waits

namespace Underway

variable (b : Underway old d u x hand)
include b

/-- One who makes no step though it is his turn waits. -/
theorem stuck {f : Flow brokerInterface} (hf : u.config.find? flow = some f)
    (turn : ∀ i, u.changer = some i → i = flow) (rest : u.step? flow pick = none) :
    ∃ action, may old (hand flow) action ∧ waits action ∧
      (∀ i, (hand flow).duty = .waits i → action = .frames (.take i)) ∧
      World.perform flow pick action u.config.shared = none := by
  have mine : u.changer.all (· = flow) := by
    rcases changing : u.changer with _ | i
    · rfl
    · simp [turn i changing]
  rw [Unwinding.step?, if_pos mine, Option.map_eq_none_iff, Machine.step?, hf, Option.bind_some] at rest
  obtain ⟨proc, code, wait⟩ := f
  cases code with
  | done a => cases wait <;> cases rest
  | call => cases rest
  | fork => cases rest
  | act action next =>
    obtain ⟨called, ⟨acts, -⟩, -⟩ := b.minds _ (Config.mem_of_find? hf)
    obtain ⟨here, may⟩ := acts _ rfl
    have blocked : World.perform flow pick action u.config.shared = none := by
      simp only [Machine.stepFlow, brokerMachine] at rest
      split at rest
      · assumption
      · cases rest
    refine ⟨action, may, ?_, here, blocked⟩
    by_contra now
    have performed : (World.perform flow pick action u.config.shared).isSome :=
      performs b.account.engines may (by simpa using now)
    rw [blocked] at performed
    cases performed

/-- When nobody can make a step, nobody is in the middle of a change. -/
theorem changer_eq_none (rest : ∀ flow pick, u.step? flow pick = none) : u.changer = none := by
  rcases changing : u.changer with _ | i
  · rfl
  · obtain ⟨f, hf⟩ := Option.isSome_iff_exists.mp (b.there i changing)
    have turn (j : Nat) (hj : u.changer = some j) : j = i := Option.some.inj (hj.symm.trans changing)
    obtain ⟨action, may, waits, -, -⟩ := b.stuck hf turn (rest i false)
    have busy := (b.account.changing i).mpr changing
    simp [(charge_of_waits may waits).1] at busy

/-- When nobody can make a step, everybody waits. -/
theorem waiting (rest : ∀ flow pick, u.step? flow pick = none) (here : (u.config.find? flow).isSome) :
    ∃ action, may old (hand flow) action ∧ waits action ∧
      World.perform flow false action u.config.shared = none := by
  obtain ⟨f, hf⟩ := Option.isSome_iff_exists.mp here
  have turn (j : Nat) (hj : u.changer = some j) : j = flow := by simp [b.changer_eq_none rest] at hj
  obtain ⟨action, may, waits, -, blocked⟩ := b.stuck hf turn (rest flow false)
  exact ⟨action, may, waits, blocked⟩

/-- Then nothing is left to be done to frames but to serve those that were not told to exit. -/
theorem duty_at_rest (rest : ∀ flow pick, u.step? flow pick = none) (here : (u.config.find? flow).isSome) :
    (hand flow).duty = .clears [] ∨ ∃ i, (hand flow).duty = .waits i ∧
      ∀ m, u.config.shared.frames.mailbox? i = some m → m.exit = none := by
  obtain ⟨action, may, waits, blocked⟩ := b.waiting rest here
  rcases (charge_of_waits may waits).2 with ⟨i, rfl, mine⟩ | ⟨i, -, free, -⟩ | ⟨free, -⟩
  · refine .inr ⟨i, by rw [mine], fun m hm => ?_⟩
    rcases exit : m.exit with _ | action
    · rfl
    · simp [World.perform, FrameStack.perform, hm, Mailbox.take?, exit] at blocked
  · exact .inl free
  · exact .inl free

/-- Frames that are off the stack are torn down then. -/
theorem over_at_rest (rest : ∀ flow pick, u.step? flow pick = none) {i : Nat} (hi : i ∈ old.frames.above)
    (off : i ∉ u.config.shared.frames.above) :
    Finished u.config.shared.frames i ∧ Shut u.config.shared.frames i := by
  have idle (f : Nat) (here : (u.config.find? f).isSome) (i : Nat) :
      i ∉ (hand f).duty.pending ∧ ∀ rest, (hand f).duty ≠ .closes i rest := by
    rcases b.duty_at_rest rest here with free | ⟨j, waits, -⟩
    · simp [free, Duty.pending]
    · simp [waits, Duty.pending]
  have finished : Finished u.config.shared.frames i := by
    rcases b.account.frames.clearing i hi off with past | ⟨f, here, pending⟩
    · exact past
    · exact absurd pending (idle f here i).1
  refine ⟨finished, ?_⟩
  rcases b.account.frames.shut i hi finished with shut | ⟨f, here, left, closes⟩
  · exact shut
  · exact absurd closes ((idle f here i).2 left)

/-- The one who disposes the broker has ended then: the frames that he waits for were told to exit, and
nobody who serves such a frame waits. -/
theorem gone_at_rest (rest : ∀ flow pick, u.step? flow pick = none) : u.config.find? d = none := by
  rcases hf : u.config.find? d with _ | f
  · rfl
  · exfalso
    have here : (u.config.find? d).isSome := by
      rw [hf]
      rfl
    obtain ⟨action, may, waits, blocked⟩ := b.waiting rest here
    have mine := b.account.mine
    rcases (charge_of_waits may waits).2 with ⟨i, -, same⟩ | ⟨i, rfl, -, among⟩ | ⟨-, none⟩
    · simp [same] at mine
    · obtain ⟨j, told, hj⟩ := among x mine
      obtain ⟨m, hm, box⟩ := b.account.frames.boxes j i hj
      by_cases on : i ∈ u.config.shared.frames.above
      · obtain ⟨f, here, serves⟩ := b.account.frames.served i on
        have exit : m.exit.isSome := box.exit.mpr told
        rcases b.duty_at_rest rest here with free | ⟨k, waits, idle⟩
        · simp [free] at serves
        · obtain rfl : k = i := by simpa [waits] using serves
          simp [idle m hm] at exit
      · obtain ⟨n, hn, past⟩ := (b.over_at_rest rest (List.mem_of_getElem? hj) on).1
        obtain rfl : m = n := Option.some.inj (hm.symm.trans hn)
        simp [World.perform, FrameStack.perform, hm, past] at blocked
    · simp [none] at mine

end Underway

end Teardown

end SessionBroker
