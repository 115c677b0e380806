import SessionBroker.Proofs.Announcements.Books
import SessionBroker.Proofs.Duties.Conduct
import SessionBroker.Proofs.Repose

/-!
# Announcements

A command is announced when it begins and when it ends, and an abort when it is accepted; a command
that was aborted keeps silent at its end, because the abort has spoken for it. Whether it was aborted
is told by the phase and by one flag, which all commands share. As long as the flag and the phase speak
of one abort at a time, every command has one announcement of its end, be it its own or that of an
abort, and every abort without a command has one of its own.
-/

namespace SessionBroker

/-! ## What happens to commands and aborts -/

/-- An abort that is accepted: whether it aborts a stop of the debugger. -/
def World.abortOf? (w : World) : Action → Option Bool
  | .broker (.beginAbort debug) =>
    if w.phase.ignoresAbort || w.phase = .notStarted then none
    else some (debug && w.frames.containsDebug)
  | _ => none

def Action.isEnd : Action → Bool
  | .broker .endCommand => true
  | _ => false

/-- It is announced that a command has completed or failed. -/
def Action.isOutcome : Action → Bool
  | .broker (.notify (.progress how _)) => how = .completed || how = .failed
  | _ => false

def Flow.beginsCommand (f : Flow brokerInterface) : Bool :=
  f.event?.any fun
    | .entered proc => proc.isCommand
    | .returned .. => false

/-- A play that is watched. -/
structure Watch where
  play : Play
  /-- How many aborts were accepted while no command was in flight. -/
  idleAborts : Nat
  /-- How many commands have ended, whether they have returned or not. -/
  ends : Nat

namespace Watch

/-- Some command is in flight. -/
def inFlight (v : Watch) : Bool := v.play.config.procs.any Proc.isCommand

/-- No command and no abort is under way. -/
def isSettled (v : Watch) : Bool :=
  v.play.config.procs.all fun proc => !proc.isCommand && !proc.aborts

/-- How many commands have returned. -/
def returns (v : Watch) : Nat := returned commands v.play.history

/-- An abort was announced for a command, and no command has taken notice so far. -/
def reported (v : Watch) : Bool := v.play.config.shared.abortReported

/-- A move accepts an abort: whether it aborts a stop of the debugger. -/
def abortOf? (v : Watch) (m : Move) : Option Bool :=
  (v.play.action? m).bind v.play.config.shared.abortOf?

def endsCommand (v : Watch) (m : Move) : Bool := (v.play.action? m).any Action.isEnd

/-- It is announced with a move that a command has completed or failed. -/
def tellsOutcome (v : Watch) (m : Move) : Bool := (v.play.action? m).any Action.isOutcome

def beginsCommand (v : Watch) : Move → Bool
  | .step flow _ => (v.play.config.find? flow).any Flow.beginsCommand
  | _ => false

def new (settings : BrokerSettings) (endpoints : List (EngineName × Endpoint)) (main : EngineName)
    (host : Host) : Watch :=
  ⟨.new settings endpoints main host, 0, 0⟩

def move (v : Watch) (m : Move) : Watch where
  play := v.play.move m
  idleAborts := v.idleAborts + ((v.abortOf? m).isSome && !v.inFlight).toNat
  ends := v.ends + (v.endsCommand m).toNat

def moves (v : Watch) (ms : List Move) : Watch := ms.foldl move v

/-- One abort at a time. -/
structure Orderly (v : Watch) (m : Move) : Prop where
  /-- An abort is accepted only while no other one is pending and no command is about to return. It
  finds the phase that commands set, or it aborts a stop of the debugger and a command is in flight, or
  neither. -/
  abort : ∀ debugger ∈ v.abortOf? m, v.reported = false ∧ v.ends = v.returns ∧
    (v.play.phase = .running ∨ debugger = v.inFlight)
  /-- No command begins during an abort without a command. -/
  «begin» : v.beginsCommand m → v.play.phase = .aborting → v.inFlight
  /-- While an abort is pending commands end one after the other. -/
  «end» : v.endsCommand m → v.reported ∨ v.play.phase = .aborting → v.ends = v.returns
  /-- No command completes or fails where an abort was announced for one. -/
  outcome : v.tellsOutcome m → v.reported = false

instance (v : Watch) (m : Move) : Decidable (v.Orderly m) :=
  decidable_of_iff ((∀ debugger ∈ v.abortOf? m, v.reported = false ∧ v.ends = v.returns ∧
      (v.play.phase = .running ∨ debugger = v.inFlight)) ∧
    (v.beginsCommand m → v.play.phase = .aborting → v.inFlight) ∧
    (v.endsCommand m → v.reported ∨ v.play.phase = .aborting → v.ends = v.returns) ∧
    (v.tellsOutcome m → v.reported = false))
    ⟨fun h => ⟨h.1, h.2.1, h.2.2.1, h.2.2.2⟩, fun h => ⟨h.1, h.2, h.3, h.4⟩⟩

def IsOrderly : Watch → List Move → Prop
  | _, [] => True
  | v, m :: ms => v.Orderly m ∧ (v.move m).IsOrderly ms

instance decidableIsOrderly : (v : Watch) → (ms : List Move) → Decidable (v.IsOrderly ms)
  | _, [] => .isTrue trivial
  | v, m :: ms =>
    have := decidableIsOrderly (v.move m) ms
    inferInstanceAs (Decidable (v.Orderly m ∧ (v.move m).IsOrderly ms))

end Watch

namespace Announcements

open Duties Duties.Duty

/-! ## Steps -/

attribute [local simp] early late untold told gone unsettled closed mute lost spokenWeights endWeights

variable {i n : Nat} {h : History} {w t : World} {all got : Multiset Duty} {flow : Nat}
  {pick inFlight : Bool}

/-- The books of a world in which the broker has not been disposed. -/
def books (i n : Nat) : Books brokerInterface Duty World := fun h w all =>
  w.phase ≠ .disposed → Balanced i n h w.phase w.abortReported w.channel all

/-- Calm steps leave the flag alone and announce nothing of commands and aborts. -/
theorem calm_perform {action : Action} {r : action.Reply} (calm : action.IsCalm)
    (hp : World.perform flow pick action w = some (r, t)) : t.abortReported = w.abortReported ∧
      t.channel.starts = w.channel.starts ∧ t.channel.ends = w.channel.ends := by
  cases action with
  | broker op =>
    cases op
    case notify notice =>
      cases hp
      have plain : notice.isStart = false ∧ notice.isEnd = false := by
        cases notice <;> first | exact calm.elim | exact ⟨rfl, rfl⟩
      simp [plain]
    case beginAbort | endCommand | clearAbortReport => exact calm.elim
    case awaitResume | awaitAvailability | upgrade | awaitUnhold | awaitNews | nextPlan | awaitPromise =>
      simp only [World.perform, World.performBroker] at hp
      split at hp <;> cases hp <;> exact ⟨rfl, rfl, rfl⟩
    all_goals cases hp; exact ⟨rfl, rfl, rfl⟩
  | _ =>
    have same := (World.unmoved_perform hp).standing (by rintro _ ⟨⟩)
    have channel : t.channel = w.channel := congrArg World.Standing.channel same
    exact ⟨congrArg World.Standing.abortReported same, by rw [channel], by rw [channel]⟩

theorem phaseAfter_disposed (action : Action) : World.phaseAfter .disposed action = .disposed := by
  unfold World.phaseAfter
  split <;> rfl

theorem isEnd_calm {action : Action} (calm : action.IsCalm) : action.isEnd = false := by
  cases action with
  | broker op => cases op <;> first | exact calm.elim | rfl
  | _ => rfl

theorem abortOf?_calm {action : Action} (calm : action.IsCalm) : w.abortOf? action = none := by
  cases action with
  | broker op => cases op <;> first | exact calm.elim | rfl
  | _ => rfl

theorem balanced_calm {action : Action} {r : action.Reply} (calm : action.IsCalm)
    (right : Balanced i n h w.phase w.abortReported w.channel all)
    (hp : World.perform flow pick action w = some (r, t)) (alive : t.phase ≠ .disposed) :
    Balanced i n h t.phase t.abortReported t.channel all := by
  obtain ⟨flag, starts, ends⟩ := calm_perform calm hp
  have after := World.phase_perform hp
  rw [flag]
  refine ⟨right.announced.same starts ends, ?_⟩
  rcases phaseAfter_calm calm w.phase with same | back | gone
  · rw [after, same]
    exact right.agreed
  · rw [after, back]
    exact right.agreed.back
  · exact absurd (after.trans gone) alive

theorem balanced_same (same : t.standing = w.standing)
    (right : Balanced i n h w.phase w.abortReported w.channel all) :
    Balanced i n h t.phase t.abortReported t.channel all := by
  have phase : t.phase = w.phase := congrArg World.Standing.phase same
  have flag : t.abortReported = w.abortReported := congrArg World.Standing.abortReported same
  have channel : t.channel = w.channel := congrArg World.Standing.channel same
  rwa [phase, flag, channel]

theorem abortOf?_eq {debug : Bool} {begun : Option (Phase × Bool)}
    (hp : World.perform flow pick (.broker (.beginAbort debug)) w = some (begun, t)) :
    w.abortOf? (.broker (.beginAbort debug)) = begun.map Prod.snd := by
  have hp : w.beginAbort debug = (begun, t) := Option.some.inj hp
  unfold World.beginAbort at hp
  unfold World.abortOf?
  split at hp <;> cases hp
  · next ignored => simp [ignored]
  · next accepted => simp [accepted]

theorem balanced_acts {action : Action} {u : Use brokerInterface Duty action} {r : action.Reply}
    (used : Discharges action u)
    (right : Balanced i n h w.phase w.abortReported w.channel (u.takes + all))
    (flying : inFlight ↔ returned commands h < entered commands h)
    (abort : ∀ debugger ∈ w.abortOf? action, w.abortReported = false ∧ n = returned commands h ∧
      (w.phase = .running ∨ debugger = inFlight))
    (ends : action.isEnd → w.abortReported ∨ w.phase = .aborting → n = returned commands h)
    (outcome : action.isOutcome → w.abortReported = false)
    (hp : World.perform flow pick action w = some (r, t)) (gives : u.gives r got)
    (alive : t.phase ≠ .disposed) :
    Balanced (i + ((w.abortOf? action).isSome && !inFlight).toNat) (n + action.isEnd.toNat) h
      t.phase t.abortReported t.channel (got + all) := by
  cases used
  case look i' ticket caller =>
    obtain rfl := gives
    refine balanced_same ((World.unmoved_perform hp).standing (by rintro _ ⟨⟩)) (right.trade ?_ ?_ ?_)
    all_goals
      unfold fetched
      split <;> simp
  case release i' =>
    obtain rfl := gives
    refine balanced_same ((World.unmoved_perform hp).standing (by rintro _ ⟨⟩)) (right.trade ?_ ?_ ?_)
    all_goals simp
  case begin =>
    obtain rfl := gives
    cases hp
    have begins := right.trade (b := begun) (by decide) (by decide) fun _ => le_rfl
    exact begins.goesOn rfl rfl
  case goOn =>
    obtain rfl := gives
    cases hp
    exact right.goesOn rfl rfl
  case announce hadErrors =>
    obtain rfl := gives
    cases hp
    exact right.announce hadErrors
  case «end» =>
    obtain rfl := gives
    cases hp
    refine right.finish (fun gone => alive ?_) (ends rfl)
    show w.phase.toward .ready = .disposed
    rw [gone]
    rfl
  case silent =>
    obtain rfl := gives
    cases hp
    rw [right.up_of_mute] at right
    exact right.hush
  case ask before _ _ =>
    obtain rfl := gives
    cases hp
    show Balanced _ _ h w.phase false w.channel ({asked w.abortReported} + all)
    cases flag : w.abortReported
    · rw [flag] at right
      exact right.ask
    · rw [flag] at right
      exact right.hush
  case speak hadErrors =>
    obtain rfl := gives
    cases hp
    exact right.tell ⟨rfl, rfl⟩ ⟨rfl, rfl⟩ le_rfl le_rfl (by decide) fun _ => le_rfl
  case tell before progress hadErrors running stopped _ _ =>
    obtain rfl := gives
    cases hp
    have down : w.abortReported = false := by
      cases progress <;> first | exact absurd rfl running | exact absurd rfl stopped | exact outcome rfl
    refine right.tell (b := ended) ?_ ⟨rfl, rfl⟩ le_rfl le_rfl (by simp) (by simp [down])
    cases progress <;> first | exact absurd rfl running | exact ⟨rfl, rfl⟩
  case abort debug =>
    obtain rfl := gives
    have accepted := abortOf?_eq hp
    rcases World.beginAbort_perform hp with ⟨rfl, rfl⟩ | ⟨rfl, -, -, rfl⟩
    · rw [accepted]
      exact right
    · obtain ⟨down, last, whose⟩ := abort _ accepted
      rw [down] at right
      show Balanced _ n h .aborting (w.abortReported || _ || _) w.channel ({alarm w.phase} + all)
      rw [accepted, down, Bool.false_or]
      exact right.abort last flying whose
  case warn before hadErrors =>
    obtain rfl := gives
    cases hp
    refine right.tell (b := announced before) ⟨rfl, rfl⟩ ?_ ?_ ?_ ?_ fun _ => ?_
    all_goals
      unfold announced
      split <;> simp
  case setBack =>
    obtain rfl := gives
    cases hp
    exact (right.trade (b := able) (by decide) (by decide) fun _ => le_rfl).back
  case calm calm =>
    obtain rfl := gives
    rw [abortOf?_calm calm, isEnd_calm calm]
    exact balanced_calm calm right hp alive

/-! ## Plays -/

variable {v : Watch} {m : Move} {action : Action}

theorem inFlight_iff (attended : v.play.Attended) :
    v.inFlight ↔ returned commands v.play.history < entered commands v.play.history := by
  have balance := attended.balance commands
  rw [Watch.inFlight, List.any_eq_true]
  constructor
  · rintro ⟨proc, here, command⟩
    have some : commands proc ≤ v.play.config.attending commands := le_attending here
    rw [commands, command, Bool.toNat_true] at some
    omega
  · intro less
    by_contra none
    have nobody : v.play.config.attending commands = 0 := by
      refine attending_eq_zero fun proc here => ?_
      rw [commands, Bool.toNat_eq_zero, Bool.eq_false_iff]
      exact fun command => none ⟨proc, here, command⟩
    omega

theorem move_of_action (next : v.play.action? m = some action) :
    v.abortOf? m = v.play.config.shared.abortOf? action ∧ v.endsCommand m = action.isEnd ∧
      v.tellsOutcome m = action.isOutcome := by
  unfold Watch.abortOf? Watch.endsCommand Watch.tellsOutcome
  rw [next]
  exact ⟨rfl, rfl, rfl⟩

theorem move_of_none (next : v.play.action? m = none) :
    (v.move m).idleAborts = v.idleAborts ∧ (v.move m).ends = v.ends := by
  simp only [Watch.move, Watch.abortOf?, Watch.endsCommand, next, Option.bind_none, Option.isSome_none,
    Bool.false_and, Bool.toNat_false, Nat.add_zero, Option.any_none, and_self]

/-- No abort and no end of a command has to wait. -/
theorem waits_calm (waits : World.perform flow pick action w = none) :
    w.abortOf? action = none ∧ action.isEnd = false := by
  cases action with
  | broker op => cases op <;> first | exact ⟨rfl, rfl⟩ | cases waits
  | _ => exact ⟨rfl, rfl⟩

theorem action?_step {f : Flow brokerInterface} (hf : v.play.config.find? flow = some f) :
    v.play.action? (.step flow pick) = f.action? := by
  simp only [Play.action?, hf, Option.bind_some]

theorem move_of_waits (waits : brokerMachine.step? v.play.config flow pick = none) :
    (v.move (.step flow pick)).idleAborts = v.idleAborts ∧
      (v.move (.step flow pick)).ends = v.ends := by
  rcases hf : v.play.config.find? flow with _ | ⟨proc, code, wait⟩
  · apply move_of_none
    simp only [Play.action?, hf, Option.bind_none]
  · have next : v.play.action? (.step flow pick) = Flow.action? ⟨proc, code, wait⟩ := action?_step hf
    cases code with
    | act action after =>
      simp only [Machine.step?, hf, Option.bind_some, Machine.stepFlow] at waits
      split at waits
      · next blocked =>
        obtain ⟨aborts, ends, -⟩ := move_of_action next
        obtain ⟨none, goes⟩ := waits_calm blocked
        simp only [Watch.move, aborts, ends, none, goes]
        exact ⟨rfl, rfl⟩
      · cases waits
    | _ => exact move_of_none next

theorem action?_of_event {f : Flow brokerInterface} {e : Event brokerInterface}
    (seen : f.event? = some e) : f.action? = none := by
  obtain ⟨proc, code, wait⟩ := f
  cases code <;> first | rfl | cases seen

theorem books_apply (change : Outside) (right : books i n h w all) :
    books i n h (change.apply w) all := by
  cases change <;> exact right

theorem entered_move (attended : v.play.Attended) (call : m.IsCall) (orderly : v.Orderly m) :
    v.play.Entered contract (books v.idleAborts v.ends)
      (books (v.move m).idleAborts (v.move m).ends) m where
  arrive name request hm := by
    subst hm
    obtain ⟨idle, ends⟩ := move_of_none (v := v) (m := .arrive name request) rfl
    refine ⟨_, .client name call, fun all right alive => ?_⟩
    rw [idle, ends]
    refine Balanced.enters (.client name call) ?_ nofun
    simpa only [brings, zero_add] using right alive
  outside change hm all right := by
    subst hm
    exact books_apply change right
  waits flow pick hm waits all right := by
    subst hm
    obtain ⟨idle, ends⟩ := move_of_waits waits
    rwa [idle, ends]
  step flow pick f d all hm hf right dealt _ := by
    subst hm
    have next : v.play.action? (.step flow pick) = f.action? := action?_step hf
    cases dealt with
    | @act proc action after wait r u others hu le hp owned =>
      obtain ⟨got, gives⟩ := gives_some hu r
      obtain ⟨aborts, ends, outcome⟩ := move_of_action next
      refine ⟨got + others, owned got gives, fun alive => ?_⟩
      have living : v.play.config.shared.phase ≠ .disposed := fun gone =>
        alive (by rw [World.phase_perform hp, gone, phaseAfter_disposed])
      have acts := balanced_acts hu ((right living).less le) (inFlight_iff attended)
        (fun debugger accepted => orderly.abort debugger (aborts ▸ accepted))
        (fun ending => orderly.end (ends ▸ ending)) (fun told => orderly.outcome (outcome ▸ told)) hp
        gives alive
      rw [← aborts, ← ends] at acts
      exact acts
    | @enter _ callee e others event he le same owned =>
      obtain ⟨idle, ends⟩ := move_of_none (next.trans (action?_of_event event))
      refine ⟨_, owned, fun alive => ?_⟩
      rw [same] at alive ⊢
      rw [idle, ends, event]
      refine Balanced.enters he ((right alive).less le) fun command aborting => ?_
      refine (inFlight_iff attended).mp (orderly.begin ?_ aborting)
      simp [Watch.beginsCommand, hf, Flow.beginsCommand, event, command]
    | «return» e y others he yields le same owned =>
      obtain ⟨idle, ends⟩ := move_of_none next
      refine ⟨_, owned, fun alive => ?_⟩
      rw [same] at alive ⊢
      rw [idle, ends]
      exact Balanced.returns he yields ((right alive).less le)

variable {settings : BrokerSettings} {endpoints : List (EngineName × Endpoint)} {main : EngineName}
  {host : Host} {ms : List Move}

theorem books_new : books 0 0 [] (.new settings endpoints main host) 0 := by
  intro _
  constructor
  case announced => exact ⟨le_rfl, le_rfl, le_rfl, le_rfl⟩
  case agreed => exact ⟨le_rfl, fun _ => Nat.zero_le _, le_rfl, nofun, nofun, nofun, rfl⟩

/-- As long as there is one abort at a time the books are right. -/
theorem keeps_moves (attended : v.play.Attended)
    (keeps : v.play.Keeps contract (books v.idleAborts v.ends)) (calls : ∀ m ∈ ms, m.IsCall)
    (orderly : v.IsOrderly ms) : (v.moves ms).play.Attended ∧
      (v.moves ms).play.Keeps contract (books (v.moves ms).idleAborts (v.moves ms).ends) := by
  induction ms generalizing v with
  | nil => exact ⟨attended, keeps⟩
  | cons m ms ih =>
    obtain ⟨call, calls⟩ := List.forall_mem_cons.mp calls
    exact ih (attended.move m) (keeps.move bodies (entered_move attended call orderly.1)) calls
      orderly.2

/-- As long as there is one abort at a time, once no command and no abort is under way as many ends
have been announced as commands have, and one more for each abort that was accepted while no command
was in flight. -/
theorem announcements_balance (settings : BrokerSettings) (endpoints : List (EngineName × Endpoint))
    (main : EngineName) (host : Host) (ms : List Move) (calls : ∀ m ∈ ms, m.IsCall)
    (orderly : (Watch.new settings endpoints main host).IsOrderly ms) :
    let v := (Watch.new settings endpoints main host).moves ms
    v.isSettled → v.play.phase ≠ .disposed →
      v.play.config.shared.channel.ends = v.play.config.shared.channel.starts + v.idleAborts := by
  intro v settled alive
  obtain ⟨attended, keeps⟩ : v.play.Attended ∧ v.play.Keeps contract (books v.idleAborts v.ends) :=
    keeps_moves (Play.attended_moves settings endpoints main host []) (Play.keeps_new books_new) calls
      orderly
  obtain ⟨-, all, -, right⟩ := keeps
  have none : ∀ proc ∈ v.play.config.procs, proc.isCommand = false ∧ proc.aborts = false := by
    intro proc here
    simpa using List.all_eq_true.mp settled proc here
  refine (right alive).settled ?_ ?_
  · rw [attended.balance, attending_eq_zero fun proc here => ?_, Nat.add_zero]
    rw [commands, (none proc here).1]
    rfl
  · rw [attended.balance, attending_eq_zero fun proc here => ?_, Nat.add_zero]
    exact aborters_eq_zero (none proc here).1 (none proc here).2

/-! ### Two commands, three aborts -/

open Repose (stoppingEndpoints)

/-- A command stops in the debugger and another one waits at the debugger's prompt. Both are aborted,
one after the other, and then there is an abort for which there is no command. -/
def abortAll : List Move :=
  [.arrive "set up" (.setUp "main" true)] ++ turns 0 20
    ++ [.arrive "stop" (.execute (.script "stop") .standard none)] ++ turns 1 60
    ++ [.arrive "wait" (.execute (.script "wait") .interactive none)] ++ turns 2 30
    ++ [.arrive "abort" (.abort false)] ++ turns 3 10 ++ turns 2 20
    ++ [.arrive "leave" (.abort true)] ++ turns 4 15 ++ turns 1 30
    ++ [.arrive "nothing" (.abort false)] ++ turns 5 10

/-- Two commands and an abort without a command have three ends. -/
theorem announcements_balance_after_aborts :
    let v := (Watch.new .standard stoppingEndpoints "main" .new).moves abortAll
    v.play.config.shared.channel.starts = 2 ∧ v.idleAborts = 1 ∧
      v.play.config.shared.channel.ends = 3 := by
  have calls : ∀ m ∈ abortAll, m.IsCall := by decide +kernel
  have orderly : (Watch.new .standard stoppingEndpoints "main" .new).IsOrderly abortAll := by
    decide +kernel
  have settled : ((Watch.new .standard stoppingEndpoints "main" .new).moves abortAll).isSettled ∧
    ((Watch.new .standard stoppingEndpoints "main" .new).moves abortAll).play.phase ≠ .disposed := by
    decide +kernel
  have counts : ((Watch.new .standard stoppingEndpoints "main" .new).moves
      abortAll).play.config.shared.channel.starts = 2 ∧
    ((Watch.new .standard stoppingEndpoints "main" .new).moves abortAll).idleAborts = 1 := by
    decide +kernel
  have balance := announcements_balance .standard stoppingEndpoints "main" .new abortAll calls orderly
  -- from here on the broker need not be computed any more
  generalize (Watch.new .standard stoppingEndpoints "main" .new).moves abortAll = v
    at settled counts balance ⊢
  refine ⟨counts.1, counts.2, ?_⟩
  rw [balance settled.1 settled.2, counts.1, counts.2]

/-- An engine on which a command can be held. -/
def holdingEndpoints : List (EngineName × Endpoint) :=
  [("main", ⟨.new ⟨5, 1⟩ ⟨1, "localhost", "host"⟩ [("hold", .hold)], false, none, none⟩)]

/-- While a command is held another one completes at a nested prompt; then there is an abort, and the
first command is released. -/
def holdAndGreet : List Move :=
  [.arrive "set up" (.setUp "main" true)] ++ turns 0 20
    ++ [.arrive "hold" (.execute (.script "hold") .standard none)] ++ turns 1 40
    ++ [.arrive "nest" .enterNestedPrompt] ++ turns 2 20 ++ turns 3 20
    ++ [.arrive "greet" (.execute (.script "greet") .standard none)] ++ turns 4 40 ++ turns 3 60
    ++ turns 4 40 ++ [.arrive "abort" (.abort false)] ++ turns 5 40
    ++ [.arrive "release" (.engineStep "main" .release)] ++ turns 6 20 ++ turns 1 40

/-- The abort and the command that it aborts are both announced as the end of that command. -/
theorem aborted_twice :
    let v := (Watch.new .standard holdingEndpoints "main" .new).moves holdAndGreet
    v.isSettled ∧ v.play.phase = .ready ∧ v.play.config.shared.channel.starts = 2 ∧
      v.idleAborts = 0 ∧ v.play.config.shared.channel.ends = 3 ∧
        v.play.config.shared.channel.sent.countP (· = .progress .aborted false) = 2 := by
  decide +kernel

end Announcements

end SessionBroker
