import SessionBroker.Proofs.Accounting
import SessionBroker.Proofs.Calls
import SessionBroker.Proofs.Common
import SessionBroker.Proofs.Departures
import SessionBroker.Proofs.IdleWork.Queue
import SessionBroker.Proofs.Instances
import SessionBroker.Proofs.Prompts
import SessionBroker.Proofs.Verdicts

/-!
# Attempts to run a command

A call to execute a command looks for a way from the frame that is current. If that frame goes away first, it looks
again; but it learns of it only when the frame is off the stack, so that another frame is current by then. It makes at
most one attempt more than frames leave the stack meanwhile.
-/

namespace SessionBroker

open Demolition (Kept removed)
open Program (leads_invoke)

variable {c : Chronicle} {flow : Nat} {frame : FrameRef} {e : EngineName} {q : Request} {token : Option Token}
  {ds : List (Deed brokerInterface World)}

/-! ## What one learns of a frame that goes away -/

/-- A command that was run does not come back with the news that its frame went away. -/
theorem comes_run (route : Route) {who : Proc} : (Running.run frame e q route).Comes brokerMachine flow who
    (fun _ r => r ≠ .error .frameExited) ds := by
  rw [Running.run_eq]
  refine Program.comes_after fun _ _ => Program.comes_after fun _ x => ?_
  refine Program.comes_after fun _ _ => Program.comes_after fun _ availability => ?_
  split
  · refine Program.comes_after fun _ _ => Program.comes_after fun _ _ => ?_
    show (Verdict.ofResult x).response ≠ _
    unfold Verdict.response
    split <;> rintro ⟨⟩
  · refine Program.comes_after fun _ _ => Program.comes_after fun _ _ => Program.comes_after fun _ _ => ?_
    rintro ⟨⟩

/-- Deeds by which one learns that a frame went away. -/
inductive Refusal (frame : FrameRef) : Deed brokerInterface World → Prop where
  /-- One has waited for its end. -/
  | finished {a : Act brokerInterface World} : frame.hasMailbox = true → a.action = .frames (.awaitFinish frame.id) →
      Refusal frame (.act a)
  /-- No lease is given out any more. -/
  | closed {ticket : Nat} {caller : Gate.Caller} :
      Refusal frame (.call (.awaitLease frame.id ticket caller) (.error .frameExited))
  /-- One has run the command oneself and been told so. -/
  | ran {e : EngineName} {q : Request} {route : Route} :
      Refusal frame (.call (.runCommand frame e q route) (.error .frameExited))
  /-- One has waited for a promise and been told so. -/
  | promised {id : Nat} {who : Proc} {p : Nat} {w u : World} :
      Refusal frame (.act ⟨id, who, .broker (.awaitPromise p), some (.response (.error .frameExited)), w, u⟩)

/-- If somebody is told that a frame went away, he has learned of it. -/
def Learns (frame : FrameRef) (ds : List (Deed brokerInterface World)) (r : Response) : Prop :=
  r = .error .frameExited → ∃ d ∈ ds, Refusal frame d

namespace Routing

variable {who : Proc} {route : Route}

theorem comes_leased : (leased frame q route token).Comes brokerMachine flow who (Learns frame) ds := by
  refine Program.comes_after fun ds e => ?_
  rintro - ticket - - - (f | _)
  · exact fun gone => ⟨_, List.mem_cons_self, by cases gone; exact .closed⟩
  · rintro r - - - - -
    exact fun gone => ⟨_, List.mem_cons_of_mem _ List.mem_cons_self, by cases gone; exact .ran⟩

theorem comes_behindLoop : (behindLoop frame q).Comes brokerMachine flow who
    (fun ds r => ∀ x ∈ r, Learns frame ds x) ds := by
  refine Program.comes_after fun ds e => ?_
  rintro - (_ | p) - - -
  · rintro _ ⟨⟩
  · rintro - (_ | payload) - - -
    · rintro _ ⟨⟩
    · cases payload with
      | response r =>
        intro x same gone
        cases same
        exact ⟨_, List.mem_cons_self, by cases gone; exact .promised⟩
      | value | loopEnded => rintro _ ⟨⟩

theorem comes_byMail (boxed : frame.hasMailbox) :
    (byMail frame q).Comes brokerMachine flow who (Learns frame) ds := by
  refine Program.comes_after fun ds r => ?_
  split
  · rintro - - - - -
    exact fun _ => ⟨_, List.mem_cons_self, .finished boxed rfl⟩
  · next other => exact fun gone => absurd gone other

theorem comes_attempt (boxed : route = .mailbox → frame.hasMailbox) :
    (attempt frame q token route).Comes brokerMachine flow who (Learns frame) ds := by
  cases route with
  | idle =>
    refine comes_behindLoop.bind fun ds r learns => ?_
    cases r with
    | none => exact comes_leased
    | some r => exact learns r rfl
  | mailbox => exact comes_byMail (boxed rfl)
  | prompt | direct => exact comes_leased

/-- Only a frame with a mailbox is served by another thread. -/
theorem comes_surroundings : (surroundings frame).Comes brokerMachine flow who
    (fun _ around => around.servedElsewhere = true → frame.hasMailbox = true) ds := by
  refine Program.comes_after fun _ _ => Program.comes_after fun _ _ => Program.comes_after fun _ _ => ?_
  refine Program.comes_after fun _ _ => Program.comes_after fun _ own => ?_
  exact fun served => ((Bool.and_eq_true _ _).mp served).1

theorem boxed_of_choose {o : RequestOptions} {around : Surroundings} (mail : Route.choose o around = .mailbox) :
    around.servedElsewhere := by
  unfold Route.choose at mail
  repeat' split at mail
  all_goals first | assumption | cases mail

end Routing

/-! ## What promises say of commands -/

section Promises

variable {w u : World} {pick : Bool} {action : Action} {r : action.Reply}

/-- A step makes one promise at most. -/
theorem promises_grow (performed : World.perform flow pick action w = some (r, u)) :
    u.promises.length = w.promises.length ∨ u.promises = w.promises ++ [.open] := by
  by_cases books : action.Books
  · cases action with
    | frames op =>
      obtain ⟨_, -, h⟩ := Option.map_eq_some_iff.mp performed
      cases h
      exact .inl rfl
    | idle op =>
      cases op with
      | setActive active =>
        cases active with
        | true => exact .inl (congrArg List.length (IdleWork.performs_resume performed).2)
        | false => exact .inl (by rw [(IdleWork.performs_suspend performed).2, IdleWork.length_breakAll])
      | schedule work =>
        rcases IdleWork.performs_schedule performed with ⟨-, -, -, promises⟩ | ⟨-, -, rfl⟩
        · exact .inr promises
        · exact .inl rfl
      | take =>
        rcases IdleWork.performs_take performed with ⟨_, _, -, -, -, promises⟩ | ⟨-, -, rfl⟩
        · exact .inl (congrArg List.length promises)
        · exact .inl rfl
      | _ => exact books.elim
    | broker op =>
      cases op with
      | promise => cases performed; exact .inr rfl
      | keep => cases performed; exact .inl (List.length_set ..)
      | ticket | offer | takeAction => cases performed; exact .inl rfl
      | _ => exact books.elim
    | _ => exact books.elim
  · exact .inl (congrArg (fun l => l.promises.length) (World.ledger_perform books performed))

/-- A promise is kept by who says so, or it had been kept before. -/
theorem kept_perform {p : Nat} {payload : Payload} (performed : World.perform flow pick action w = some (r, u))
    (kept : u.promises[p]? = some (.kept payload)) :
    action = .broker (.keep p payload) ∨ w.promises[p]? = some (.kept payload) := by
  by_cases below : p < w.promises.length
  · have written := (IdleWork.promises_perform performed).2 p below
    rw [kept] at written
    rcases writes : IdleWork.writes action w p with _ | x
    · exact .inr (by simpa [writes] using written.symm)
    · obtain rfl : x = .kept payload := by simpa [writes] using written.symm
      rcases IdleWork.writes_eq_some.mp writes with ⟨other, keeps, same⟩ | ⟨-, -, ⟨⟩⟩
      cases same
      exact .inl keeps
  · obtain ⟨here, -⟩ := List.getElem?_eq_some_iff.mp kept
    rcases promises_grow performed with same | grown
    · exact absurd (same ▸ here) below
    · rw [grown, List.getElem?_append_right (not_lt.mp below), List.getElem?_singleton] at kept
      split at kept <;> cases kept

end Promises

/-- Programs that tell nobody by a promise what came of a command. -/
def untold : Scope brokerInterface :=
  ⟨fun a => ∀ p r, a ≠ .broker (.keep p (.response r)), fun _ => True, fun _ => True⟩

@[local simp] theorem untold_acts {a : Action} : untold.acts a ↔ ∀ p r, a ≠ .broker (.keep p (.response r)) := Iff.rfl
@[local simp] theorem untold_calls (p : Proc) : untold.calls p := trivial
@[local simp] theorem untold_starts (p : Proc) : untold.starts p := trivial

theorem untold_of_taskless {α : Type} {p : Code α} (taskless : p.Taskless) : p.Within untold := by
  refine Program.Within.mono (S := tasklessScope) (fun a quiet p r keeps => ?_) (fun _ _ => trivial) (fun _ _ => trivial)
    taskless
  subst keeps
  cases quiet

theorem untold_body {proc : Proc} (runner : proc ≠ .pump) : (body proc).Within untold := by
  by_cases thread : ∃ frame promise, proc = .nestedPrompt frame promise
  · obtain ⟨frame, promise, rfl⟩ := thread
    refine Program.within_bind (by simp) fun action => ?_
    exact Program.within_bind (untold_of_taskless (by grind)) fun _ => by simp
  · by_cases starter : ∃ name, proc = .serveClient name .enterNestedPrompt
    · obtain ⟨name, rfl⟩ := starter
      refine Program.within_bind (by simp) fun _ => ?_
      refine Program.within_bind (Program.within_bind ?_ fun r => by simp) fun report => by simp [Clients.holdsBroker]
      refine Program.within_bind (by simp) fun phase => ?_
      split
      · simp
      · exact Program.within_bind (untold_of_taskless (by grind)) fun session => by simp
    · exact untold_of_taskless (taskless_body runner (by simpa using thread) (by simpa using starter))

/-- Whoever keeps the promise of a command says what he was told when he ran it. -/
def spoken : Lore brokerInterface World (Option Response) where
  blank := none
  note _ _ _ k := k
  acts action k := ∀ p r, action = .broker (.keep p (.response r)) → k = some r
  calls _ _ := True
  starts _ _ := True
  back callee k r k' := match callee, r with
    | .runCommand .., r => k' = some r
    | _, _ => k' = k

/-- What one is told of a command that one ran. -/
def heeds : (callee : Proc) → callee.Result → Option Response → Option Response
  | .runCommand .., r, _ => some r
  | _, _, k => k

theorem back_heeds (callee : Proc) (k : Option Response) (r : callee.Result) :
    spoken.back callee k r (heeds callee r k) := by
  cases callee <;> rfl

theorem minds_untold {α : Type} {p : Code α} (h : p.Within untold) (k : Option Response) :
    p.Minds spoken brokerMachine (fun _ _ => True) k :=
  Program.Within.minds (S := untold) (K := fun _ => True) (fun _ _ quiet _ => ⟨fun p r keeps => absurd keeps (quiet p r), fun _ _ => trivial⟩)
    (fun _ _ _ _ => ⟨trivial, fun _ _ _ => trivial⟩) (fun _ _ _ _ => trivial) h trivial

theorem minds_work (t : IdleTask) (k : Option Response) :
    (Reading.work t).Minds spoken brokerMachine (fun _ _ => True) k := by
  obtain ⟨promise, work⟩ := t
  cases work with
  | command frame e q =>
    refine ⟨trivial, fun r k' told => ⟨fun p x keeps => ?_, fun _ _ _ _ _ _ => trivial⟩⟩
    cases keeps
    exact told
  | action n =>
    refine minds_untold (Program.within_bind (by simp) fun taken => ?_) k
    cases taken <;> simp
  | rehearsal name inner v => exact minds_untold (by simp [Reading.work, Rehearsal.begin]) k

theorem minds_spoken (proc : Proc) : (body proc).Minds spoken brokerMachine (fun _ _ => True) none := by
  by_cases runner : proc = .pump
  · subst runner
    refine Program.Minds.bind (minds_untold (by simp) none) fun task k _ => ?_
    cases task with
    | none => trivial
    | some t =>
      refine Program.Minds.bind (minds_untold (by simp) k) fun _ k _ => ?_
      exact Program.Minds.bind (minds_work t k) fun _ k _ => minds_untold (by simp) k
  · exact minds_untold (untold_body runner) none

/-- Whoever is told something when he runs a command, somebody was told so. -/
theorem call_of_heeded {ds : List (Deed brokerInterface World)} {r : Response}
    (told : spoken.remembered heeds ds none = some r) :
    ∃ frame e q route, .call (.runCommand frame e q route) r ∈ ds := by
  induction ds with
  | nil => cases told
  | cons d ds ih =>
    have old : spoken.remembered heeds ds none = some r → ∃ frame e q route,
        .call (.runCommand frame e q route) r ∈ d :: ds := fun before =>
      have ⟨frame, e, q, route, called⟩ := ih before
      ⟨frame, e, q, route, List.mem_cons_of_mem d called⟩
    rcases d with _ | ⟨callee, x⟩ | _
    · exact old told
    · cases callee
      case runCommand frame e q route =>
        cases told
        exact ⟨frame, e, q, route, List.mem_cons_self⟩
      all_goals exact old told
    · exact old told

/-! ## What is so at any time -/

/-- Nobody is told by a promise that the frame of a command went away. -/
def IsHonest (w : World) : Prop := ∀ p : Nat, w.promises[p]? ≠ some (Promise.kept (.response (.error .frameExited)))

/-- Frames whose gates are closed are off the stack. -/
def FrameStack.IsTidy (s : FrameStack) : Prop := ∀ i, s.isShut i = true → 0 < i ∧ i ∉ s.above

/-- Nobody closes the gate of a frame on the stack. -/
theorem FrameStack.isTidy_perform {s t : FrameStack} {isCancelled : Option Token → Bool} {pick : Bool} {op : FrameOp}
    {r : op.Reply} (sound : s.Sound) (tidy : s.IsTidy) (closes : ∀ j, op = .closeGate j → 0 < j ∧ j ∉ s.above)
    (h : s.perform flow isCancelled pick op = some (r, t)) : t.IsTidy := by
  intro i shut
  have old : s.isShut i = true → 0 < i ∧ i ∉ t.above := fun shut => by
    obtain ⟨pos, off⟩ := tidy i shut
    obtain ⟨fr, found, -⟩ := (Option.any_eq_true _ _).mp shut
    exact ⟨pos, (FrameStack.later_perform sound h).off (List.getElem?_eq_some_iff.mp found).1 off⟩
  by_cases push : ∃ kind remote, op = .push kind remote
  · obtain ⟨kind, remote, rfl⟩ := push
    obtain ⟨-, rfl⟩ := Demolition.push_perform h
    refine old ?_
    simp only [isShut, get?_push] at shut
    split at shut
    · cases shut
    · exact shut
  · by_cases close : ∃ j, op = .closeGate j
    · obtain ⟨j, rfl⟩ := close
      cases h
      by_cases mine : i = j
      · exact mine ▸ closes j rfl
      · refine old ?_
        simpa [isShut, modifyGate, get?_modify, Ne.symm mine] using shut
    · exact old (by rwa [isShut_perform (by simpa using push) (by simpa using close) h] at shut)

namespace Chronicle

/-- Something is so now, and it was whenever somebody acted. -/
structure Always (P : World → Prop) (c : Chronicle) : Prop where
  now : P c.world
  before : ∀ a ∈ c.log, P a.before

theorem Always.move {P : World → Prop} {mv : Move} (always : c.Always P)
    (outside : ∀ change : Outside, P (change.apply c.world))
    (act : ∀ a pick, (c.move mv).log = a :: c.log → a.before = c.world →
      World.perform a.flow pick a.action a.before = some (a.reply, a.after) → P a.after) : (c.move mv).Always P := by
  rcases c.log_move mv with ⟨log, same | ⟨change, world⟩⟩ | ⟨a, pick, log, before, after, performed⟩
  · exact ⟨same ▸ always.now, log ▸ always.before⟩
  · exact ⟨world ▸ outside change, log ▸ always.before⟩
  · refine ⟨after ▸ act a pick log before performed, ?_⟩
    rw [log]
    exact List.forall_mem_cons.mpr ⟨before ▸ always.now, always.before⟩

/-- Nobody is told by a command that was run that its frame went away. -/
theorem Faithful.ne_of_run (faithful : c.Faithful) {route : Route} {r : Response}
    (answers : Answers c.annals.returns flow ds) (called : .call (.runCommand frame e q route) r ∈ ds) :
    r ≠ .error .frameExited := by
  obtain ⟨ds, here⟩ := answers _ _ called
  exact (comes_run route).leads (faithful.fits.returned _ here)

theorem honest_move (faithful : c.Faithful) (heard : c.annals.Heard) (honest : c.Always IsHonest) (mv : Move) :
    (c.move mv).Always IsHonest := by
  refine honest.move (fun change => ?_) fun a pick log before performed => ?_
  · cases change <;> exact honest.now
  · intro p kept
    rcases kept_perform performed kept with keeps | earlier
    · obtain ⟨next, wait, hf⟩ := find_of_log log
      obtain ⟨ds, lower, tracks, leads, -⟩ := faithful.fits.tracked_of_find hf
      have minds := (Lore.minds_leads back_heeds (minds_spoken a.proc) leads).1
      obtain ⟨frame, e, q, route, called⟩ := call_of_heeded (minds.1 p _ keeps)
      have here : ⟨a.proc, ds⟩ ∈ c.annals.tracks a.flow := tracks ▸ List.mem_cons_self
      exact faithful.ne_of_run (heard.tracks a.flow _ here) called rfl
    · exact honest.now p (before ▸ earlier)

theorem tidy_move (kept : Kept c) (tidy : c.Always fun w => w.frames.IsTidy) (mv : Move) :
    (c.move mv).Always fun w => w.frames.IsTidy := by
  refine tidy.move (fun change => ?_) fun a pick log before performed => ?_
  · obtain ⟨above, -, -, -, shut⟩ := change.frames_apply c.world
    exact fun i closed => above ▸ tidy.now i (shut ▸ closed)
  · obtain ⟨next, wait, hf⟩ := find_of_log log
    obtain ⟨ds, lower, tracks, leads, -⟩ := kept.fits.tracked_of_find hf
    have here : ⟨a.proc, ds⟩ ∈ c.tracks a.flow := by
      show _ ∈ c.annals.tracks a.flow
      exact tracks ▸ List.mem_cons_self
    have allowed := (Demolition.minds_leads (kept.all.1 a.flow _ here) leads).1
    have known := kept.cleared.known _ ⟨_, _, here, rfl⟩
    have sound := kept.toLawful.sound
    have now := tidy.now
    obtain ⟨id, proc, action, r, w, u⟩ := a
    obtain rfl : w = c.world := before
    by_cases frames : ∀ op, action ≠ .frames op
    · have same : u.frames = c.world.frames := World.frames_perform frames performed
      exact fun i shut => same ▸ now i (same ▸ shut)
    · obtain ⟨op, rfl⟩ : ∃ op, action = .frames op := by simpa using frames
      refine FrameStack.isTidy_perform sound now (fun j closes => ?_) (World.frames_step performed)
      subst closes
      have there := known j (List.mem_of_mem_head? allowed.2)
      exact ⟨there.1, there.2.2⟩

/-- Whatever was on the stack after an act is there, or has been taken off since. -/
structure Swept (c : Chronicle) : Prop where
  left : ∀ late a early, c.log = late ++ a :: early → ∀ i ∈ a.after.frames.above,
    i ∈ c.world.frames.above ∨ i ∈ late.flatMap removed

/-- What an act does not leave on the stack, it takes off. -/
theorem left_perform {a : Act brokerInterface World} {pick : Bool} (sound : a.before.frames.Sound)
    (performed : World.perform a.flow pick a.action a.before = some (a.reply, a.after)) {i : Nat}
    (here : i ∈ a.before.frames.above) : i ∈ a.after.frames.above ∨ i ∈ removed a := by
  obtain ⟨id, proc, action, r, w, u⟩ := a
  by_cases frames : ∀ op, action ≠ .frames op
  · have same : u.frames = w.frames := World.frames_perform frames performed
    exact .inl (same ▸ here)
  · obtain ⟨op, rfl⟩ : ∃ op, action = .frames op := by simpa using frames
    have performed := World.frames_step performed
    by_cases push : ∃ kind remote, op = .push kind remote
    · obtain ⟨kind, remote, rfl⟩ := push
      have grown := (Demolition.push_perform performed).2
      exact .inl (grown ▸ List.mem_cons_of_mem _ here)
    · by_cases remove : ∃ j, op = .remove j
      · obtain ⟨j, rfl⟩ := remove
        obtain ⟨gone, rest⟩ : removed ⟨id, proc, .frames (.remove j), r, w, u⟩ = (w.frames.remove j).1 ∧
          u.frames = (w.frames.remove j).2 := Demolition.remove_perform performed
        by_cases mine : j ∈ w.frames.above
        · obtain ⟨n, there⟩ := List.getElem?_of_mem mine
          have parted := (FrameStack.remove_drop (k := 0) sound.toRegular.nodup rfl there).2.2 i
          refine or_iff_not_imp_left.mpr fun off => ?_
          exact gone ▸ parted.mpr ⟨here, rest ▸ off⟩
        · have same := congrArg Prod.snd (FrameStack.remove_of_not_mem mine)
          exact .inl (rest ▸ same ▸ here)
      · have same := FrameStack.above_perform (by simpa using push) (by simpa using remove) performed
        exact .inl (same ▸ here)

theorem Swept.move (lawful : c.Lawful) (swept : c.Swept) (mv : Move) : (c.move mv).Swept := by
  refine ⟨fun late a early log i here => ?_⟩
  rcases c.log_move mv with ⟨same, world⟩ | ⟨b, pick, grown, before, after, performed⟩
  · have above : (c.move mv).world.frames.above = c.world.frames.above := by
      rcases world with world | ⟨change, world⟩
      · rw [world]
      · rw [world, (change.frames_apply c.world).1]
    exact above ▸ swept.left late a early (same ▸ log) i here
  · rcases List.cons_eq_append_iff.mp (grown.symm.trans log) with ⟨rfl, same⟩ | ⟨late', rfl, same⟩
    · obtain ⟨rfl, -⟩ := List.cons.inj same
      exact .inl (after ▸ here)
    · have sound : b.before.frames.Sound := before ▸ lawful.sound
      rw [List.flatMap_cons, List.mem_append, ← after]
      rcases swept.left late' a early same i here with stays | gone
      · rcases left_perform sound performed (before ▸ stays) with stays | gone
        · exact .inl stays
        · exact .inr (.inl gone)
      · exact .inr (.inr gone)

end Chronicle

/-! ## Who seeks a way -/

namespace Attempts

/-- The frame on which an act makes an attempt to run the command of a call. -/
def tries? (k : Nat) : Act brokerInterface World → Option Nat
  | ⟨_, .route q _, .frames .current, frame, _, _⟩ => if q.call = k then some frame.id else none
  | _ => none

/-- Whether a procedure seeks a way for the command of a call. -/
def seeks (k : Nat) : Proc → Bool
  | .route q _ => q.call = k
  | _ => false

/-- Whether a procedure executes the command of a call. -/
def executes (k : Nat) : Proc → Bool
  | .execute q _ => q.call = k
  | _ => false

/-- What is done once the current frame is known: nobody looks for it again or calls others who do. -/
def onward : Scope brokerInterface :=
  ⟨fun a => a ≠ .frames .current, fun p => p.isReserved = false, fun _ => True⟩

@[local simp] theorem onward_acts {a : Action} : onward.acts a ↔ a ≠ .frames .current := Iff.rfl
@[local simp] theorem onward_calls {p : Proc} : onward.calls p ↔ p.isReserved = false := Iff.rfl
@[local simp] theorem onward_starts (p : Proc) : onward.starts p := trivial

attribute [local simp] Proc.isReserved Action.isBooking EngineOp.leaves

theorem onward_surroundings (frame : FrameRef) : (Routing.surroundings frame).Within onward := by
  simp [Routing.surroundings, SessionChanges.current, Engines.isStopped]

theorem onward_attempt (frame : FrameRef) (q : Request) (token : Option Token) (route : Route) :
    (Routing.attempt frame q token route).Within onward := by
  have leased : ∀ route, (Routing.leased frame q route token).Within onward := fun route => by
    unfold Routing.leased Leases.acquire Leases.release SessionChanges.currentEngine SessionChanges.current
    repeat' with_reducible first
      | split
      | refine Program.within_bind ?_ fun _ => ?_
    all_goals simp
  cases route with
  | idle =>
    refine Program.within_bind ?_ fun r => ?_
    · unfold Routing.behindLoop SessionChanges.currentEngine SessionChanges.current
      repeat' with_reducible first
        | split
        | refine Program.within_bind ?_ fun _ => ?_
      all_goals simp
    · cases r with
      | none => exact leased _
      | some r => trivial
  | mailbox =>
    refine Program.within_bind (Program.within_bind (by simp) fun ticket => ?_) fun r => ?_
    · refine Program.within_bind (by simp) fun first => Program.within_bind ?_ fun answer => ?_
      · cases first <;> simp [Routing.answered]
      · cases answer <;> simp
    · split <;> simp
  | prompt | direct => exact leased _

section Ways

variable {callee : Proc} {next : callee.Result → Code Response}

/-- Whoever seeks a way again has taken a look at the current frame, and learned later that it went away. -/
theorem leads_route (leads : (Routing.route q token).Leads brokerMachine flow (.route q token) ds (.call callee next))
    (reserved : callee.isReserved) : ∃ frame w u late,
      ds = late ++ [.act ⟨flow, .route q token, .frames .current, frame, w, u⟩] ∧
      (∀ d ∈ late, d.Stays onward) ∧ ∃ d ∈ late, Refusal frame d := by
  rcases leads.of_perform with rfl | ⟨frame, w, u, late, rfl, rest⟩
  · cases leads
  · have other : ¬onward.calls callee := by rw [onward_calls, reserved]; rintro ⟨⟩
    obtain ⟨early, _, around, rfl, looked, rest⟩ := rest.of_bind_call (onward_surroundings frame) other
    obtain ⟨mid, late, r, rfl, tried, rest⟩ := rest.of_bind_call (onward_attempt ..) other
    have served : around.servedElsewhere = true → frame.hasMailbox = true :=
      Routing.comes_surroundings.leads looked
    have learns := (Routing.comes_attempt fun mail => served (Routing.boxed_of_choose mail)).leads tried
    split at rest
    · obtain ⟨first, late, phase, rfl, asked, rest⟩ := rest.of_bind_call (S := onward) (by simp) other
      split at rest
      · cases rest.of_done.2
      · rcases leads_invoke rest with ⟨rfl, -⟩ | ⟨_, -, same⟩
        · have stays := fun d hd => List.forall_mem_append.mpr ⟨asked.stays (S := onward) (by simp),
            List.forall_mem_append.mpr ⟨tried.stays (onward_attempt ..), looked.stays (onward_surroundings frame)⟩⟩ d hd
          obtain ⟨d, hd, refusal⟩ := learns rfl
          exact ⟨frame, w, u, _, rfl, by simpa using stays, d, by simp [hd], refusal⟩
        · cases same
    · cases rest.of_done.2

/-- Whoever has a command executed calls one to seek a way for it, and nobody before. -/
theorem leads_execute (leads : (Routing.execute q token).Leads brokerMachine flow (.execute q token) ds
    (.call callee next)) (reserved : callee.isReserved) : ∀ d ∈ ds, d.Stays commonScope := by
  have other : ¬commonScope.calls callee := by rw [commonScope_calls, reserved]; rintro ⟨⟩
  obtain ⟨first, late, phase, rfl, asked, rest⟩ := leads.of_bind_call (S := commonScope) (by simp) other
  split at rest
  · cases rest.of_done.2
  · obtain ⟨second, late, _, rfl, noted, rest⟩ := rest.of_bind_call (S := commonScope) (by simp) other
    obtain ⟨third, late, _, rfl, stopped, rest⟩ := rest.of_bind_call (S := commonScope) (by simp) other
    have before := List.forall_mem_append.mpr ⟨stopped.stays (S := commonScope) (by simp),
      List.forall_mem_append.mpr ⟨noted.stays (S := commonScope) (by simp), asked.stays (S := commonScope) (by simp)⟩⟩
    have goesOn : ∀ r : Response, Program.Within commonScope (do
        Program.onlyIf q.options.interrupt do
          let phase : Phase ← Code.broker .phase
          if phase ≠ .disposed then Code.host .startLoop
        return r : Code Response) := fun r => by
      refine common_then (Program.within_onlyIf.mpr fun _ => common_then (by simp) fun phase => ?_) fun _ => trivial
      split <;> simp
    rcases rest.of_bind with ⟨q', inside, same⟩ | ⟨early, late, r, rfl, -, rest⟩
    · rcases leads_invoke inside with ⟨rfl, -⟩ | ⟨r, rfl, rfl⟩
      · simpa using before
      · have within : (Program.call callee next : Code Response).Within commonScope := same ▸ goesOn r
        exact absurd within.1 other
    · exact absurd (rest.within (goesOn r)).1 other

/-- One who waits for another one to find a way has called nobody for that before. -/
theorem unsought {proc : Proc} {next : Response → Code proc.Result}
    (leads : (body proc).Leads brokerMachine flow proc ds (.call (.route q token) next)) {q' : Request}
    {token' : Option Token} {r : Response} : .call (.route q' token') r ∉ ds := by
  intro called
  obtain ⟨_, _, same, seeker⟩ := (leads.within (within_province proc)).1 rfl
  cases same
  rcases seeker with rfl | rfl
  · obtain ⟨frame, w, u, late, rfl, stays, -⟩ := leads_route leads rfl
    have mine : .call (.route q' token') r ∈ late := by simpa using called
    cases stays _ mine
  · cases leads_execute leads rfl _ called

end Ways

/-! ## At most one seeks a way at a time -/

/-- Flows do not begin with one who seeks a way. -/
def begins (proc : Proc) : Prop := ∀ q token, proc ≠ .route q token

section Chains

variable {k : Nat} {t u : Track brokerInterface World} {id : Nat} {above below lower : List (Track brokerInterface World)}

theorem eq_of_seeks {proc : Proc} (seeker : seeks k proc) : ∃ q token, proc = .route q token ∧ q.call = k := by
  cases proc
  case route q token => exact ⟨q, token, rfl, of_decide_eq_true seeker⟩
  all_goals cases seeker

/-- Below one who seeks a way for a command are others who do and wait for him, and the call to execute it. -/
theorem executed (faithful : c.Faithful) (told : c.annals.Told begins)
    (split : c.tracks flow = above ++ u :: below) (seeker : seeks k u.proc) : ∃ mids x lower,
      below = mids ++ x :: lower ∧ executes k x.proc ∧ ∀ y ∈ mids, y.proc = u.proc := by
  induction below generalizing above u with
  | nil =>
    obtain ⟨q, token, proc, -⟩ := eq_of_seeks seeker
    have last : c.annals.tracks flow = above ++ [u] := split
    exact absurd proc (told.begun flow u (by simp [last]) q token)
  | cons x below ih =>
    obtain ⟨q, token, proc, call⟩ := eq_of_seeks seeker
    obtain ⟨next, leads⟩ := faithful.fits.called split
    obtain ⟨_, _, same, seeker⟩ := (leads.within (within_province x.proc)).1 (by rw [proc]; rfl)
    cases same.symm.trans proc
    rcases seeker with again | execute
    · have seeker : seeks k x.proc := by simp [again, seeks, call]
      have lies : c.tracks flow = (above ++ [u]) ++ x :: below := by simp [split]
      obtain ⟨mids, y, lower, rfl, executes, all⟩ := ih lies seeker
      have same : x.proc = u.proc := again.trans proc.symm
      exact ⟨x :: mids, y, lower, rfl, executes, List.forall_mem_cons.mpr ⟨same, fun z hz => (all z hz).trans same⟩⟩
    · exact ⟨[], x, below, rfl, by simp [execute, executes, call], by simp⟩

/-- Somebody waits for another one to find a way. -/
def Waits (flow : Nat) (q : Request) (token : Option Token) (t : Track brokerInterface World) : Prop :=
  ∃ next : Response → Code t.proc.Result,
    (body t.proc).Leads brokerMachine flow t.proc t.deeds (.call (.route q token) next)

theorem waits_of_called (faithful : c.Faithful) (split : c.tracks flow = above ++ u :: t :: below)
    (proc : u.proc = .route q token) : Waits flow q token t := by
  obtain ⟨_, ds⟩ := u
  cases proc
  exact faithful.fits.called split

/-- Those below one who seeks a way wait for others who seek the same. -/
theorem waits_below (faithful : c.Faithful) {mids rest : List (Track brokerInterface World)} {x : Track brokerInterface World}
    (split : c.tracks flow = above ++ u :: (mids ++ x :: rest)) (proc : u.proc = .route q token)
    (all : ∀ y ∈ mids, y.proc = .route q token) : (∀ y ∈ mids, Waits flow q token y) ∧ Waits flow q token x := by
  induction mids generalizing above u with
  | nil => exact ⟨by simp, waits_of_called faithful split proc⟩
  | cons y mids ih =>
    obtain ⟨mine, others⟩ := List.forall_mem_cons.mp all
    have lies : c.tracks flow = (above ++ [u]) ++ y :: (mids ++ x :: rest) := by simp [split]
    obtain ⟨waits, last⟩ := ih lies mine others
    exact ⟨List.forall_mem_cons.mpr ⟨waits_of_called faithful split proc, waits⟩, last⟩

section Top

variable (faithful : c.Faithful) (told : c.annals.Told begins) (sole : c.Sole (executes q.call))
  (top : c.tracks flow = ⟨.route q token, []⟩ :: lower)

include faithful told sole top

/-- While one begins to seek a way for a command, whoever seeks one for it or executes it waits for him. -/
theorem waits_of_track {id : Nat} (here : t ∈ c.tracks id) (kind : seeks q.call t.proc ∨ executes q.call t.proc) :
    t = ⟨.route q token, []⟩ ∨ id = flow ∧ Waits flow q token t := by
  have first : c.tracks flow = [] ++ ⟨.route q token, []⟩ :: lower := top
  obtain ⟨mids, x, rest, rfl, execute, all⟩ := executed faithful told first (k := q.call) (by simp [seeks])
  obtain ⟨waits, last⟩ := waits_below faithful first rfl all
  have split : c.tracks flow = (⟨.route q token, []⟩ :: mids) ++ x :: rest := top
  have there : x ∈ c.tracks flow := by simp [split]
  -- the only one who executes the command is `x`, and those who seek a way for it are above
  have only : ∀ id, ∀ y ∈ c.tracks id, executes q.call y.proc → id = flow ∧ y = x := fun id y hy execute' => by
    obtain rfl := sole.flow id flow y hy x there execute' execute
    refine ⟨rfl, ?_⟩
    rw [split] at hy
    by_contra other
    exact sole.track id _ x rest split execute y (by simpa [other] using hy) execute'
  rcases kind with seeker | executes
  · obtain ⟨above, below, split'⟩ := List.append_of_mem here
    obtain ⟨mids', x', rest', rfl, execute', -⟩ := executed faithful told split' seeker
    obtain ⟨rfl, -⟩ := only id x' (by simp [split']) execute'
    rw [split] at here
    rcases List.mem_append.mp here with high | low
    · exact (List.mem_cons.mp high).imp_right fun mid => ⟨rfl, waits t mid⟩
    · rcases List.mem_cons.mp low with rfl | deeper
      · obtain ⟨_, _, proc, -⟩ := eq_of_seeks seeker
        rw [proc] at execute
        cases execute
      · obtain ⟨upper, under, rfl⟩ := List.append_of_mem deeper
        have lies : c.tracks id = (⟨.route q token, []⟩ :: mids ++ x :: upper) ++ t :: under := by simp [top]
        obtain ⟨_, y, _, rfl, execute'', -⟩ := executed faithful told lies seeker
        exact absurd execute'' (sole.track id _ x _ split execute y (by simp))
  · obtain ⟨rfl, rfl⟩ := only id t here executes
    exact .inr ⟨rfl, last⟩

/-- Nor has anybody returned who sought a way for the command. -/
theorem not_returned : ∀ r ∈ c.returns, ¬seeks q.call r.proc := by
  have first : c.tracks flow = [] ++ ⟨.route q token, []⟩ :: lower := top
  obtain ⟨_, x, _, rfl, execute, -⟩ := executed faithful told first (k := q.call) (by simp [seeks])
  have there : x ∈ c.tracks flow := by simp [top]
  suffices none : ∀ later r older, c.returns = later ++ r :: older → ¬seeks q.call r.proc by
    intro r hr
    obtain ⟨later, older, split⟩ := List.append_of_mem hr
    exact none later r older split
  intro later
  induction hn : later.length using Nat.strong_induction_on generalizing later with
  | _ n ih =>
    intro r older split seeker
    obtain ⟨q', token', proc, call⟩ := eq_of_seeks seeker
    obtain ⟨id, proc', x', ds⟩ := r
    cases proc
    -- whoever has his result on record seeks a way for the same command or executes it
    have caller : ∀ {proc : Proc} {ds' : List (Deed brokerInterface World)} {p : Code proc.Result} {id : Nat},
        (body proc).Leads brokerMachine id proc ds' p → .call (.route q' token') x' ∈ ds' →
        seeks q.call proc ∨ executes q.call proc := fun leads called => by
      obtain ⟨_, _, same, kind⟩ := leads.stays (within_province _) _ called rfl
      cases same
      rcases kind with rfl | rfl
      · exact .inl (by simp [seeks, call])
      · exact .inr (by simp [executes, call])
    rcases told.told later _ older split with begun | ⟨t, ht, called⟩ | ⟨s, hs, -, called⟩
    · exact begun q' token' rfl
    · obtain ⟨p, leads⟩ := faithful.fits.leads ht
      rcases waits_of_track faithful told sole top ht (caller leads called) with rfl | ⟨rfl, next, leads⟩
      · cases called
      · exact unsought leads called
    · have hs' : s ∈ c.returns := split ▸ List.mem_append_left _ hs
      rcases caller (faithful.fits.returned s hs') called with seeker | executes
      · obtain ⟨first, second, rfl⟩ := List.append_of_mem hs
        refine ih first.length ?_ first rfl s (second ++ ⟨id, .route q' token', x', ds⟩ :: older) ?_ seeker
        · simp [← hn]
        · simp [split]
      · exact sole.returned s hs' executes flow x there execute

end Top

end Chains

/-! ## Who is turned away at a gate -/

/-- A gate was found closed. -/
def FindsShut (i : Nat) (a : Act brokerInterface World) : Prop :=
  ∃ id who ticket caller w u, a = ⟨id, who, .frames (.look i ticket caller), .exited, w, u⟩

/-- Somebody has returned whom a gate did not let in because it was closed. -/
def TurnedAway (i : Nat) (r : Return brokerInterface World) : Prop :=
  ∃ id ticket caller ds, r = ⟨id, .awaitLease i ticket caller, .error .frameExited, ds⟩

theorem closed_of_exited {g : Gate} {ticket : Nat} {caller : Gate.Caller} {cancelled first : Bool}
    (exited : (g.look ticket caller cancelled first).1 = .exited) : g.closed = true := by
  have taken : ∀ g : Gate, g.tryTake.1 = .exited → g.closed = true := fun g exited => by
    unfold Gate.tryTake at exited
    repeat' split at exited
    all_goals first | assumption | cases exited
  have enrolled : (g.enroll ticket caller).closed = g.closed := by
    unfold Gate.enroll
    split <;> rfl
  unfold Gate.look at exited
  split at exited
  · cases exited
  · split at exited
    · split at exited <;> cases exited
    · next took => exact enrolled ▸ taken _ ((congrArg Prod.fst took).trans exited)

theorem isShut_of_look {s t : FrameStack} {isCancelled : Option Token → Bool} {pick : Bool} {i ticket : Nat}
    {caller : Gate.Caller} (known : i < s.frames.length)
    (h : s.perform flow isCancelled pick (.look i ticket caller) = some (.exited, t)) : s.isShut i = true := by
  have found : s.get? i = some s.frames[i] := List.getElem?_eq_getElem known
  simp only [FrameStack.perform, found] at h
  split at h
  · have exited := congrArg Prod.fst (Option.some.inj h)
    simpa [FrameStack.isShut, found] using closed_of_exited exited
  · cases h

/-- Whoever is turned away found the gate closed, or one whom he called was turned away. -/
theorem comes_await {i ticket : Nat} {caller : Gate.Caller} {who : Proc} :
    (Leases.await i ticket caller).Comes brokerMachine flow who (fun ds r => r = .error .frameExited →
      ∃ a, ds = [.act a] ∧ FindsShut i a ∨
        ds = [.call (.awaitLease i ticket caller) (.error .frameExited), .act a]) [] := by
  rintro pick answer w u -
  cases answer with
  | exited => exact fun _ => ⟨_, .inl ⟨rfl, _, _, _, _, _, _, rfl⟩⟩
  | waiting =>
    intro r
    exact fun gone => ⟨_, .inr (by cases gone; rfl)⟩
  | granted | cancelled => rintro ⟨⟩

/-! ## In a run -/

theorem entered_executes (k : Nat) (h : List (Event brokerInterface)) :
    entered (headcount (executes k)) h = h.countP (Accounts.calls k) := by
  induction h with
  | nil => rfl
  | cons event h ih =>
    cases event with
    | entered proc =>
      rw [countP_cons_toNat, entered, ih, Nat.add_comm]
      cases proc <;> rfl
    | returned => exact ih

/-- What is true of a chronicle whatever has happened. -/
structure Sure (c : Chronicle) : Prop extends Kept c where
  orderly : c.Orderly
  heard : c.annals.Heard
  timed : c.annals.Timed
  told : c.annals.Told begins
  sole : ∀ k, c.Sole (executes k)
  honest : c.Always IsHonest
  tidy : c.Always fun w => w.frames.IsTidy
  swept : c.Swept

theorem begins_body (proc : Proc) : (body proc).Within ⟨fun _ => True, fun _ => True, begins⟩ := by
  refine (within_province proc).mono (S := proc.province) (fun _ _ => trivial) (fun _ _ => trivial) fun other starts => ?_
  rintro q token rfl
  obtain ⟨_, _, _, ⟨⟩, -⟩ := starts (by simp [Proc.isThread])

theorem sure_moves (settings : BrokerSettings) (endpoints : List (EngineName × Endpoint)) (main : EngineName)
    (host : Host) (ms : List Move) : Sure ((Chronicle.new settings endpoints main host).moves ms) := by
  have kept := Demolition.kept_moves settings endpoints main host ms
  have heard := Chronicle.heard_moves settings endpoints main host ms
  have sole : ∀ k, ((Chronicle.new settings endpoints main host).moves ms).Sole (executes k) := fun k => by
    obtain ⟨-, all, -, right⟩ := Accounts.keeps_moves settings endpoints main host ms
    have attended := Play.attended_moves settings endpoints main host ms
    refine Chronicle.sole_of_entered kept.toFaithful (by rw [Chronicle.play_moves]; exact attended)
      (Chronicle.returned_moves (headcount (executes k)) settings endpoints main host ms) ?_
    rw [entered_executes, Chronicle.play_moves]
    exact (Nat.le_add_right _ _).trans (right.counted.asked k)
  have always := Chronicle.moves_keep (c := .new settings endpoints main host) (P := fun c => Kept c ∧ c.annals.Heard ∧ c.Always IsHonest ∧
      (c.Always fun w => w.frames.IsTidy) ∧ c.Swept) (fun c mv => ?_) ?_ ms
  · obtain ⟨-, -, honest, tidy, swept⟩ := always
    exact { kept with
      orderly := Chronicle.orderly_moves settings endpoints main host ms
      heard := heard
      timed := Chronicle.timed_moves settings endpoints main host ms
      told := Chronicle.told_moves (by simp [begins]) begins_body settings endpoints main host ms
      sole := sole
      honest := honest
      tidy := tidy
      swept := swept }
  · rintro ⟨kept, heard, honest, tidy, swept⟩
    exact ⟨kept.move mv, Chronicle.heard_move kept.toFaithful heard mv, Chronicle.honest_move kept.toFaithful heard honest mv,
      Chronicle.tidy_move kept tidy mv, swept.move kept.toLawful mv⟩
  · refine ⟨Demolition.kept_moves settings endpoints main host [], Chronicle.heard_moves settings endpoints main host [],
      ⟨by simp [IsHonest, Chronicle.world, Chronicle.new, Play.new, World.new, Scenario.still], by rintro _ ⟨⟩⟩,
      ⟨fun i shut => ?_, by rintro _ ⟨⟩⟩, ⟨fun late a early log => by cases late <;> cases log⟩⟩
    have none : FrameStack.new.isShut i = false := by rcases i with _ | i <;> rfl
    cases none.symm.trans shut

namespace Sure

variable (sure : Sure c)

include sure

/-- Of what one has done, the one thing came before the other. -/
theorem later_of_sublist {late early : Act brokerInterface World} (order : [late, early].Sublist c.log) :
    early.after.frames.Later late.before.frames :=
  List.pairwise_iff_forall_sublist.mp sure.toLawful.between order

/-- Whoever was turned away at a gate, somebody found that gate closed after he had begun. -/
theorem found_shut {i : Nat} : ∀ r ∈ c.returns, TurnedAway i r →
    ∃ a, .act a ∈ r.deeds ∧ ∃ b ∈ c.log, FindsShut i b ∧ a.before.frames.Later b.before.frames := by
  refine sure.timed.returns.all fun r here called => ?_
  rintro ⟨id, ticket, caller, ds, rfl⟩
  have leads := sure.fits.returned _ here
  have logged : ∀ a, .act a ∈ ds → a ∈ c.log := fun a ha => sure.fits.mem_log_of_return here ha
  obtain ⟨a, ⟨rfl, shut⟩ | rfl⟩ := comes_await.leads leads rfl
  · have logged := logged a List.mem_cons_self
    exact ⟨a, List.mem_cons_self, a, logged, shut, .refl (sure.toLawful.sound_before logged).toRegular⟩
  · obtain ⟨ds', found, after⟩ := called [] _ _ [.act a] rfl
    obtain ⟨b, hb, last, there, shut, later⟩ := found ⟨id, ticket, caller, ds', rfl⟩
    have logged := logged a (by simp)
    obtain ⟨pick, performed⟩ := sure.toLawful.performed logged
    have step := (World.framesLater_perform performed (sure.toLawful.sound_before logged)).2
    have next := sure.later_of_sublist (after a List.mem_cons_self b hb)
    exact ⟨a, by simp, last, there, shut, step.trans (next.trans later)⟩

/-- What one sees who looks at the current frame. -/
theorem saw_current {who : Proc} {w u : World} (logged : ⟨flow, who, .frames .current, frame, w, u⟩ ∈ c.log) :
    frame = w.frames.ref frame.id ∧ frame.id = w.frames.currentId ∧ u.frames = w.frames ∧
      frame.id < w.frames.frames.length := by
  obtain ⟨pick, performed⟩ := sure.toLawful.performed logged
  have regular : w.frames.Regular := (sure.toLawful.sound_before logged).toRegular
  have seen : (w.frames.ref w.frames.currentId, w.frames) = (frame, u.frames) :=
    Option.some.inj (World.frames_step performed)
  obtain ⟨rfl, same⟩ := Prod.mk.inj seen
  rw [regular.ids]
  refine ⟨rfl, rfl, same.symm, regular.lt_of_live ?_⟩
  unfold FrameStack.currentId FrameStack.live
  cases w.frames.above <;> simp

/-- When one has learned that a frame went away, it is off the stack. -/
theorem departed {t : Track brokerInterface World} (here : t ∈ c.tracks flow) {late : List (Deed brokerInterface World)}
    {who : Proc} {w u : World} (deeds : t.deeds = late ++ [.act ⟨flow, who, .frames .current, frame, w, u⟩])
    (refused : ∃ d ∈ late, Refusal frame d) : 0 < frame.id ∧ frame.id ∉ c.world.frames.above := by
  have lawful := sure.toLawful
  have logged : ∀ a, .act a ∈ t.deeds → a ∈ c.log := fun a ha => sure.fits.mem_log_of_track here ha
  have looked := logged ⟨flow, who, .frames .current, frame, w, u⟩ (by simp [deeds])
  obtain ⟨ref, -, same, known⟩ := sure.saw_current looked
  rw [← same] at ref known
  -- it is enough that the frame was off the stack when somebody acted later
  have gone : ∀ b ∈ c.log, u.frames.Later b.before.frames → frame.id ∉ b.before.frames.above →
      frame.id ∉ c.world.frames.above := fun b hb later =>
    (lawful.since_before hb).off (known.trans_le later.length)
  obtain ⟨d, hd, refusal⟩ := refused
  cases refusal with
  | @finished a boxed awaits =>
    have done : .act a ∈ t.deeds := deeds ▸ List.mem_append_left _ hd
    have later : u.frames.Later a.before.frames := by
      have inTurn := sure.orderly.tracks flow t here
      rw [deeds, Chronicle.InTurn, List.filterMap_append] at inTurn
      exact (List.pairwise_append.mp inTurn).2.2 a (List.mem_filterMap.mpr ⟨_, hd, rfl⟩) _ List.mem_cons_self
    have pos : 0 < frame.id :=
      ((lawful.sound_before looked).range _ (Prompts.above_of_current lawful looked boxed)).1
    refine ⟨pos, gone a (logged a done) later (sure.off_of_awaits (logged a done) awaits ?_)⟩
    rw [later.refs _ known, ← ref]
    exact boxed
  | @closed ticket caller =>
    obtain ⟨last, first, rfl⟩ := List.append_of_mem hd
    have split : t.deeds = last ++ .call (.awaitLease frame.id ticket caller) (.error .frameExited) ::
        (first ++ [.act ⟨flow, who, .frames .current, frame, w, u⟩]) := by simpa using deeds
    obtain ⟨ds', back, after⟩ := (sure.timed.tracks flow t here).result split
    obtain ⟨a, ha, b, hb, shut, later⟩ := sure.found_shut _ back ⟨_, _, _, _, rfl⟩
    have later : u.frames.Later b.before.frames :=
      (sure.later_of_sublist (after _ (List.mem_append_right _ List.mem_cons_self) a ha)).trans later
    have closed : b.before.frames.isShut frame.id = true := by
      obtain ⟨id, who', ticket', caller', w', u', rfl⟩ := shut
      obtain ⟨pick, performed⟩ := lawful.performed hb
      exact isShut_of_look (known.trans_le later.length) (World.frames_step performed)
    obtain ⟨pos, off⟩ := sure.tidy.before b hb _ closed
    exact ⟨pos, gone b hb later off⟩
  | ran =>
    have called := deeds ▸ List.mem_append_left _ hd
    exact absurd rfl (sure.ne_of_run (sure.heard.tracks flow t here) called)
  | @promised id who' p w' u' =>
    have done := logged ⟨id, who', .broker (.awaitPromise p), some (.response (.error .frameExited)), w', u'⟩
      (deeds ▸ List.mem_append_left _ hd)
    obtain ⟨pick, performed⟩ := lawful.performed done
    simp only [World.perform, World.performBroker] at performed
    split at performed <;> cases performed
    next kept => exact absurd kept (sure.honest.before _ done p)

end Sure

theorem tries?_eq_some {k i : Nat} {a : Act brokerInterface World} : tries? k a = some i ↔ ∃ id q token frame w u,
    a = ⟨id, .route q token, .frames .current, frame, w, u⟩ ∧ q.call = k ∧ FrameRef.id frame = i := by
  constructor
  · intro tries
    unfold tries? at tries
    split at tries
    · split at tries
      · next same => exact ⟨_, _, _, _, _, _, rfl, same, Option.some.inj tries⟩
      · cases tries
    · cases tries
  · rintro ⟨id, q, token, frame, w, u, rfl, rfl, rfl⟩
    exact if_pos rfl

/-- Programs that do not look at the current frame themselves. -/
def unlooking : Scope brokerInterface := ⟨fun a => a ≠ .frames .current, fun _ => True, fun _ => True⟩

@[local simp] theorem unlooking_acts {a : Action} : unlooking.acts a ↔ a ≠ .frames .current := Iff.rfl
@[local simp] theorem unlooking_calls (p : Proc) : unlooking.calls p := trivial
@[local simp] theorem unlooking_starts (p : Proc) : unlooking.starts p := trivial

/-- Whoever is about to look at the current frame to seek a way has done nothing yet. -/
theorem leads_current {next : FrameRef → Code Response}
    (leads : (Routing.route q token).Leads brokerMachine flow (.route q token) ds (.act (.frames .current) next)) :
    ds = [] := by
  rcases leads.of_perform with rfl | ⟨frame, w, u, late, rfl, rest⟩
  · rfl
  · have away : ∀ {α : Type} {p : Code α}, p.Within onward → p.Within unlooking := fun h =>
      h.mono (S := onward) (fun _ h => h) (fun _ _ => trivial) fun _ _ => trivial
    refine absurd rfl (rest.within (Program.within_bind (away (onward_surroundings frame)) fun around => ?_)).1
    refine Program.within_bind (away (onward_attempt ..)) fun r => ?_
    split
    · refine Program.within_bind (by simp) fun phase => ?_
      split <;> simp
    · trivial

/-- When another attempt is made to run the command of a call, the frames of all attempts before are off the stack. -/
theorem Sure.tried (sure : Sure c) {mv : Move} {a b : Act brokerInterface World} {k i j : Nat}
    (log : (c.move mv).log = a :: c.log) (tries : tries? k a = some i) (logged : b ∈ c.log)
    (tried : tries? k b = some j) : 0 < j ∧ j ∉ c.world.frames.above := by
  obtain ⟨flow, q, token, frame, w, u, rfl, rfl, rfl⟩ := tries?_eq_some.mp tries
  obtain ⟨id, q', token', frame', w', u', rfl, call, rfl⟩ := tries?_eq_some.mp tried
  obtain ⟨next, wait, hf⟩ := Chronicle.find_of_log log
  obtain ⟨ds, lower, top, leads, -⟩ := sure.fits.tracked_of_find hf
  obtain rfl := leads_current leads
  have seeker : seeks q.call (.route q' token') := by simp [seeks, call]
  rcases sure.fits.mem_of_log logged with ⟨r, hr, -, proc, -⟩ | ⟨t, ht, proc, done⟩
  · exact absurd (proc ▸ seeker) (not_returned sure.toFaithful sure.told (sure.sole _) top r hr)
  · obtain ⟨_, ds⟩ := t
    cases proc
    rcases waits_of_track sure.toFaithful sure.told (sure.sole _) top ht (.inl seeker) with same | ⟨rfl, next, leads⟩
    · cases same
      cases done
    · obtain ⟨frame, w, u, late, rfl, stays, refused⟩ := leads_route leads rfl
      rcases List.mem_append.mp done with inside | mine
      · exact absurd rfl (stays _ inside)
      · cases List.mem_singleton.mp mine
        exact sure.departed ht rfl refused

theorem currentId_mem {s : FrameStack} (pos : 0 < s.currentId) : s.currentId ∈ s.above := by
  unfold FrameStack.currentId at pos ⊢
  generalize s.above = above at pos ⊢
  cases above with
  | nil => exact absurd pos (lt_irrefl 0)
  | cons i rest => exact List.mem_cons_self

theorem split_of_sublist {α : Type} {x y : α} {l : List α} (order : [x, y].Sublist l) :
    ∃ first mid last, l = first ++ x :: (mid ++ y :: last) := by
  obtain ⟨upper, lower, rfl, hx, hy⟩ := List.cons_sublist_iff.mp order
  obtain ⟨first, mid, rfl⟩ := List.append_of_mem hx
  obtain ⟨between, last, rfl⟩ := List.append_of_mem (List.singleton_sublist.mp hy)
  exact ⟨first, mid ++ between, last, by simp⟩

/-- Of two attempts to run the command of a call, the later one is made on another frame, and the frame of the earlier
one has been taken off the stack in between. -/
theorem apart_moves (settings : BrokerSettings) (endpoints : List (EngineName × Endpoint)) (main : EngineName)
    (host : Host) (ms : List Move) {k i j : Nat} {rest mid older : List (Act brokerInterface World)}
    {late early : Act brokerInterface World}
    (log : ((Chronicle.new settings endpoints main host).moves ms).log = rest ++ late :: (mid ++ early :: older))
    (tries : tries? k late = some i) (tried : tries? k early = some j) :
    i ≠ j ∧ j ∉ late.before.frames.above ∧ j ∈ mid.flatMap removed := by
  induction ms using List.reverseRecOn generalizing rest with
  | nil => cases rest <;> cases log
  | append_singleton ms mv ih =>
    have sure := sure_moves settings endpoints main host ms
    have next := sure_moves settings endpoints main host (ms ++ [mv])
    rw [Chronicle.moves_append] at log next
    generalize (Chronicle.new settings endpoints main host).moves ms = c at log ih sure next
    rcases c.log_move mv with ⟨same, -⟩ | ⟨a, pick, grown, before, -, -⟩
    · exact ih (same.symm.trans log)
    · rcases List.cons_eq_append_iff.mp (grown.symm.trans log) with ⟨rfl, same⟩ | ⟨rest', rfl, same⟩
      · obtain ⟨rfl, split⟩ := List.cons.inj same
        have logged : early ∈ c.log := split ▸ by simp
        obtain ⟨pos, off⟩ := sure.tried grown tries logged tried
        obtain ⟨_, _, _, _, w, _, rfl, -, rfl⟩ := tries?_eq_some.mp tries
        obtain ⟨_, _, _, other, w', u, rfl, -, rfl⟩ := tries?_eq_some.mp tried
        obtain rfl : w = c.world := before
        have looks := (next.saw_current (grown ▸ List.mem_cons_self)).2.1
        obtain ⟨-, looked, unchanged, -⟩ := sure.saw_current logged
        have there : other.id ∈ u.frames.above := by
          rw [unchanged, looked]
          exact currentId_mem (looked ▸ pos)
        refine ⟨fun same => off ?_, off, (sure.swept.left mid _ older split.symm _ there).resolve_left off⟩
        rw [← same, looks]
        exact currentId_mem (looks ▸ same ▸ pos)
      · exact ih same

/-- Every call to execute a command, of which there is one for each command, makes each further attempt on another frame
than those before, each of which has been taken off the stack in the meantime; so within any span of time it makes one
attempt more at most than frames are taken off the stack. -/
theorem attempts_progress (settings : BrokerSettings) (endpoints : List (EngineName × Endpoint)) (main : EngineName)
    (host : Host) (ms : List Move) (k : Nat) :
    let c := (Chronicle.new settings endpoints main host).moves ms
    c.play.history.countP (Accounts.calls k) ≤ 1 ∧
    (∀ rest late mid early older i j, c.log = rest ++ late :: (mid ++ early :: older) →
      tries? k late = some i → tries? k early = some j →
      i ≠ j ∧ j ∉ late.before.frames.above ∧ j ∈ mid.flatMap removed) ∧
    ∀ rest span older, c.log = rest ++ span ++ older →
      (span.filterMap (tries? k)).length ≤ 1 + (span.flatMap removed).length := by
  intro c
  have apart : ∀ rest late mid early older i j, c.log = rest ++ late :: (mid ++ early :: older) →
      tries? k late = some i → tries? k early = some j →
      i ≠ j ∧ j ∉ late.before.frames.above ∧ j ∈ mid.flatMap removed :=
    fun rest late mid early older i j => apart_moves settings endpoints main host ms
  refine ⟨?_, apart, fun rest span older log => ?_⟩
  · obtain ⟨-, all, -, right⟩ := Accounts.keeps_moves settings endpoints main host ms
    rw [Chronicle.play_moves]
    exact (Nat.le_add_right _ _).trans (right.counted.asked k)
  · rcases made : span.filterMap (tries? k) with _ | ⟨i, is⟩
    · exact Nat.zero_le _
    -- the last attempt may stand, the frames of all others are off the stack
    obtain ⟨fresh, late, span', rfl, -, tries, rfl⟩ := List.filterMap_eq_cons_iff.mp made
    have nodup : (span'.filterMap (tries? k)).Nodup := by
      refine List.pairwise_filterMap.mpr (List.pairwise_iff_forall_sublist.mpr fun order i tries j tried => ?_)
      obtain ⟨first, mid, last, rfl⟩ := split_of_sublist order
      exact (apart (rest ++ fresh ++ late :: first) _ mid _ (last ++ older) i j (by simp [log]) tries tried).1
    have gone : span'.filterMap (tries? k) ⊆ span'.flatMap removed := fun j among => by
      obtain ⟨early, inside, tried⟩ := List.mem_filterMap.mp among
      obtain ⟨mid, last, rfl⟩ := List.append_of_mem inside
      have left := (apart (rest ++ fresh) late mid early (last ++ older) i j (by simp [log]) tries tried).2.2
      simp [left]
    have fewer := (List.subperm_of_subset nodup gone).length_le
    simp only [List.length_cons, List.flatMap_append, List.flatMap_cons, List.length_append]
    omega

/-- A call whose frame is left before it runs makes a second attempt, on the frame below. -/
example : ((Chronicle.new .standard Accounts.answering "main" .new).moves Accounts.leftAndRetried).log.filterMap (tries? 0) =
    [0, 1] := by
  decide +kernel

end Attempts

end SessionBroker
