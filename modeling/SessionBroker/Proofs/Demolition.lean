import SessionBroker.Proofs.Exits
import SessionBroker.Proofs.Steady

/-!
# Frames that are torn down

Whoever takes frames off the stack tears them down next, one after the other, before he does anything
else, and nobody tears down a frame that he has not taken off. So a frame that is off the stack has been
torn down, or the flow that took it off is about to.
-/

namespace SessionBroker

namespace Demolition

/-- The frames that a procedure has taken off the stack and not torn down yet, and whether it has disposed
the mailbox of the first one. -/
structure Debris where
  frames : List Nat := []
  disposed : Bool := false

/-- What one remembers of an action. -/
def note : (action : Action) → action.Reply → Debris → Debris
  | .frames (.remove _), gone, _ => { frames := gone }
  | .frames (.dispose _), _, k => { k with disposed := true }
  | .frames (.closeGate _), _, k => { frames := k.frames.tail }
  | _, _, k => k

/-- When one may perform an action. -/
def may : Action → Debris → Prop
  | .frames (.dispose i), k => k.disposed = false ∧ k.frames.head? = some i
  | .frames (.closeGate i), k => k.disposed = true ∧ k.frames.head? = some i
  | _, k => k = {}

/-- Frames that were taken off are torn down in turn. -/
def lore : Lore brokerInterface World Debris where
  blank := {}
  note action r _ := note action r
  acts := may
  calls proc k := proc.IsEarnest ∧ k = {}
  starts proc k := proc.IsEarnest ∧ k = {}
  back _ k _ k' := k' = k

/-- A program that leaves no debris behind. -/
abbrev Tidies {α : Type} (p : Code α) : Prop := p.Minds lore brokerMachine (fun _ k => k = {}) {}

/-- Actions that neither take frames off nor tear them down. -/
def IsApart : Action → Prop
  | .frames (.remove _) | .frames (.dispose _) | .frames (.closeGate _) => False
  | _ => True

/-- What is done apart from that. -/
def apart : Scope brokerInterface := ⟨IsApart, Proc.IsEarnest, Proc.IsEarnest⟩

@[local simp] theorem apart_acts {a : Action} : apart.acts a ↔ IsApart a := Iff.rfl
@[local simp] theorem apart_calls {p : Proc} : apart.calls p ↔ p.IsEarnest := Iff.rfl
@[local simp] theorem apart_starts {p : Proc} : apart.starts p ↔ p.IsEarnest := Iff.rfl

attribute [local simp] IsApart

variable {α β : Type} {p : Code α} {f : α → Code β}

theorem within_apart (h : p.Within steadyScope) : p.Within apart := by
  refine Program.Within.mono (S := steadyScope) (fun a steady => ?_) (fun _ h => h.1) (fun _ h => h.1) h
  rcases a with _ | op | _ | _ | _ | _
  case frames => cases op <;> first | exact steady | trivial
  all_goals trivial

theorem tidies_apart (h : p.Within apart) : Tidies p := by
  refine h.minds (L := lore) (m := brokerMachine) (K := fun k => k = {}) ?acts ?calls ?starts rfl
  case acts =>
    rintro action _ off rfl
    rcases action with _ | op | _ | _ | _ | _
    case frames => cases op <;> first | exact off.elim | exact ⟨rfl, fun _ _ => rfl⟩
    all_goals exact ⟨rfl, fun _ _ => rfl⟩
  case calls => exact fun proc k earnest clean => ⟨⟨earnest, clean⟩, fun r k' same => same.trans clean⟩
  case starts => exact fun proc k earnest clean => ⟨earnest, clean⟩

theorem tidies_then (hp : Tidies p) (hf : ∀ a, Tidies (f a)) : Tidies (p >>= f) :=
  Program.Minds.bind hp fun a k clean => by
    subst clean
    exact hf a

/-! ## Who tears down -/

theorem minds_tearDown (gone : List Nat) :
    (Aborting.tearDown gone).Minds lore brokerMachine (fun _ k => k = {}) { frames := gone } := by
  induction gone with
  | nil => rfl
  | cons i rest ih => exact ⟨⟨rfl, rfl⟩, fun _ _ _ _ _ _ => ⟨⟨rfl, rfl⟩, fun _ _ _ _ _ _ => ih⟩⟩

theorem tidies_popFrame (i : Nat) : Tidies (Aborting.popFrame i) :=
  ⟨rfl, fun _ _ _ gone _ _ => minds_tearDown gone⟩

theorem tidies_leaveStop (frame : FrameRef) (action : ResumeAction) :
    Tidies (Debugging.leaveStop frame action) := by
  unfold Debugging.leaveStop
  refine tidies_then (tidies_apart (by simp)) fun _ => tidies_then (tidies_apart (by simp)) fun _ => ?_
  split
  · refine tidies_then (tidies_apart (within_apart (by simp))) fun session => ?_
    split
    · exact tidies_then (tidies_apart (within_apart (by simp))) fun _ => tidies_popFrame _
    · exact tidies_popFrame _
  · exact tidies_then (tidies_apart (by simp)) fun _ => tidies_popFrame _

theorem tidies_serviceStop (event : StopEvent) : Tidies (Debugging.serviceStop event) := by
  refine tidies_then (tidies_apart (by simp)) fun _ => tidies_then (tidies_apart (by simp)) fun attached => ?_
  refine tidies_then (tidies_apart (by simp)) fun _ => tidies_then (tidies_apart (by simp)) fun interrupted => ?_
  refine tidies_then (tidies_apart (by simp)) fun _ => ?_
  refine tidies_then (tidies_apart (within_apart (by simp))) fun session => ?_
  refine tidies_then (tidies_apart (by simp)) fun frame => tidies_then (tidies_apart (by simp)) fun settings => ?_
  refine tidies_then (tidies_apart (within_apart (by simp))) fun _ => ?_
  refine tidies_then (tidies_apart (within_apart (by simp))) fun _ => ?_
  refine tidies_then (tidies_apart (by simp)) fun exited => tidies_then (tidies_apart (by simp)) fun _ => ?_
  refine tidies_then (tidies_apart (by simp)) fun action => ?_
  exact tidies_then (tidies_leaveStop frame action) fun _ => rfl

theorem tidies_servicePrompt : Tidies Debugging.servicePrompt := by
  refine tidies_then (tidies_apart (within_apart (by simp))) fun session => ?_
  refine tidies_then (tidies_apart (by simp)) fun frame => tidies_then (tidies_apart (by simp)) fun _ => ?_
  exact tidies_popFrame _

theorem tidies_promptThread (frame : FrameRef) (promise : Nat) :
    Tidies (Debugging.promptThread frame promise) := by
  refine tidies_then (tidies_apart (by simp)) fun action => tidies_then (tidies_popFrame _) fun _ => ?_
  exact tidies_apart (by simp)

theorem within_enterPrompt : Debugging.enterPrompt.Within apart := by
  refine Program.within_bind (by simp) fun phase => ?_
  split
  · simp
  · exact Program.within_bind (within_apart (by simp)) fun session => by simp

theorem tidies_endFrames (frames : List FrameRef) : Tidies (Aborting.endFrames frames) := by
  induction frames with
  | nil => rfl
  | cons f rest ih =>
    unfold Aborting.endFrames
    split
    · refine tidies_then (tidies_apart (by simp)) fun _ => tidies_then (tidies_apart (by simp)) fun served => ?_
      split
      · exact tidies_then ih fun _ => rfl
      · exact tidies_then (tidies_popFrame _) fun _ => ih
    · exact ih

theorem tidies_dispose : Tidies Aborting.dispose := by
  refine tidies_then (tidies_apart (by simp)) fun phase => ?_
  split
  · rfl
  · refine tidies_then (tidies_apart (within_apart (by simp))) fun _ => ?_
    refine tidies_then (tidies_apart (by simp)) fun live => tidies_then (tidies_endFrames live) fun served => ?_
    refine tidies_then (tidies_apart (within_apart (by simp))) fun _ => tidies_apart ?_
    simp

/-- Whoever is under way leaves no debris behind. -/
theorem tidies_body {proc : Proc} (earnest : proc.IsEarnest) : Tidies (body proc) := by
  by_cases stir : proc.IsStir
  · cases proc
    case debuggerStopped hooks e event =>
      cases hooks with
      | plans => exact stir.elim
      | broker =>
        refine tidies_then (tidies_apart (by simp)) fun alive => ?_
        split
        · rfl
        · exact tidies_then (tidies_serviceStop event) fun action => tidies_apart (by simp)
    case nestedPromptEntered hooks e =>
      cases hooks with
      | plans => exact stir.elim
      | broker =>
        refine tidies_then (tidies_apart (by simp)) fun alive => ?_
        split
        · exact tidies_then tidies_servicePrompt fun _ => tidies_apart (by simp)
        · rfl
    case nestedPrompt frame promise => exact tidies_promptThread frame promise
    case dispose => exact tidies_dispose
    case messageLoop frame => exact tidies_apart (by simp [body, Routing.messageLoop])
    case serveNext frame =>
      exact tidies_apart (Program.within_bind (by simp) fun next => by cases next <;> simp)
    case serveClient name request =>
      cases request
      case enterNestedPrompt =>
        refine tidies_apart (Program.within_bind (by simp) fun _ => ?_)
        refine Program.within_bind (Program.within_bind within_enterPrompt fun r => by simp) fun report => ?_
        simp [Clients.holdsBroker]
      all_goals exact stir.elim
    all_goals first | exact stir.elim | exact earnest.elim
  · exact tidies_apart (within_apart (steady_body stir))

/-! ## The stack -/

section Stack

variable {s t : FrameStack} {flow : Nat} {isCancelled : Option Token → Bool} {pick : Bool} {op : FrameOp}
  {r : op.Reply} {held held' : Debris → Prop} {k : Debris}

/-- The frames off the stack are torn down, or they are the debris that is held somewhere; those on the stack
are neither. -/
structure Cleared (s : FrameStack) (held : Debris → Prop) : Prop where
  boxed : ∀ i, 0 < i → i < s.frames.length → (s.ref i).hasMailbox = true
  known : ∀ k, held k → ∀ i ∈ k.frames, 0 < i ∧ i < s.frames.length ∧ i ∉ s.above
  ended : ∀ i, s.isFinished i = true → i ∉ s.above
  half : ∀ k, held k → k.disposed = true → ∀ i, k.frames.head? = some i → s.isFinished i = true
  cleared : ∀ i, 0 < i → i < s.frames.length → i ∉ s.above →
    s.isTornDown i = true ∨ ∃ k, held k ∧ i ∈ k.frames

/-- It does not matter who holds nothing. -/
theorem Cleared.mono (cleared : Cleared s held) (old : ∀ k, held' k → held k ∨ k = {})
    (kept : ∀ k, held k → held' k ∨ k = {}) : Cleared s held' where
  boxed := cleared.boxed
  known k hk i hi := by
    rcases old k hk with hk | rfl
    · exact cleared.known k hk i hi
    · cases hi
  ended := cleared.ended
  half k hk disposed i hi := by
    rcases old k hk with hk | rfl
    · exact cleared.half k hk disposed i hi
    · cases hi
  cleared i known len off := by
    rcases cleared.cleared i known len off with down | ⟨k, hk, hi⟩
    · exact .inl down
    · rcases kept k hk with hk | rfl
      · exact .inr ⟨k, hk, hi⟩
      · cases hi

theorem push_perform {kind : FrameKind} {remote : Bool} {frame : FrameRef}
    (h : s.perform flow isCancelled pick (.push kind remote) = some (frame, t)) :
    frame = t.ref s.frames.length ∧ t = (s.push kind remote).2 := by
  cases h
  exact ⟨rfl, rfl⟩

theorem remove_perform {i : Nat} {gone : List Nat}
    (h : s.perform flow isCancelled pick (.remove i) = some (gone, t)) :
    gone = (s.remove i).1 ∧ t = (s.remove i).2 :=
  ⟨(congrArg Prod.fst (Option.some.inj h)).symm, (congrArg Prod.snd (Option.some.inj h)).symm⟩

/-- A frame that has been torn down stays so. -/
theorem isTornDown_later {i : Nat} (later : s.Later t) (down : s.isTornDown i = true) :
    t.isTornDown i = true := by
  obtain ⟨finished, shut⟩ := (Bool.and_eq_true _ _).mp down
  exact (Bool.and_eq_true _ _).mpr ⟨later.finished i finished, later.shut i shut⟩

theorem isShut_close {i : Nat} (known : i < s.frames.length) :
    (s.modifyGate i Gate.close).isShut i = true := by
  have found : s.get? i = some s.frames[i] := List.getElem?_eq_getElem known
  simp [FrameStack.isShut, FrameStack.modifyGate, FrameStack.get?_modify, found, Gate.close, Gate.shut,
    Gate.wakeThreads, Gate.wakeFutures, Gate.wake]

theorem isFinished_dispose {i : Nat} (sound : s.Sound) (boxed : (s.ref i).hasMailbox = true) {r : Unit}
    (h : s.perform flow isCancelled pick (.dispose i) = some (r, t)) : t.isFinished i = true := by
  obtain ⟨m, here⟩ := Option.isSome_iff_exists.mp (FrameStack.ref_hasMailbox.symm.trans boxed)
  rw [FrameStack.isFinished_eq, FrameStack.dispose_perform sound h, Function.update_self]
  simp [FrameStack.standing, here]

/-- Only who disposes a frame ends it. -/
theorem isFinished_perform {i : Nat} (h : s.perform flow isCancelled pick op = some (r, t))
    (finished : t.isFinished i = true) : s.isFinished i = true ∨ op = .dispose i := by
  by_cases dispose : ∃ j, op = .dispose j
  · obtain ⟨j, rfl⟩ := dispose
    by_cases mine : j = i
    · exact .inr (by rw [mine])
    · cases h
      have same : (s.modifyMailbox j Mailbox.dispose).mailbox? i = s.mailbox? i := by
        rw [FrameStack.mailbox?_modifyMailbox, if_neg (Ne.symm mine)]
      exact .inl (by simpa only [FrameStack.isFinished, same] using finished)
  · refine .inl ?_
    rw [FrameStack.isFinished_eq] at finished ⊢
    by_cases push : ∃ kind remote, op = .push kind remote
    · obtain ⟨kind, remote, rfl⟩ := push
      cases h
      obtain ⟨e, here, past⟩ := (Option.any_eq_true _ _).mp finished
      by_cases old : i < s.frames.length
      · have same : (s.push kind remote).2.standing i = s.standing i :=
          congrArg (Option.map Mailbox.standing) (FrameStack.mailbox?_push kind remote old)
        exact same ▸ finished
      · rw [FrameStack.standing_push kind remote (not_lt.mp old) here] at past
        cases past
    · by_cases tryExit : ∃ j y, op = .tryExit j y
      · obtain ⟨j, y, rfl⟩ := tryExit
        rcases FrameStack.tryExit_perform h with ⟨-, rfl⟩ | ⟨-, -, stands, -⟩
        · exact finished
        · rw [stands] at finished
          by_cases mine : i = j
          · subst mine
            rw [Function.update_self] at finished
            obtain ⟨e, here, past⟩ := (Option.any_eq_true _ _).mp finished
            obtain ⟨e', before, rfl⟩ := Option.map_eq_some_iff.mp here
            exact (Option.any_eq_true _ _).mpr ⟨e', before, past⟩
          · rwa [Function.update_of_ne mine] at finished
      · have stands := FrameStack.standing_perform (by simpa using push) (by simpa using tryExit)
          (by simpa using dispose) h
        rwa [stands] at finished

/-- One who holds some debris holds other debris then, and everybody else what he held. -/
structure Handover (held held' : Debris → Prop) (k k' : Debris) : Prop where
  mine : held k
  new : held' k'
  old : ∀ x, held' x → held x ∨ x = k'
  kept : ∀ x, held x → held' x ∨ x = k

/-- Debris changes hands properly if no frame gets lost. -/
theorem Cleared.handover {k' : Debris} (cleared : Cleared s held) (later : s.Later t)
    (hand : Handover held held' k k')
    (boxed : ∀ i, s.frames.length ≤ i → i < t.frames.length → (t.ref i).hasMailbox = true)
    (known : ∀ i ∈ k'.frames, i ∈ k.frames ∨ 0 < i ∧ i < s.frames.length ∧ i ∉ t.above)
    (ended : ∀ i, t.isFinished i = true → s.isFinished i = true ∨ i ∈ k.frames)
    (half : k'.disposed = true → ∀ i, k'.frames.head? = some i → t.isFinished i = true)
    (moved : ∀ i ∈ k.frames, t.isTornDown i = true ∨ i ∈ k'.frames)
    (left : ∀ i < t.frames.length, i ∉ t.above → i < s.frames.length ∧ i ∉ s.above ∨ i ∈ k'.frames) :
    Cleared t held' where
  boxed i pos len := by
    by_cases before : i < s.frames.length
    · rw [later.refs i before]
      exact cleared.boxed i pos before
    · exact boxed i (not_lt.mp before) len
  known x hx i hi := by
    have kept : ∀ x, held x → i ∈ x.frames → 0 < i ∧ i < s.frames.length ∧ i ∉ t.above := fun x hx hi =>
      have there := cleared.known x hx i hi
      ⟨there.1, there.2.1, later.off there.2.1 there.2.2⟩
    have here : 0 < i ∧ i < s.frames.length ∧ i ∉ t.above := by
      rcases hand.old x hx with hx | rfl
      · exact kept x hx hi
      · exact (known i hi).elim (kept k hand.mine) id
    exact ⟨here.1, here.2.1.trans_le later.length, here.2.2⟩
  ended i past := by
    rcases ended i past with before | mine
    · exact later.off (FrameStack.isFinished_lt before) (cleared.ended i before)
    · obtain ⟨-, len, off⟩ := cleared.known k hand.mine i mine
      exact later.off len off
  half x hx disposed i hi := by
    rcases hand.old x hx with hx | rfl
    · exact later.finished i (cleared.half x hx disposed i hi)
    · exact half disposed i hi
  cleared i pos len off := by
    rcases left i len off with ⟨len, off⟩ | mine
    · rcases cleared.cleared i pos len off with down | ⟨x, hx, hi⟩
      · exact .inl (isTornDown_later later down)
      · rcases hand.kept x hx with hx | rfl
        · exact .inr ⟨x, hx, hi⟩
        · exact (moved i hi).imp_right fun hi => ⟨k', hand.new, hi⟩
    · exact .inr ⟨k', hand.new, mine⟩

/-- Whoever neither pushes nor removes leaves on the stack what is there. -/
theorem left_stay (push : ∀ kind remote, op ≠ .push kind remote) (remove : ∀ j, op ≠ .remove j)
    (h : s.perform flow isCancelled pick op = some (r, t)) (k : Debris) :
    ∀ i < t.frames.length, i ∉ t.above → i < s.frames.length ∧ i ∉ s.above ∨ i ∈ k.frames := by
  rw [FrameStack.length_perform push h, FrameStack.above_perform push remove h]
  exact fun i len off => .inl ⟨len, off⟩

/-- There are new frames only after a push. -/
theorem boxed_stay (push : ∀ kind remote, op ≠ .push kind remote)
    (h : s.perform flow isCancelled pick op = some (r, t)) :
    ∀ i, s.frames.length ≤ i → i < t.frames.length → (t.ref i).hasMailbox = true := by
  rw [FrameStack.length_perform push h]
  exact fun i new len => absurd len (not_lt.mpr new)

theorem Cleared.push {kind : FrameKind} {remote : Bool} {frame : FrameRef} (cleared : Cleared s held)
    (sound : s.Sound) (hand : Handover held held' {} {}) (named : kind ≠ .topLevel)
    (h : s.perform flow isCancelled pick (.push kind remote) = some (frame, t)) : Cleared t held' := by
  have later := FrameStack.later_perform sound h
  obtain ⟨-, changed⟩ := push_perform h
  subst changed
  have length : (s.push kind remote).2.frames.length = s.frames.length + 1 := by simp [FrameStack.push]
  refine cleared.handover later hand (fun i new len => ?_) (by simp)
    (fun i past => .inl ((isFinished_perform h past).resolve_right (by simp))) (by simp) (by simp) fun i len off => ?_
  · rw [FrameStack.ref_push, if_pos (by omega)]
    simp [named]
  · have parts : i ≠ s.frames.length ∧ i ∉ s.above := by simpa [FrameStack.push] using off
    exact .inl ⟨by omega, parts.2⟩

theorem Cleared.remove {i : Nat} {gone : List Nat} (cleared : Cleared s held) (sound : s.Sound)
    (hand : Handover held held' {} { frames := gone })
    (h : s.perform flow isCancelled pick (.remove i) = some (gone, t)) : Cleared t held' := by
  have later := FrameStack.later_perform sound h
  have length := FrameStack.length_perform (by simp) h
  have parted : (∀ j ∈ gone, j ∈ s.above ∧ j ∉ t.above) ∧ ∀ j ∈ s.above, j ∉ t.above → j ∈ gone := by
    obtain ⟨rfl, rfl⟩ := remove_perform h
    by_cases here : i ∈ s.above
    · obtain ⟨upper, lower, split, new⟩ := List.eq_append_cons_of_mem here
      have nodup := sound.nodup
      rw [split] at nodup
      rw [FrameStack.remove_of_split split new]
      constructor
      · intro j gone
        refine ⟨by simp only [split, List.mem_append, List.mem_cons] at gone ⊢; tauto, fun low => ?_⟩
        rw [List.append_cons] at nodup
        exact List.disjoint_of_nodup_append nodup gone low
      · intro j
        simp only [split, List.mem_append, List.mem_cons]
        tauto
    · rw [FrameStack.remove_of_not_mem here]
      exact ⟨by simp, fun j was off => absurd was off⟩
  refine cleared.handover later hand (boxed_stay (by simp) h)
    (fun j hj => .inr ((and_assoc.mp ⟨sound.range j (parted.1 j hj).1, (parted.1 j hj).2⟩)))
    (fun j past => .inl ((isFinished_perform h past).resolve_right (by simp))) (by simp) (by simp) fun j len off => ?_
  by_cases was : j ∈ s.above
  · exact .inr (parted.2 j was off)
  · exact .inl ⟨length ▸ len, was⟩

theorem Cleared.dispose {i : Nat} {r : Unit} (cleared : Cleared s held) (sound : s.Sound)
    (hand : Handover held held' k { k with disposed := true }) (head : k.frames.head? = some i)
    (h : s.perform flow isCancelled pick (.dispose i) = some (r, t)) : Cleared t held' := by
  have later := FrameStack.later_perform sound h
  have mine := List.mem_of_mem_head? head
  have here := cleared.known k hand.mine i mine
  have finished : t.isFinished i = true := isFinished_dispose sound (cleared.boxed i here.1 here.2.1) h
  have ended : ∀ j, t.isFinished j = true → s.isFinished j = true ∨ j ∈ k.frames := fun j past =>
    (isFinished_perform h past).imp_right fun same => by cases same; exact mine
  refine cleared.handover later hand (boxed_stay (by simp) h) (fun j hj => .inl hj) ended (fun _ j hj => ?_)
    (fun j hj => .inr hj) (left_stay (by simp) (by simp) h _)
  obtain rfl : i = j := Option.some.inj (head.symm.trans hj)
  exact finished

theorem Cleared.closeGate {i : Nat} {r : Unit} (cleared : Cleared s held) (sound : s.Sound)
    (hand : Handover held held' k { frames := k.frames.tail }) (disposed : k.disposed = true)
    (head : k.frames.head? = some i)
    (h : s.perform flow isCancelled pick (.closeGate i) = some (r, t)) : Cleared t held' := by
  have later := FrameStack.later_perform sound h
  have frames : k.frames = i :: k.frames.tail := List.eq_cons_of_mem_head? head
  have down : t.isTornDown i = true := by
    refine (Bool.and_eq_true _ _).mpr ⟨later.finished i (cleared.half k hand.mine disposed i head), ?_⟩
    cases h
    exact isShut_close (cleared.known k hand.mine i (List.mem_of_mem_head? head)).2.1
  refine cleared.handover later hand (boxed_stay (by simp) h) (fun j hj => .inl (List.mem_of_mem_tail hj))
    (fun j past => .inl ((isFinished_perform h past).resolve_right (by simp))) (by simp) (fun j hj => ?_) (left_stay (by simp) (by simp) h _)
  rw [frames] at hj
  rcases List.mem_cons.mp hj with rfl | hj
  · exact .inl down
  · exact .inr hj

/-- Whatever one does on the frames who tears down in turn, no frame gets lost. -/
theorem Cleared.perform (cleared : Cleared s held) (sound : s.Sound)
    (hand : Handover held held' k (note (.frames op) r k)) (allowed : may (.frames op) k)
    (named : ∀ remote, op ≠ .push .topLevel remote)
    (h : s.perform flow isCancelled pick op = some (r, t)) : Cleared t held' := by
  cases op
  case push kind remote =>
    obtain rfl : k = {} := allowed
    exact cleared.push sound hand (fun top => named remote (by rw [top])) h
  case remove i =>
    obtain rfl : k = {} := allowed
    exact cleared.remove sound hand h
  case dispose i => exact cleared.dispose sound hand allowed.2 h
  case closeGate i => exact cleared.closeGate sound hand allowed.1 allowed.2 h
  all_goals
    obtain rfl : k = {} := allowed
    exact cleared.handover (FrameStack.later_perform sound h) hand (boxed_stay (by simp) h) (by simp [note])
      (fun j past => .inl ((isFinished_perform h past).resolve_right (by simp))) (by simp [note]) (by simp) (left_stay (by simp) (by simp) h _)

end Stack

/-! ## Those under way -/

/-- What a procedure under way has taken off the stack and not torn down. -/
def debris (t : Track brokerInterface World) : Debris := lore.remembered (fun _ _ k => k) t.deeds {}

/-- Some procedure under way holds this debris. -/
def Held (tracks : Nat → List (Track brokerInterface World)) (k : Debris) : Prop :=
  ∃ flow, ∃ t ∈ tracks flow, debris t = k

section Held

variable {tracks : Nat → List (Track brokerInterface World)} {ts : List (Track brokerInterface World)}
  {flow : Nat} {x : Debris}

theorem held_update (h : Held (Function.update tracks flow ts) x) :
    Held tracks x ∨ ∃ t ∈ ts, debris t = x := by
  obtain ⟨other, t, ht, same⟩ := h
  by_cases mine : other = flow
  · subst mine
    exact .inr ⟨t, by simpa using ht, same⟩
  · exact .inl ⟨other, t, by simpa [Function.update_of_ne mine] using ht, same⟩

theorem held_kept (flow : Nat) (ts : List (Track brokerInterface World)) (h : Held tracks x) :
    Held (Function.update tracks flow ts) x ∨ ∃ t ∈ tracks flow, debris t = x := by
  obtain ⟨other, t, ht, same⟩ := h
  by_cases mine : other = flow
  · exact .inr ⟨t, mine ▸ ht, same⟩
  · exact .inl ⟨other, t, by simpa [Function.update_of_ne mine] using ht, same⟩

theorem held_mem {t : Track brokerInterface World} (here : t ∈ ts) :
    Held (Function.update tracks flow ts) (debris t) :=
  ⟨flow, t, by simpa using here, rfl⟩

/-- One whose tracks change by procedures that hold nothing. -/
theorem Cleared.update {s : FrameStack} (cleared : Cleared s (Held tracks))
    (old : ∀ t ∈ ts, debris t = {} ∨ ∃ t' ∈ tracks flow, debris t' = debris t)
    (kept : ∀ t ∈ tracks flow, debris t = {} ∨ ∃ t' ∈ ts, debris t' = debris t) :
    Cleared s (Held (Function.update tracks flow ts)) := by
  refine cleared.mono (fun x hx => ?_) fun x hx => ?_
  · rcases held_update hx with hx | ⟨t, ht, rfl⟩
    · exact .inl hx
    · rcases old t ht with none | ⟨t', ht', same⟩
      · exact .inr none
      · exact .inl ⟨flow, t', ht', same⟩
  · rcases held_kept flow ts hx with hx | ⟨t, ht, rfl⟩
    · exact .inl hx
    · rcases kept t ht with none | ⟨t', ht', same⟩
      · exact .inr none
      · exact .inl (same ▸ held_mem ht')

end Held

variable {c : Chronicle}

/-- Of those under way, each minds that frames are torn down in turn. -/
theorem minds_leads {proc : Proc} (earnest : proc.IsEarnest) {flow : Nat} {ds : List (Deed brokerInterface World)}
    {q : Code proc.Result} (leads : (body proc).Leads brokerMachine flow proc ds q) :
    q.Minds lore brokerMachine (fun _ k => k = {}) (debris ⟨proc, ds⟩) :=
  (Lore.minds_leads (fun _ _ _ => rfl) (tidies_body earnest) leads).1

/-- Those who wait for a procedure hold no debris. -/
theorem debris_waiting {proc : Proc} {wait : Waiting brokerInterface proc} {flow : Nat}
    {ts : List (Track brokerInterface World)} (tracked : wait.Tracked brokerMachine flow ts)
    (earnest : ∀ t ∈ ts, Proc.IsEarnest t.proc) : ∀ t ∈ ts, debris t = {} := fun t here => by
  obtain ⟨callee, next, leads⟩ := tracked.waits here
  exact (minds_leads (earnest t here) leads).1.2

theorem earnest_of_earnest {proc : Proc} (earnest : proc.IsEarnest) :
    (body proc).Within ⟨fun _ => True, Proc.IsEarnest, Proc.IsEarnest⟩ :=
  Program.Within.mono (S := earnestScope) (fun _ _ => trivial) (fun _ h => h) (fun _ h => h) (earnest_body earnest)

theorem earnest_move (faithful : c.Faithful) (all : c.annals.All Proc.IsEarnest) (m : Move) :
    (c.move m).annals.All Proc.IsEarnest :=
  Chronicle.all_moves (fun _ _ => trivial) (fun _ => earnest_of_earnest) faithful all [m]

theorem earnest_moves (settings : BrokerSettings) (endpoints : List (EngineName × Endpoint))
    (main : EngineName) (host : Host) (ms : List Move) :
    ((Chronicle.new settings endpoints main host).moves ms).annals.All Proc.IsEarnest :=
  Chronicle.all_moves (fun _ _ => trivial) (fun _ => earnest_of_earnest) (Chronicle.faithful_new ..)
    ⟨by rintro _ _ ⟨⟩, by rintro _ ⟨⟩⟩ ms

/-- Whoever did something is no rehearsal. -/
theorem earnest_of_log (fits : c.annals.Fits brokerMachine c.play.config)
    (all : c.annals.All Proc.IsEarnest) {a : Act brokerInterface World} (logged : a ∈ c.log) :
    a.proc.IsEarnest := by
  rcases fits.mem_of_log logged with ⟨r, hr, -, same, -⟩ | ⟨t, ht, same, -⟩
  · exact same ▸ all.2 r hr
  · exact same ▸ all.1 _ t ht

theorem tracks_next (faithful : c.Faithful) : c.tracks c.play.config.next = [] :=
  faithful.fits.gone _ fun mem => by
    obtain ⟨p, hp, same⟩ := List.mem_map.mp mem
    exact (faithful.numbered.below p hp).ne same

theorem debris_modifyHead {d : Deed brokerInterface World} {ts : List (Track brokerInterface World)}
    (silent : d.act? = none) (none : ∀ t ∈ ts, debris t = {}) :
    ∀ t ∈ ts.modifyHead (·.note d), debris t = {} := by
  cases ts with
  | nil => exact none
  | cons t ts =>
    obtain ⟨mine, others⟩ := List.forall_mem_cons.mp none
    refine List.forall_mem_cons.mpr ⟨?_, others⟩
    cases d with
    | act a => cases silent
    | call | start => exact mine

/-- Whatever one does who tears down in turn, no frame gets lost. -/
theorem Cleared.act {tracks : Nat → List (Track brokerInterface World)} {flow : Nat} {pick : Bool} {proc : Proc}
    {ds : List (Deed brokerInterface World)} {lower : List (Track brokerInterface World)} {action : Action}
    {r : action.Reply} {w u : World} (cleared : Cleared w.frames (Held tracks)) (sound : w.frames.Sound)
    (here : tracks flow = ⟨proc, ds⟩ :: lower) (idle : ∀ t ∈ lower, debris t = {})
    (allowed : may action (debris ⟨proc, ds⟩)) (named : ∀ remote, action ≠ .frames (.push .topLevel remote))
    (hp : World.perform flow pick action w = some (r, u)) :
    Cleared u.frames
      (Held (Function.update tracks flow (⟨proc, .act ⟨flow, proc, action, r, w, u⟩ :: ds⟩ :: lower))) := by
  have was : ∀ t ∈ tracks flow, t = ⟨proc, ds⟩ ∨ t ∈ lower := fun t ht => by simpa [here] using ht
  by_cases frames : ∀ op, action ≠ .frames op
  · obtain ⟨none, same⟩ : debris ⟨proc, ds⟩ = {} ∧
        debris ⟨proc, .act ⟨flow, proc, action, r, w, u⟩ :: ds⟩ = debris ⟨proc, ds⟩ := by
      rcases action with _ | op | _ | _ | _ | _
      case frames => exact absurd rfl (frames op)
      all_goals exact ⟨allowed, rfl⟩
    rw [World.frames_perform frames hp]
    have all : ∀ t ∈ ⟨proc, .act ⟨flow, proc, action, r, w, u⟩ :: ds⟩ :: lower, debris t = {} :=
      List.forall_mem_cons.mpr ⟨same.trans none, idle⟩
    refine cleared.update (fun t ht => .inl (all t ht)) fun t ht => .inl ?_
    exact (was t ht).elim (fun same => same ▸ none) (idle t)
  · obtain ⟨op, rfl⟩ : ∃ op, action = .frames op := by simpa using frames
    have named : ∀ remote, op ≠ .push .topLevel remote := fun remote top => named remote (by rw [top])
    refine cleared.perform (k := debris ⟨proc, ds⟩) sound ⟨?_, ?_, fun x hx => ?_, fun x hx => ?_⟩ allowed named
      (World.frames_step hp)
    · exact ⟨flow, _, here ▸ List.mem_cons_self, rfl⟩
    · exact held_mem (t := ⟨proc, .act ⟨flow, proc, .frames op, r, w, u⟩ :: ds⟩) List.mem_cons_self
    · rcases held_update hx with hx | ⟨t, ht, rfl⟩
      · exact .inl hx
      · rcases List.mem_cons.mp ht with rfl | deeper
        · exact .inr rfl
        · exact .inl ⟨flow, t, here ▸ List.mem_cons_of_mem _ deeper, rfl⟩
    · rcases held_kept flow (⟨proc, .act ⟨flow, proc, .frames op, r, w, u⟩ :: ds⟩ :: lower) hx with
        hx | ⟨t, ht, rfl⟩
      · exact .inl hx
      · rcases was t ht with rfl | deeper
        · exact .inr rfl
        · exact .inl (held_mem (List.mem_cons_of_mem _ deeper))

/-- If the frames off the stack are torn down, or somebody is at it, it is so after a step. -/
theorem cleared_step (lawful : c.Lawful) (all : c.annals.All Proc.IsEarnest)
    (cleared : Cleared c.world.frames (Held c.tracks)) (flow : Nat) (pick : Bool) :
    Cleared (c.move (.step flow pick)).world.frames (Held (c.move (.step flow pick)).tracks) := by
  rcases hs : brokerMachine.step? c.play.config flow pick with _ | d
  · have stays : c.move (.step flow pick) = c := by
      simp only [Chronicle.move, Play.move, hs, Annals.step_of_none hs]
    rwa [stays]
  · have world : (c.move (.step flow pick)).world = d.shared := by
      simp only [Chronicle.world, Chronicle.move, Play.move, hs]
    have tracks : (c.move (.step flow pick)).tracks =
        (c.annals.step brokerMachine c.play.config flow pick).tracks := rfl
    obtain ⟨⟨proc, code, wait⟩, hf, hs⟩ := Option.bind_eq_some_iff.mp hs
    obtain ⟨ds, lower, here, leads, waiting⟩ := lawful.fits.tracked_of_find hf
    have here : c.tracks flow = ⟨proc, ds⟩ :: lower := here
    have earnest : ∀ t ∈ c.tracks flow, Proc.IsEarnest t.proc := all.1 flow
    obtain ⟨mine, others⟩ := List.forall_mem_cons.mp (here ▸ earnest)
    have minds := minds_leads mine leads
    have idle : ∀ t ∈ lower, debris t = {} := debris_waiting waiting others
    rw [world, tracks, Annals.step, hf]
    have whole : debris ⟨proc, ds⟩ = {} → ∀ t ∈ c.tracks flow, debris t = {} := fun none =>
      here ▸ List.forall_mem_cons.mpr ⟨none, idle⟩
    cases code with
    | done r =>
      have none := whole minds
      have same : d.shared = c.world := by cases wait <;> cases hs <;> rfl
      have left : (c.annals.tracks flow).tail = lower := congrArg List.tail here
      simp only [same, left]
      exact cleared.update (fun t ht => .inl (debris_modifyHead rfl idle t ht)) fun t ht => .inl (none t ht)
    | call callee next =>
      have none := whole minds.1.2
      cases hs
      have all : ∀ t ∈ ⟨callee, []⟩ :: c.tracks flow, debris t = {} := List.forall_mem_cons.mpr ⟨rfl, none⟩
      exact cleared.update (fun t ht => .inl (all t ht)) fun t ht => .inl (none t ht)
    | fork other next =>
      have none := whole minds.1.2
      cases hs
      have noted : Cleared c.world.frames
          (Held (Function.update c.tracks flow ((c.tracks flow).modifyHead (·.note (.start other))))) :=
        cleared.update (fun t ht => .inl (debris_modifyHead rfl none t ht)) fun t ht => .inl (none t ht)
      refine noted.update (by simp [debris, Lore.remembered, lore]) fun t ht => .inl ?_
      by_cases own : c.play.config.next = flow
      · rw [own, Function.update_self] at ht
        exact debris_modifyHead rfl none t ht
      · rw [Function.update_of_ne own, tracks_next lawful.toFaithful] at ht
        cases ht
    | act action next =>
      simp only [Machine.stepFlow] at hs
      rcases hp : brokerMachine.perform flow pick action c.play.config.shared with _ | ⟨r, u⟩
      · simp only [hp] at hs
        cases hs
      · have noted : (c.annals.tracks flow).modifyHead (·.note (.act ⟨flow, proc, action, r, c.world, u⟩)) =
            ⟨proc, .act ⟨flow, proc, action, r, c.world, u⟩ :: ds⟩ :: lower :=
          congrArg (List.modifyHead (·.note (.act ⟨flow, proc, action, r, c.world, u⟩))) here
        simp only [hp] at hs ⊢
        cases hs
        change Cleared u.frames (Held (Function.update c.tracks flow
          ((c.annals.tracks flow).modifyHead (·.note (.act ⟨flow, proc, action, r, c.world, u⟩)))))
        rw [noted]
        exact cleared.act lawful.sound here idle minds.1 (leads.within (earnest_body mine)).1 hp

theorem cleared_move (lawful : c.Lawful) (all : c.annals.All Proc.IsEarnest)
    (cleared : Cleared c.world.frames (Held c.tracks)) (m : Move) :
    Cleared (c.move m).world.frames (Held (c.move m).tracks) := by
  cases m with
  | arrive name request =>
    exact cleared.update (by simp [debris, Lore.remembered, lore]) (by simp [tracks_next lawful.toFaithful])
  | outside change =>
    have later := (change.framesLater_apply c.world lawful.sound).2
    obtain ⟨above, refs, length, stands, -⟩ := change.frames_apply c.world
    refine ⟨fun i pos len => ?_, fun k hk i hi => ?_, fun i past => ?_, fun k hk disposed i hi => ?_,
      fun i pos len off => ?_⟩
    · exact congrFun refs i ▸ cleared.boxed i pos (length ▸ len)
    · obtain ⟨pos, len, off⟩ := cleared.known k hk i hi
      exact ⟨pos, length.symm ▸ len, above.symm ▸ off⟩
    · rw [FrameStack.isFinished_eq] at past
      exact above.symm ▸ cleared.ended i (by rwa [FrameStack.isFinished_eq, ← stands])
    · exact later.finished i (cleared.half k hk disposed i hi)
    · exact (cleared.cleared i pos (length ▸ len) (above ▸ off)).imp_left (isTornDown_later later)
  | step flow pick => exact cleared_step lawful all cleared flow pick

/-- Who tears something down does so to frames that are there; those that have ended then are off the stack. -/
structure Effective (a : Act brokerInterface World) : Prop where
  ended : ∀ i, a.before.frames.isFinished i = true → i ∉ a.before.frames.above
  disposed : ∀ i, a.action = .frames (.dispose i) → a.after.frames.isFinished i = true
  closed : ∀ i, a.action = .frames (.closeGate i) → a.after.frames.isShut i = true

theorem effective_of_log (lawful : c.Lawful) (all : c.annals.All Proc.IsEarnest)
    (cleared : Cleared c.world.frames (Held c.tracks)) {m : Move} {a : Act brokerInterface World} {pick : Bool}
    (log : (c.move m).log = a :: c.log) (before : a.before = c.world)
    (performed : World.perform a.flow pick a.action a.before = some (a.reply, a.after)) : Effective a := by
  obtain ⟨next, wait, hf⟩ := Chronicle.find_of_log log
  obtain ⟨ds, lower, tracks, leads, -⟩ := lawful.fits.tracked_of_find hf
  have here : ⟨a.proc, ds⟩ ∈ c.tracks a.flow := by
    show _ ∈ c.annals.tracks a.flow
    exact tracks ▸ List.mem_cons_self
  have allowed := (minds_leads (all.1 a.flow _ here) leads).1
  have known := cleared.known _ ⟨_, _, here, rfl⟩
  have sound := lawful.sound
  obtain ⟨flow, proc, action, r, w, u⟩ := a
  obtain rfl : w = c.world := before
  refine ⟨cleared.ended, ?_, ?_⟩
  · rintro i rfl
    have there := known i (List.mem_of_mem_head? allowed.2)
    exact isFinished_dispose sound (cleared.boxed i there.1 there.2.1) (World.frames_step performed)
  · rintro i rfl
    have there := known i (List.mem_of_mem_head? allowed.2)
    have changed : u.frames = c.world.frames.modifyGate i Gate.close :=
      (congrArg Prod.snd (Option.some.inj (World.frames_step performed))).symm
    show u.frames.isShut i = true
    rw [changed]
    exact isShut_close there.2.1

/-- Whatever happens, the frames off the stack are torn down, or somebody is at it. -/
structure Kept (c : Chronicle) : Prop extends c.Lawful where
  all : c.annals.All Proc.IsEarnest
  cleared : Cleared c.world.frames (Held c.tracks)
  effective : ∀ a ∈ c.log, Effective a

theorem Kept.move (kept : Kept c) (m : Move) : Kept (c.move m) where
  toLawful := kept.toLawful.move m
  all := earnest_move kept.toFaithful kept.all m
  cleared := cleared_move kept.toLawful kept.all kept.cleared m
  effective := by
    rcases c.log_move m with ⟨log, -⟩ | ⟨a, pick, log, before, -, performed⟩
    · exact log ▸ kept.effective
    · rw [log]
      exact List.forall_mem_cons.mpr
        ⟨effective_of_log kept.toLawful kept.all kept.cleared log before performed, kept.effective⟩

theorem kept_moves (settings : BrokerSettings) (endpoints : List (EngineName × Endpoint))
    (main : EngineName) (host : Host) (ms : List Move) :
    Kept ((Chronicle.new settings endpoints main host).moves ms) := by
  refine Chronicle.moves_keep (fun c m kept => kept.move m)
    ⟨Chronicle.lawful_new .., earnest_moves settings endpoints main host [], ?_, by rintro _ ⟨⟩⟩ ms
  refine ⟨fun i pos len => ?_, by rintro _ ⟨_, _, ⟨⟩, _⟩, by rintro _ _ ⟨⟩, by rintro _ ⟨_, _, ⟨⟩, _⟩,
    fun i pos len => ?_⟩ <;>
  · have bottom : i < 1 := len
    omega

/-- The frames that an act takes off the stack. -/
def removed : Act brokerInterface World → List Nat
  | ⟨_, _, .frames (.remove _), gone, _, _⟩ => gone
  | _ => []

/-- Debris is what one has taken off oneself. -/
theorem removed_of_debris {ds : List (Deed brokerInterface World)} {proc : Proc} {i : Nat}
    (here : i ∈ (debris ⟨proc, ds⟩).frames) : ∃ a, .act a ∈ ds ∧ i ∈ removed a := by
  induction ds with
  | nil => cases here
  | cons d ds ih =>
    have old : i ∈ (debris ⟨proc, ds⟩).frames → ∃ a, .act a ∈ d :: ds ∧ i ∈ removed a := fun here =>
      have ⟨a, ha, gone⟩ := ih here
      ⟨a, List.mem_cons_of_mem d ha, gone⟩
    rcases d with ⟨flow, who, action, r, w, u⟩ | _ | _
    · rcases action with _ | op | _ | _ | _ | _
      case frames =>
        cases op
        case remove => exact ⟨_, List.mem_cons_self, here⟩
        case closeGate => exact old (List.mem_of_mem_tail here)
        all_goals exact old here
      all_goals exact old here
    · exact old here
    · exact old here

end Demolition

namespace Chronicle

variable (c : Chronicle)

/-- A flow tears frames down: that is its next step, and it has taken this one off the stack itself. -/
def TearsDown (flow i : Nat) : Prop :=
  (∃ j, c.play.action? (.step flow false) = some (.frames (.dispose j)) ∨
      c.play.action? (.step flow false) = some (.frames (.closeGate j))) ∧
    ∃ t ∈ (c.tracks flow).head?, ∃ a, .act a ∈ t.deeds ∧ i ∈ Demolition.removed a

/-- A frame is off the stack, and torn down unless those who took it off are at it. -/
def IsGone (i : Nat) : Prop :=
  i ∉ c.world.frames.above ∧ (c.world.frames.isTornDown i = true ∨ ∃ flow, c.TearsDown flow i)

end Chronicle

namespace Demolition

variable {c : Chronicle}

/-- Whoever holds debris tears it down next. -/
theorem tearsDown_of_held (kept : Kept c) {k : Debris} (held : Held c.tracks k) {i : Nat} (here : i ∈ k.frames) : ∃ flow, c.TearsDown flow i := by
  obtain ⟨flow, t, ht, rfl⟩ := held
  rcases hf : c.play.config.find? flow with _ | ⟨proc, code, wait⟩
  · have away : flow ∉ c.play.config.flows.map Prod.fst := fun mem => by
      obtain ⟨p, hp, rfl⟩ := List.mem_map.mp mem
      simpa using List.find?_eq_none.mp (Option.map_eq_none_iff.mp hf) p hp
    have ht : t ∈ c.annals.tracks flow := ht
    rw [kept.fits.gone flow away] at ht
    cases ht
  · obtain ⟨ds, lower, tracks, leads, waiting⟩ := kept.fits.tracked_of_find hf
    have tracks : c.tracks flow = ⟨proc, ds⟩ :: lower := tracks
    have earnest : ∀ t ∈ c.tracks flow, Proc.IsEarnest t.proc := kept.all.1 flow
    obtain ⟨mine, others⟩ := List.forall_mem_cons.mp (tracks ▸ earnest)
    rcases List.mem_cons.mp (tracks ▸ ht) with rfl | deeper
    · have minds := minds_leads mine leads
      have some : debris ⟨proc, ds⟩ ≠ {} := fun none => by simp [none] at here
      refine ⟨flow, ?_, ⟨proc, ds⟩, by simp [tracks], removed_of_debris here⟩
      simp only [Play.action?, hf, Option.bind_some]
      cases code with
      | done r => exact absurd minds some
      | call callee next => exact absurd minds.1.2 some
      | fork other next => exact absurd minds.1.2 some
      | act action next =>
        have allowed := minds.1
        rcases action with _ | op | _ | _ | _ | _
        case frames =>
          cases op
          case dispose j => exact ⟨j, .inl rfl⟩
          case closeGate j => exact ⟨j, .inr rfl⟩
          all_goals exact absurd allowed some
        all_goals exact absurd allowed some
    · rw [debris_waiting waiting others t deeper] at here
      cases here

/-- A frame that is off the stack is torn down, or somebody is at it. -/
theorem Kept.isGone (kept : Kept c) {i : Nat} (pos : 0 < i) (known : i < c.world.frames.frames.length)
    (off : i ∉ c.world.frames.above) : c.IsGone i := by
  refine ⟨off, (kept.cleared.cleared i pos known off).imp_right ?_⟩
  rintro ⟨k, held, here⟩
  exact tearsDown_of_held kept held here

/-- At any time every frame but the bottom has a mailbox. -/
theorem Kept.boxed_before (kept : Kept c) {i : Nat} {a : Act brokerInterface World} (logged : a ∈ c.log)
    (pos : 0 < i) (known : i < a.before.frames.frames.length) : (a.before.frames.ref i).hasMailbox = true := by
  have later := kept.toLawful.since_before logged
  rw [← later.refs i known]
  exact kept.cleared.boxed i pos (known.trans_le later.length)

/-- When one has waited for the end of a frame that has a mailbox, it has ended. -/
theorem isFinished_of_awaits {s t : FrameStack} {flow i : Nat} {isCancelled : Option Token → Bool} {pick : Bool} {r : Unit}
    (boxed : (s.ref i).hasMailbox = true) (h : s.perform flow isCancelled pick (.awaitFinish i) = some (r, t)) :
    s.isFinished i = true := by
  obtain ⟨m, here⟩ := Option.isSome_iff_exists.mp (FrameStack.ref_hasMailbox.symm.trans boxed)
  simp only [FrameStack.perform, here] at h
  split at h
  · next finished => simpa [FrameStack.isFinished, here] using finished
  · cases h

/-- When one has waited for the end of a frame, it is off the stack. -/
theorem Kept.off_of_awaits (kept : Kept c) {i : Nat} {a : Act brokerInterface World} (logged : a ∈ c.log)
    (awaits : a.action = .frames (.awaitFinish i)) (boxed : (a.before.frames.ref i).hasMailbox = true) :
    i ∉ a.before.frames.above := by
  refine (kept.effective a logged).ended i ?_
  obtain ⟨pick, performed⟩ := kept.toLawful.performed logged
  obtain ⟨flow, proc, action, r, w, u⟩ := a
  obtain rfl : action = .frames (.awaitFinish i) := awaits
  exact isFinished_of_awaits boxed (World.frames_step performed)

end Demolition

end SessionBroker
