import Mathlib.Data.List.Nodup
import SessionBroker.Proofs.Demolition
import SessionBroker.Proofs.Post

/-!
# Frames that leave the stack

Frames come to the stack one at a time, and leave it one at a time or with all that lies above them. What
leaves is torn down, the top one first, so that a frame is on the stack as long as it stands.

Here a removal is one step with the tearing down. What flows do in between is NOT covered.
-/

namespace SessionBroker

/-! ## One frame -/

namespace Mailbox

variable {ρ α : Type} {m n : Mailbox ρ α} {id : Nat} {request : ρ}

/-- The mailbox of a frame that was torn down. -/
structure Ended (m : Mailbox ρ α) : Prop where
  finished : m.finished = true
  exit : m.exit.isSome = true
  slot : m.slot = none

instance : Decidable m.Ended :=
  decidable_of_iff (m.finished = true ∧ m.exit.isSome = true ∧ m.slot.isNone = true)
    ⟨fun h => ⟨h.1, h.2.1, Option.isNone_iff_eq_none.mp h.2.2⟩,
      fun h => ⟨h.finished, h.exit, Option.isNone_iff_eq_none.mpr h.slot⟩⟩

@[simp] theorem slot_passTurn : m.passTurn.slot = m.slot := by
  unfold passTurn
  split <;> rfl

@[simp] theorem slot_drop : (m.drop id).slot = m.slot := by
  simp only [drop]
  split
  · exact slot_passTurn
  · rfl

theorem ended_dispose (ended : m.closed = true → m.Ended) : m.dispose.Ended := by
  rcases closed : m.closed with _ | _
  · have stands := standing_dispose closed
    obtain ⟨slot, exit, -⟩ := dispose_effect closed
    exact ⟨congrArg (·.2.2) stands, by rw [exit]; rfl, slot⟩
  · rw [dispose, if_pos closed]
    exact ended closed

theorem isOver_of_closed (closed : m.closed = true) : m.isOver = true := by
  rw [isOver, closed, Bool.or_true]

theorem ask_of_closed (closed : m.closed = true) : (m.ask id request).2 = m := by
  rw [ask, if_pos (isOver_of_closed closed)]

theorem slot_look_of_closed (closed : m.closed = true) : (m.look id).2.slot = m.slot := by
  unfold look
  split
  · rfl
  · split
    · exact slot_drop
    · rw [if_pos (isOver_of_closed closed)]
      exact slot_drop
    · rfl

theorem slot_take_of_closed {next : Next ρ} (closed : m.closed = true)
    (taken : m.take? = some (next, n)) : n.slot = m.slot := by
  unfold take? at taken
  split at taken
  · cases taken
    rfl
  · rw [if_pos closed] at taken
    cases taken
    rfl

theorem tryExit_of_closed {action : ResumeAction} (closed : m.closed = true) :
    (m.tryExit action).2 = m := by
  rw [tryExit, if_pos (isOver_of_closed closed)]

/-- Whoever asked for what is in the slot is told that the frame went away. -/
theorem look_dispose (opened : m.closed = false) (slot : m.slot = some (id, request)) :
    m.dispose.mayLook id ∧ (m.dispose.look id).1 = some .refused := by
  have told : ∀ c ∈ m.dispose.callers, c.id = id → c.stage = .answered .refused ∧ c.woken = true := by
    intro c here mine
    unfold dispose at here
    rw [if_neg (by simp [opened]), slot] at here
    obtain ⟨b, hb, rfl⟩ := List.mem_map.mp here
    obtain ⟨a, ha, rfl⟩ := mem_modify.mp hb
    by_cases same : a.id = id
    · simp [same]
    · rw [if_neg same] at mine
      split at mine <;> exact absurd mine same
  constructor
  · rw [mayLook, List.all_eq_true]
    intro c here
    by_cases mine : c.id = id
    · simp [(told c here mine).2]
    · simp [mine]
  · rcases found : m.dispose.callers.find? (·.id = id) with _ | c
    · simp [look, found]
    · have mine : c.id = id := by simpa using List.find?_some found
      have stage := (told c (List.mem_of_find?_eq_some found) mine).1
      simp [look, found, stage]

end Mailbox

namespace Gate

variable {g : Gate} {id : Nat} {caller : Caller} {cancelled cancelFirst : Bool}

@[simp] theorem closed_close : g.close.closed = true := rfl

/-- Whoever comes to a closed gate is turned away, even if it is cancelled. -/
theorem look_of_closed (closed : g.closed = true) (new : ∀ w ∈ g.waiters, w.id ≠ id) :
    g.mayLook id ∧ (g.look id caller cancelled cancelFirst).1 = .exited := by
  constructor
  · rw [mayLook, List.all_eq_true]
    intro w here
    simp [new w here]
  · have away : g.waiters.any (·.id = id) = false := by
      rw [List.any_eq_false]
      intro w here
      simpa using new w here
    unfold look
    rw [away, Bool.and_false, if_neg Bool.false_ne_true, enroll, away, if_neg Bool.false_ne_true, tryTake,
      if_pos closed]

end Gate

namespace Frame

theorem eq_new_of_mailbox {id : Nat} {kind : FrameKind} {remote boxed : Bool}
    {m : Mailbox Request Response} (here : (Frame.new id kind remote boxed).mailbox = some m) :
    m = .new := by
  cases boxed with
  | false => cases here
  | true =>
    cases here
    rfl

/-- A frame that was torn down. -/
structure TornDown (f : Frame) : Prop where
  shut : f.gate.closed = true
  ended : ∀ m, f.mailbox = some m → m.Ended

instance (f : Frame) : Decidable f.TornDown :=
  decidable_of_iff (f.gate.closed = true ∧ ∀ m ∈ f.mailbox, m.Ended)
    ⟨fun h => ⟨h.1, h.2⟩, fun h => ⟨h.shut, h.ended⟩⟩

/-- A frame that nobody has begun to tear down. -/
structure Stands (f : Frame) : Prop where
  opened : f.gate.closed = false
  unfinished : ∀ m, f.mailbox = some m → m.finished = false

theorem Stands.not_tornDown {f : Frame} (stands : f.Stands) : ¬f.TornDown := by
  intro down
  have shut := down.shut
  rw [stands.opened] at shut
  cases shut

end Frame

/-! ## Stacks -/

/-- Steps by which no frame comes, leaves or is torn down. -/
def FrameOp.Serves : FrameOp → Prop
  | .push .. | .remove _ | .dispose _ | .closeGate _ => False
  | _ => True

namespace FrameStack

/-- Stacks that come about: frames are pushed, popped and served. -/
inductive Made : FrameStack → Prop where
  | new : Made .new
  | push {s : FrameStack} (kind : FrameKind) (remote : Bool) : Made s → Made (s.push kind remote).2
  | pop {s : FrameStack} : Made s → Made s.pop.2
  | popFrame {s : FrameStack} (id : Nat) : Made s → Made (s.popFrame id).2
  | serve {s t : FrameStack} {flow : Nat} {isCancelled : Option Token → Bool} {pick : Bool} {op : FrameOp}
    {r : op.Reply} : Made s → op.Serves → s.perform flow isCancelled pick op = some (r, t) → Made t

variable {s t : FrameStack} {i j id flow : Nat} {isCancelled : Option Token → Bool} {pick : Bool}
  {op : FrameOp} {r : op.Reply} {gone kept : List Nat}

/-! ### Tearing down -/

theorem tearDown_eq : s.tearDown i = (s.modifyMailbox i Mailbox.dispose).modifyGate i Gate.close := by
  simp only [tearDown, modifyMailbox, modifyGate, modify, List.modify_modify_eq]
  rfl

theorem Sound.tearDown (sound : s.Sound) (i : Nat) : (s.tearDown i).Sound := by
  have disposed : s.perform 0 (fun _ => false) false (.dispose i) =
      Option.some ((), s.modifyMailbox i Mailbox.dispose) := rfl
  have closed : (s.modifyMailbox i Mailbox.dispose).perform 0 (fun _ => false) false (.closeGate i) =
      Option.some ((), s.tearDown i) := by
    rw [tearDown_eq]
    rfl
  exact (sound.perform disposed).perform closed

theorem Sound.tearDowns (sound : s.Sound) (gone : List Nat) : (gone.foldl FrameStack.tearDown s).Sound := by
  induction gone generalizing s with
  | nil => exact sound
  | cons i rest ih => exact ih (sound.tearDown i)

@[simp] theorem above_tearDowns : (gone.foldl tearDown s).above = s.above := by
  induction gone generalizing s with
  | nil => rfl
  | cons i rest ih => exact ih

@[simp] theorem length_tearDowns : (gone.foldl tearDown s).frames.length = s.frames.length := by
  induction gone generalizing s with
  | nil => rfl
  | cons i rest ih =>
    rw [List.foldl_cons, ih]
    exact length_modify i _

@[simp] theorem ref_tearDowns : (gone.foldl tearDown s).ref = s.ref := by
  induction gone generalizing s with
  | nil => rfl
  | cons i rest ih =>
    rw [List.foldl_cons, ih]
    exact ref_modify fun fr => ⟨rfl, rfl, rfl, by simp [Frame.tearDown]⟩

/-- Of different frames each is torn down once, and no other frame is touched. -/
theorem get?_tearDowns (nodup : gone.Nodup) : (gone.foldl tearDown s).get? i =
    if i ∈ gone then (s.get? i).map Frame.tearDown else s.get? i := by
  induction gone generalizing s with
  | nil => rfl
  | cons j rest ih =>
    obtain ⟨new, nodup⟩ := List.nodup_cons.mp nodup
    rw [List.foldl_cons, ih nodup, tearDown, get?_modify]
    by_cases mine : j = i
    · subst mine
      simp [new]
    · simp only [if_neg mine, Option.map_id']
      simp [Ne.symm mine]

/-! ### Removing -/

theorem Regular.not_mem_zero (regular : s.Regular) : 0 ∉ s.above := by
  intro here
  exact absurd (regular.range 0 here).1 (Nat.lt_irrefl 0)

theorem Regular.lt_of_live (regular : s.Regular) (here : i ∈ s.live) : i < s.frames.length := by
  rcases List.mem_append.mp here with above | bottom
  · exact (regular.range i above).2
  · rw [List.mem_singleton.mp bottom]
    exact regular.some

theorem popFrame_of_not_mem (away : id ∉ s.above) : s.popFrame id = (false, s) := by
  rw [popFrame, remove_of_not_mem away]
  rfl

theorem popFrame_of_split (regular : s.Regular) (split : s.above = gone ++ id :: kept) :
    s.popFrame id = (true, (gone ++ [id]).foldl tearDown { s with above := kept }) := by
  have nodup := regular.nodup
  rw [split, List.nodup_middle, List.nodup_cons] at nodup
  have new : id ∉ gone := fun here => nodup.1 (List.mem_append_left kept here)
  rw [popFrame, remove_of_split split new]
  simp

/-- What has left is torn down, and nothing else is touched. -/
theorem get?_popFrame (regular : s.Regular) (split : s.above = gone ++ id :: kept) :
    (s.popFrame id).2.get? i =
      if i ∈ gone ++ [id] then (s.get? i).map Frame.tearDown else s.get? i := by
  have nodup : (gone ++ [id]).Nodup := by
    have front : s.above = (gone ++ [id]) ++ kept := by simp [split]
    have nodup := regular.nodup
    rw [front] at nodup
    exact (List.nodup_append.mp nodup).1
  rw [popFrame_of_split regular split]
  exact get?_tearDowns nodup

/-! ### What stays true -/

/-- A sound stack on which what is there stands, and of which what is gone was torn down. -/
structure Upright (s : FrameStack) : Prop extends s.Sound where
  upward : s.above.Pairwise fun upper lower =>
    (s.ref lower).hasMailbox = true → (s.ref upper).hasMailbox = true
  stands : ∀ i ∈ s.live, s.isShut i = false ∧ s.isFinished i = false
  gone : ∀ i < s.frames.length, i ∉ s.live → s.isShut i = true ∧
    ∀ m, s.mailbox? i = Option.some m → m.finished = true
  emptied : ∀ i m, s.mailbox? i = Option.some m → m.closed = true → m.slot = none

theorem upright_new : Upright new where
  toSound := sound_new
  upward := .nil
  stands i here := by
    obtain rfl : i = 0 := by simpa [live, new] using here
    exact ⟨rfl, rfl⟩
  gone i known off := by
    obtain rfl : i = 0 := by simpa [new] using known
    exact absurd (List.mem_singleton_self 0) off
  emptied i m here := by
    have none : new.mailbox? i = none := by rcases i with _ | i <;> rfl
    rw [none] at here
    cases here

theorem get?_push (kind : FrameKind) (remote : Bool) : (s.push kind remote).2.get? i =
    if i = s.frames.length then
      some (.new i kind remote (kind ≠ .topLevel || s.live.any fun j => (s.mailbox? j).isSome))
    else s.get? i := by
  simp only [get?, push]
  rcases Nat.lt_trichotomy i s.frames.length with before | rfl | behind
  · rw [List.getElem?_append_left before, if_neg before.ne]
  · rw [List.getElem?_append_right (Nat.le_refl _), Nat.sub_self, if_pos rfl]
    rfl
  · rw [List.getElem?_eq_none (by simp; omega), List.getElem?_eq_none behind.le, if_neg behind.ne']

theorem Upright.push (upright : s.Upright) (kind : FrameKind) (remote : Bool) :
    (s.push kind remote).2.Upright := by
  have lt {i : Nat} (here : i ∈ s.live) : i < s.frames.length := upright.toRegular.lt_of_live here
  have old {i : Nat} (known : i < s.frames.length) : (s.push kind remote).2.get? i = s.get? i := by
    rw [get?_push, if_neg known.ne]
  have live : (s.push kind remote).2.live = s.frames.length :: s.live := rfl
  have pushed : s.perform 0 (fun _ => false) false (.push kind remote) =
      Option.some ((s.push kind remote).2.ref s.frames.length, (s.push kind remote).2) := rfl
  refine ⟨upright.toSound.perform pushed, ?_, ?_, ?_, ?_⟩
  · refine List.pairwise_cons.mpr ⟨fun lower here has => ?_, ?_⟩
    · have known : lower < s.frames.length := (upright.range lower here).2
      rw [ref_push, if_neg known.ne, ref_hasMailbox] at has
      have some : s.live.any (fun j => (s.mailbox? j).isSome) = true :=
        List.any_eq_true.mpr ⟨lower, List.mem_append_left _ here, has⟩
      rw [ref_push, if_pos rfl, some, Bool.or_true]
    · refine upright.upward.imp_of_mem fun {upper lower} hu hl up => ?_
      rw [ref_push, ref_push, if_neg (upright.range upper hu).2.ne, if_neg (upright.range lower hl).2.ne]
      exact up
  · intro i here
    rw [live] at here
    rcases List.mem_cons.mp here with rfl | here
    · simp only [isShut, isFinished, mailbox?, get?_push, if_true, Option.any_some, Option.bind_some]
      refine ⟨rfl, ?_⟩
      rw [Option.any_eq_false]
      intro m here
      rw [Frame.eq_new_of_mailbox here]
      rfl
    · simp only [isShut, isFinished, mailbox?, old (lt here)]
      exact upright.stands i here
  · intro i known off
    rw [live, List.mem_cons, not_or] at off
    have before : i < s.frames.length := by
      have length : (s.push kind remote).2.frames.length = s.frames.length + 1 := by
        simp [FrameStack.push]
      omega
    simp only [isShut, mailbox?, old before]
    exact upright.gone i before off.2
  · intro i m here closed
    by_cases new : i = s.frames.length
    · rw [mailbox?, get?_push, if_pos new, Option.bind_some] at here
      rw [Frame.eq_new_of_mailbox here]
      rfl
    · rw [mailbox?, get?_push, if_neg new] at here
      exact upright.emptied i m here closed

/-- Where mailboxes are empty once they are closed, they are so after a change that leaves closed ones as
they are. -/
theorem emptied_modifyMailbox {f : Mailbox Request Response → Mailbox Request Response}
    (keeps : ∀ m, s.mailbox? i = some m → (f m).closed = true → m.closed = true ∧ (f m).slot = m.slot)
    (emptied : ∀ i m, s.mailbox? i = some m → m.closed = true → m.slot = none) :
    ∀ j m, (s.modifyMailbox i f).mailbox? j = some m → m.closed = true → m.slot = none := by
  intro j m here closed
  rw [mailbox?_modifyMailbox] at here
  split at here
  · next mine =>
    subst mine
    obtain ⟨n, there, rfl⟩ := Option.map_eq_some_iff.mp here
    obtain ⟨was, same⟩ := keeps n there closed
    rw [same]
    exact emptied j n there was
  · exact emptied j m here closed

/-- The mailbox of a frame that was torn down takes nothing in. -/
theorem emptied_serve (serves : op.Serves) (h : s.perform flow isCancelled pick op = some (r, t))
    (emptied : ∀ i m, s.mailbox? i = some m → m.closed = true → m.slot = none) :
    ∀ i m, t.mailbox? i = some m → m.closed = true → m.slot = none := by
  cases op
  case push | remove | dispose | closeGate => exact serves.elim
  case look =>
    simp only [perform] at h
    split at h
    · cases h
      exact emptied
    · split at h <;> cases h
      simpa only [mailbox?_modifyGate] using emptied
  case release =>
    cases h
    simpa only [mailbox?_modifyGate] using emptied
  case ask i ticket request =>
    simp only [perform] at h
    split at h <;> cases h
    · exact emptied
    · next m here =>
      refine emptied_modifyMailbox (fun n there closed => ?_) emptied
      obtain rfl : m = n := Option.some.inj (here.symm.trans there)
      have was : m.closed = true := by
        rw [← closed]
        exact (congrArg (·.2.1) (Mailbox.standing_ask (m := m) ticket request)).symm
      exact ⟨was, by rw [Mailbox.ask_of_closed was]⟩
  case lookMail i ticket =>
    simp only [perform] at h
    split at h
    · cases h
      exact emptied
    · next m here =>
      split at h <;> cases h
      refine emptied_modifyMailbox (fun n there closed => ?_) emptied
      obtain rfl : m = n := Option.some.inj (here.symm.trans there)
      have was : m.closed = true := by
        rw [← closed]
        exact (congrArg (·.2.1) (Mailbox.standing_look (m := m) ticket)).symm
      exact ⟨was, Mailbox.slot_look_of_closed was⟩
  case take i =>
    simp only [perform] at h
    split at h
    · cases h
      exact emptied
    · next m here =>
      obtain ⟨⟨next, m'⟩, taken, h⟩ := Option.map_eq_some_iff.mp h
      cases h
      refine emptied_modifyMailbox (fun n there closed => ?_) emptied
      obtain rfl : m = n := Option.some.inj (here.symm.trans there)
      have was : m.closed = true := by
        rw [← closed]
        exact (congrArg (·.2.1) (Mailbox.standing_take taken)).symm
      exact ⟨was, Mailbox.slot_take_of_closed was taken⟩
  case tryExit i action =>
    simp only [perform] at h
    split at h <;> cases h
    · exact emptied
    · next m here =>
      refine emptied_modifyMailbox (fun n there closed => ?_) emptied
      obtain rfl : m = n := Option.some.inj (here.symm.trans there)
      have was : m.closed = true := by
        unfold Mailbox.tryExit at closed
        split at closed <;> exact closed
      exact ⟨was, by rw [Mailbox.tryExit_of_closed was]⟩
  case attach | answer =>
    cases h
    exact emptied_modifyMailbox (fun n _ closed => ⟨closed, rfl⟩) emptied
  case awaitExit =>
    simp only [perform] at h
    split at h
    · cases h
      exact emptied
    · obtain ⟨_, -, h⟩ := Option.map_eq_some_iff.mp h
      cases h
      exact emptied
  case awaitFinish =>
    simp only [perform] at h
    split at h
    · cases h
      exact emptied
    · split at h <;> cases h
      exact emptied
  case current | live | hasExited | hasServer | isServer =>
    cases h
    exact emptied

theorem Upright.serve (upright : s.Upright) (serves : op.Serves)
    (h : s.perform flow isCancelled pick op = Option.some (r, t)) : t.Upright := by
  have push : ∀ kind remote, op ≠ .push kind remote := by
    rintro kind remote rfl
    exact serves
  have remove : ∀ i, op ≠ .remove i := by
    rintro i rfl
    exact serves
  have closeGate : ∀ i, op ≠ .closeGate i := by
    rintro i rfl
    exact serves
  have refs : t.ref = s.ref := ref_perform push h
  have live : t.live = s.live := by rw [FrameStack.live, above_perform push remove h, FrameStack.live]
  have shut : t.isShut = s.isShut := isShut_perform push closeGate h
  have later : s.Later t := later_perform upright.toSound h
  refine ⟨upright.toSound.perform h, ?_, ?_, ?_, emptied_serve serves h upright.emptied⟩
  · rw [above_perform push remove h, refs]
    exact upright.upward
  · intro i here
    rw [live] at here
    refine ⟨shut ▸ (upright.stands i here).1, ?_⟩
    rw [Bool.eq_false_iff]
    intro finished
    rcases Demolition.isFinished_perform h finished with before | rfl
    · rw [(upright.stands i here).2] at before
      cases before
    · exact serves
  · intro i known off
    rw [live] at off
    rw [length_perform push h] at known
    obtain ⟨was, ended⟩ := upright.gone i known off
    refine ⟨shut ▸ was, fun m here => ?_⟩
    have boxed : (s.mailbox? i).isSome := by
      rw [← ref_hasMailbox, ← refs, ref_hasMailbox, here]
      rfl
    obtain ⟨n, there⟩ := Option.isSome_iff_exists.mp boxed
    have before : s.isFinished i = true := by
      rw [isFinished, there]
      exact ended n there
    have finished := later.finished i before
    rw [isFinished, here] at finished
    exact finished

theorem Upright.ended_of_closed {m : Mailbox Request Response} (upright : s.Upright)
    (here : s.mailbox? i = Option.some m) (closed : m.closed = true) : m.Ended := by
  have stands : s.standing i = Option.some m.standing := by rw [standing, here, Option.map_some]
  obtain ⟨both, exit⟩ := upright.toSound.ended i m.standing stands
  exact ⟨both.symm.trans closed, exit closed, upright.emptied i m here closed⟩

theorem Upright.tornDown_tearDown {f : Frame} (upright : s.Upright) (here : s.get? i = Option.some f) :
    f.tearDown.TornDown := by
  refine ⟨rfl, fun m boxed => ?_⟩
  obtain ⟨n, there, rfl⟩ := Option.map_eq_some_iff.mp boxed
  have found : s.mailbox? i = Option.some n := by rw [mailbox?, here, Option.bind_some, there]
  exact Mailbox.ended_dispose (upright.ended_of_closed found)

theorem Upright.popFrame (upright : s.Upright) (id : Nat) : (s.popFrame id).2.Upright := by
  by_cases here : id ∈ s.above
  · obtain ⟨gone, kept, split⟩ := List.append_of_mem here
    have regular := upright.toRegular
    have frames {i : Nat} := get?_popFrame (i := i) regular split
    have popped := popFrame_of_split regular split
    have above : (s.popFrame id).2.above = kept := by rw [popped, above_tearDowns]
    have parted : s.live = (gone ++ [id]) ++ (kept ++ [0]) := by simp [FrameStack.live, split]
    have apart {i : Nat} (low : i ∈ kept ++ [0]) : i ∉ gone ++ [id] := by
      have nodup : s.live.Nodup := by
        rw [FrameStack.live, List.nodup_append_comm]
        exact List.nodup_cons.mpr ⟨regular.not_mem_zero, regular.nodup⟩
      rw [parted] at nodup
      exact fun high => List.disjoint_of_nodup_append nodup high low
    have refs : (s.popFrame id).2.ref = s.ref := by
      rw [popped, ref_tearDowns]
      rfl
    have length : (s.popFrame id).2.frames.length = s.frames.length := by
      rw [popped, length_tearDowns]
    have removed : s.perform 0 (fun _ => false) false (.remove id) = Option.some (s.remove id) := rfl
    refine ⟨?_, ?_, ?_, ?_, ?_⟩
    · have sound : (s.remove id).2.Sound := upright.toSound.perform removed
      exact sound.tearDowns (s.remove id).1
    · rw [above, refs]
      refine upright.upward.sublist ?_
      rw [split]
      exact (List.sublist_cons_self id kept).trans (List.sublist_append_right gone _)
    · intro i low
      rw [FrameStack.live, above] at low
      have same : (s.popFrame id).2.get? i = s.get? i := by rw [frames, if_neg (apart low)]
      simp only [isShut, isFinished, mailbox?, same]
      exact upright.stands i (by rw [parted]; exact List.mem_append_right _ low)
    · intro i known off
      rw [length] at known
      rw [FrameStack.live, above] at off
      by_cases high : i ∈ gone ++ [id]
      · have found : s.get? i = Option.some s.frames[i] := List.getElem?_eq_getElem known
        have down := upright.tornDown_tearDown found
        simp only [isShut, mailbox?, frames, if_pos high, found, Option.map_some, Option.any_some,
          Option.bind_some]
        exact ⟨down.shut, fun m boxed => (down.ended m boxed).finished⟩
      · simp only [isShut, mailbox?, frames, if_neg high]
        refine upright.gone i known ?_
        rw [parted, List.mem_append, not_or]
        exact ⟨high, off⟩
    · intro i m there closed
      rw [mailbox?, frames] at there
      split at there
      · obtain ⟨f, found, boxed⟩ := Option.bind_eq_some_iff.mp there
        obtain ⟨f', known, rfl⟩ := Option.map_eq_some_iff.mp found
        exact ((upright.tornDown_tearDown known).ended m boxed).slot
      · exact upright.emptied i m there closed
  · rw [popFrame_of_not_mem here]
    exact upright

theorem pop_eq : s.pop.2 = s ∨ ∃ id, s.pop.2 = (s.popFrame id).2 := by
  unfold pop
  split
  · exact .inl rfl
  · exact .inr ⟨_, rfl⟩

theorem upright_of_made (made : s.Made) : s.Upright := by
  induction made with
  | new => exact upright_new
  | push kind remote _ ih => exact ih.push kind remote
  | @pop s _ ih =>
    rcases s.pop_eq with same | ⟨id, popped⟩
    · rwa [same]
    · rw [popped]
      exact ih.popFrame id
  | popFrame id _ ih => exact ih.popFrame id
  | serve _ serves h ih => exact ih.serve serves h

theorem Upright.stands_of_live {f : Frame} (upright : s.Upright) (here : i ∈ s.live)
    (found : s.get? i = Option.some f) : f.Stands := by
  obtain ⟨opened, unfinished⟩ := upright.stands i here
  rw [isShut, found, Option.any_some] at opened
  refine ⟨opened, fun m boxed => ?_⟩
  rw [isFinished, mailbox?, found, Option.bind_some, boxed, Option.any_some] at unfinished
  exact unfinished

theorem Upright.tornDown {f : Frame} (upright : s.Upright) (off : i ∉ s.live)
    (found : s.get? i = Option.some f) : f.TornDown := by
  have known : i < s.frames.length := (List.getElem?_eq_some_iff.mp found).1
  obtain ⟨shut, ended⟩ := upright.gone i known off
  rw [isShut, found, Option.any_some] at shut
  refine ⟨shut, fun m boxed => ?_⟩
  have there : s.mailbox? i = Option.some m := by rw [mailbox?, found, Option.bind_some, boxed]
  have stands : s.standing i = Option.some m.standing := by rw [standing, there, Option.map_some]
  have closed : m.closed = true := (upright.toSound.ended i _ stands).1.trans (ended m there)
  exact upright.ended_of_closed there closed

theorem Upright.live_iff {f : Frame} (upright : s.Upright) (found : s.get? i = Option.some f) :
    i ∈ s.live ↔ ¬f.TornDown := by
  constructor
  · intro here
    exact (upright.stands_of_live here found).not_tornDown
  · intro up
    by_contra off
    exact up (upright.tornDown off found)

theorem Regular.id_eq {f : Frame} (regular : s.Regular) (found : s.get? i = Option.some f) :
    f.id = i := by
  have ids := regular.ids i
  rwa [ref, found] at ids

/-- The frames that there are, by their numbers. -/
theorem Regular.map_id (regular : s.Regular) : s.frames.map (·.id) = List.range s.frames.length := by
  refine List.ext_getElem (by simp) fun i known _ => ?_
  rw [List.length_map] at known
  have found : s.get? i = Option.some s.frames[i] := List.getElem?_eq_getElem known
  simpa using regular.id_eq found

theorem Regular.nodup_live (regular : s.Regular) : s.live.Nodup := by
  rw [live, List.nodup_append_comm]
  exact List.nodup_cons.mpr ⟨regular.not_mem_zero, regular.nodup⟩

/-- Nested prompts are counted as long as they stand. -/
theorem Upright.nestedPromptLevel_eq (upright : s.Upright) : s.nestedPromptLevel =
    s.frames.countP fun f => f.kind = .nestedPrompt ∧ ¬f.TornDown := by
  have regular := upright.toRegular
  have standing : (s.frames.filter fun f => f.kind = .nestedPrompt ∧ ¬f.TornDown).length =
      ((s.frames.filter fun f => f.kind = .nestedPrompt ∧ ¬f.TornDown).map (·.id)).length :=
    (List.length_map _).symm
  rw [nestedPromptLevel, List.countP_eq_length_filter, List.countP_eq_length_filter, standing]
  refine ((List.perm_ext_iff_of_nodup (regular.nodup_live.filter _) ?_).mpr fun i => ?_).length_eq
  · refine List.Nodup.sublist (List.filter_sublist.map _) ?_
    rw [regular.map_id]
    exact List.nodup_range
  · constructor
    · intro here
      obtain ⟨here, prompt⟩ := List.mem_filter.mp here
      have known := regular.lt_of_live here
      have found : s.get? i = Option.some s.frames[i] := List.getElem?_eq_getElem known
      rw [kind, found] at prompt
      refine List.mem_map.mpr ⟨s.frames[i], List.mem_filter.mpr ⟨List.getElem_mem known, ?_⟩,
        regular.id_eq found⟩
      have up := (upright.live_iff found).mp here
      simpa [up] using prompt
    · intro there
      obtain ⟨f, found, rfl⟩ := List.mem_map.mp there
      obtain ⟨known, good⟩ := List.mem_filter.mp found
      obtain ⟨j, bound, rfl⟩ := List.getElem_of_mem known
      have found : s.get? j = Option.some s.frames[j] := List.getElem?_eq_getElem bound
      rw [regular.id_eq found]
      obtain ⟨prompt, up⟩ : s.frames[j].kind = .nestedPrompt ∧ ¬s.frames[j].TornDown := by
        simpa using good
      refine List.mem_filter.mpr ⟨(upright.live_iff found).mpr up, ?_⟩
      rw [kind, found]
      simpa using prompt

/-! ### What one finds -/

/-- The order of a stack of frames. -/
structure Ordered (s : FrameStack) : Prop where
  /-- At the bottom is the frame of the top level, which nobody can close. -/
  bottom : s.live.getLast? = some 0 ∧ ∃ f, s.get? 0 = some f ∧ f.id = 0 ∧ f.kind = .topLevel ∧
    f.remote = false ∧ f.mailbox = none ∧ f.gate.closed = false
  ids : ∀ i ∈ s.live, ∃ f, s.get? i = some f ∧ f.id = i
  /-- The numbers fall from the current frame down. -/
  falling : s.live.Pairwise (· > ·)
  upward : s.live.Pairwise fun upper lower => (s.mailbox? lower).isSome → (s.mailbox? upper).isSome
  live_iff : ∀ i f, s.get? i = some f → (i ∈ s.live ↔ ¬f.TornDown)
  /-- On the stack nothing of a frame has been torn down. -/
  stands : ∀ i ∈ s.live, ∀ f, s.get? i = some f → f.Stands
  /-- Whoever comes to a frame that was torn down is turned away. -/
  away : ∀ i f, s.get? i = some f → f.TornDown → ∀ flow isCancelled pick ticket caller,
    (∀ w ∈ f.gate.waiters, w.id ≠ ticket) →
      ∃ t, s.perform flow isCancelled pick (.look i ticket caller) = some (.exited, t)
  level : s.nestedPromptLevel = s.frames.countP fun f => f.kind = .nestedPrompt ∧ ¬f.TornDown

/-- What it is to take a frame off a stack. -/
structure Leaves (s : FrameStack) (id : Nat) : Prop where
  /-- The bottom frame stays, and what is off the stack has left already. -/
  stays : id = 0 ∨ id ∉ s.live → s.popFrame id = (false, s)
  /-- The frames down to this one leave, and are torn down in this order. -/
  goes : ∀ gone kept, s.above = gone ++ id :: kept →
    s.popFrame id = (true, (gone ++ [id]).foldl tearDown { s with above := kept })
  frames : ∀ gone kept, s.above = gone ++ id :: kept → ∀ i, (s.popFrame id).2.get? i =
    if i ∈ gone ++ [id] then (s.get? i).map Frame.tearDown else s.get? i
  /-- Whoever waited for his request to be taken is told. -/
  refused : ∀ gone kept, s.above = gone ++ id :: kept → ∀ i ∈ gone ++ [id], ∀ m caller request,
    s.mailbox? i = some m → m.slot = some (caller, request) → ∀ flow isCancelled pick,
      ∃ t, (s.popFrame id).2.perform flow isCancelled pick (.lookMail i caller) =
        some (some .refused, t)

theorem Upright.away {f : Frame} (found : s.get? i = Option.some f) (down : f.TornDown) (flow : Nat)
    (isCancelled : Option Token → Bool) (pick : Bool) (ticket : Nat) (caller : Gate.Caller)
    (new : ∀ w ∈ f.gate.waiters, w.id ≠ ticket) :
    ∃ t, s.perform flow isCancelled pick (.look i ticket caller) = Option.some (.exited, t) := by
  obtain ⟨may, exited⟩ : f.gate.mayLook ticket ∧
      (f.gate.look ticket caller (isCancelled caller.token) pick).1 = .exited :=
    Gate.look_of_closed down.shut new
  refine ⟨s.modifyGate i fun _ => (f.gate.look ticket caller (isCancelled caller.token) pick).2, ?_⟩
  simp only [perform, found, if_pos may]
  rw [exited]

theorem Upright.ordered (upright : s.Upright) : s.Ordered := by
  have regular := upright.toRegular
  have known {i : Nat} (here : i ∈ s.live) : s.get? i = Option.some (s.frames.get ⟨i, regular.lt_of_live here⟩) :=
    List.getElem?_eq_getElem _
  have bottom : 0 ∈ s.live := List.mem_append_right _ (List.mem_singleton_self 0)
  refine ⟨⟨by simp [live], ?_⟩, ?_, ?_, ?_, fun i f => upright.live_iff, fun i here f => upright.stands_of_live here,
    fun i f => Upright.away, upright.nestedPromptLevel_eq⟩
  · have ref := regular.bottom
    rw [FrameStack.ref, known bottom] at ref
    simp only [FrameRef.mk.injEq] at ref
    obtain ⟨id, kind, remote, boxed⟩ := ref
    exact ⟨_, known bottom, id, kind, remote, by simpa using boxed,
      (upright.stands_of_live bottom (known bottom)).opened⟩
  · intro i here
    exact ⟨_, known here, regular.id_eq (known here)⟩
  · refine List.pairwise_append.mpr ⟨regular.falling, List.pairwise_singleton _ _, fun i here j zero => ?_⟩
    rw [List.mem_singleton.mp zero]
    exact (regular.range i here).1
  · refine List.pairwise_append.mpr ⟨?_, List.pairwise_singleton _ _, fun i here j zero has => ?_⟩
    · simpa only [ref_hasMailbox] using upright.upward
    · rw [List.mem_singleton.mp zero, ← ref_hasMailbox, regular.bottom] at has
      cases has

theorem Upright.leaves (upright : s.Upright) (id : Nat) : s.Leaves id := by
  have regular := upright.toRegular
  refine ⟨fun stays => ?_, fun gone kept => popFrame_of_split regular,
    fun gone kept split i => get?_popFrame regular split, ?_⟩
  · refine popFrame_of_not_mem ?_
    rcases stays with rfl | off
    · exact regular.not_mem_zero
    · exact fun here => off (List.mem_append_left _ here)
  · intro gone kept split i here m caller request boxed slot flow isCancelled pick
    have opened : m.closed = false := by
      rw [Bool.eq_false_iff]
      intro closed
      rw [upright.emptied i m boxed closed] at slot
      cases slot
    obtain ⟨may, told⟩ := Mailbox.look_dispose opened slot
    have now : (s.popFrame id).2.mailbox? i = Option.some m.dispose := by
      obtain ⟨f, found, boxed⟩ := Option.bind_eq_some_iff.mp boxed
      rw [mailbox?, get?_popFrame regular split, if_pos here, found, Option.map_some, Option.bind_some,
        Frame.tearDown, boxed]
      rfl
    refine ⟨(s.popFrame id).2.modifyMailbox i fun _ => (m.dispose.look caller).2, ?_⟩
    simp only [perform, now, if_pos may]
    rw [told]

/-- Whatever frames are pushed, popped and served, a stack stays in order, and frames leave it with all
that lies above them. -/
theorem frames_stand_while_live (made : s.Made) : s.Ordered ∧ ∀ id, s.Leaves id := by
  have upright := upright_of_made made
  exact ⟨upright.ordered, upright.leaves⟩

/-! ### What the broker does -/

theorem frames_acts {w u : World} (h : brokerMachine.Acts flow (.frames op) w r u) :
    ∃ pick, w.frames.perform flow w.isCancelled pick op = some (r, u.frames) := by
  obtain ⟨pick, h⟩ := h
  exact ⟨pick, World.frames_step h⟩

theorem tearDown_alone {w u : World} (h : brokerMachine.Does flow (Aborting.tearDown gone) w () u) :
    u.frames = gone.foldl tearDown w.frames := by
  induction gone generalizing w with
  | nil =>
    obtain ⟨-, rfl⟩ := Machine.Does.done_iff.mp h
    rfl
  | cons i rest ih =>
    obtain ⟨_, v, disposed, h⟩ := Machine.Does.act_iff.mp h
    obtain ⟨_, x, closed, h⟩ := Machine.Does.act_iff.mp h
    obtain ⟨_, disposed⟩ := frames_acts disposed
    obtain ⟨_, closed⟩ := frames_acts closed
    have first : w.frames.modifyMailbox i Mailbox.dispose = v.frames :=
      congrArg Prod.snd (Option.some.inj disposed)
    have second : v.frames.modifyGate i Gate.close = x.frames :=
      congrArg Prod.snd (Option.some.inj closed)
    rw [ih h, List.foldl_cons, tearDown_eq, first, second]

/-- A flow that takes a frame off, and is left alone meanwhile, takes it off like this. -/
theorem popFrame_alone {w u : World} (h : brokerMachine.Does flow (Aborting.popFrame id) w () u) :
    u.frames = (w.frames.popFrame id).2 := by
  obtain ⟨gone, v, removed, h⟩ := Machine.Does.act_iff.mp h
  obtain ⟨_, removed⟩ := frames_acts removed
  obtain ⟨rfl, now⟩ := Demolition.remove_perform removed
  rw [tearDown_alone h, now]
  rfl

/-- A nested prompt with a request in its slot, below a debugger stop. -/
def promptAsked : FrameStack :=
  ((new.push .nestedPrompt false).2.push .debug false).2.modifyMailbox 1 fun m =>
    (m.ask 7 ⟨0, .script "work", .standard⟩).2

theorem asked (flow : Nat) (isCancelled : Option Token → Bool) (pick : Bool) :
    ((new.push .nestedPrompt false).2.push .debug false).2.perform flow isCancelled pick
      (.ask 1 7 ⟨0, .script "work", .standard⟩) = some (none, promptAsked) := rfl

/-- When the prompt leaves, so does the stop, and the request is refused. -/
theorem prompt_leaves_with_stop : promptAsked.Made ∧ promptAsked.Ordered ∧
    (promptAsked.popFrame 1).1 = true ∧ (promptAsked.popFrame 1).2.live = [0] ∧
      ∃ t, (promptAsked.popFrame 1).2.perform 0 (fun _ => false) false (.lookMail 1 7) =
        some (some .refused, t) := by
  have pushed : Made ((new.push .nestedPrompt false).2.push .debug false).2 :=
    .push .debug false (.push .nestedPrompt false .new)
  have serves : FrameOp.Serves (.ask 1 7 ⟨0, .script "work", .standard⟩) := trivial
  have made : promptAsked.Made := .serve pushed serves (asked 0 (fun _ => false) false)
  obtain ⟨ordered, leaves⟩ := frames_stand_while_live made
  have split : promptAsked.above = [2] ++ 1 :: [] := rfl
  refine ⟨made, ordered, ?_, rfl, ?_⟩
  · rw [(leaves 1).goes [2] [] split]
  · exact (leaves 1).refused [2] [] split 1 (by decide) _ 7 _ rfl rfl 0 _ false

end FrameStack

end SessionBroker
