import SessionBroker.Proofs.Stacks

/-!
# How frames end

A frame ends when its exit is set, its mailbox is disposed and its gate is closed. Four kinds of steps do
that, and none undoes it: an exit stays what it was first set to, and what was torn down stays so. A frame
that is off the stack stays off, and so do those that lay above it.
-/

namespace SessionBroker

namespace Mailbox

variable {ρ α : Type} {m n : Mailbox ρ α}

/-- How far the end of a mailbox has come: its exit, whether it is closed, and whether its frame has been
torn down. -/
def standing (m : Mailbox ρ α) : Option ResumeAction × Bool × Bool := (m.exit, m.closed, m.finished)

@[simp] theorem standing_modify (id : Nat) (f : Caller ρ α → Caller ρ α) :
    (m.modify id f).standing = m.standing := rfl

@[simp] theorem standing_wakeWaiting : m.wakeWaiting.standing = m.standing := rfl

@[simp] theorem standing_passTurn : m.passTurn.standing = m.standing := by
  unfold passTurn
  split <;> rfl

@[simp] theorem standing_drop (id : Nat) : (m.drop id).standing = m.standing := by
  simp only [drop]
  split
  · exact standing_passTurn
  · rfl

@[simp] theorem standing_fill (id : Nat) (request : ρ) : (m.fill id request).standing = m.standing := by
  unfold fill
  split
  · rfl
  · exact standing_passTurn

@[simp] theorem standing_ask (id : Nat) (request : ρ) : (m.ask id request).2.standing = m.standing := by
  simp only [ask]
  split
  · rfl
  · split
    · exact standing_fill ..
    · rfl

@[simp] theorem standing_look (id : Nat) : (m.look id).2.standing = m.standing := by
  unfold look
  split
  · rfl
  · split
    · exact standing_drop _
    · split
      · exact standing_drop _
      · split
        · exact standing_fill ..
        · rfl
    · rfl

theorem standing_take {next : Next ρ} (taken : m.take? = some (next, n)) : n.standing = m.standing := by
  unfold take? at taken
  split at taken
  · cases taken
    rfl
  · split at taken
    · cases taken
      rfl
    · split at taken
      · cases taken
      · cases taken
        simp only [handOver]
        split <;> rfl

/-- An exit is set only where there was none. -/
theorem standing_tryExit (action : ResumeAction) : m.isOver = true ∧ m.tryExit action = (false, m) ∨
    m.isOver = false ∧ (m.tryExit action).1 = true ∧
      (m.tryExit action).2.standing = (some action, m.closed, m.finished) := by
  unfold tryExit
  cases m.isOver
  · exact .inr ⟨rfl, rfl, rfl⟩
  · exact .inl ⟨rfl, rfl⟩

theorem standing_dispose (closed : m.closed = false) :
    m.dispose.standing = (some (m.exit.getD .continue), true, true) := by
  unfold dispose
  rw [if_neg (by simp [closed])]
  cases m.slot <;> rfl

end Mailbox

namespace Gate

variable {g : Gate}

@[simp] theorem closed_release (g : Gate) : g.release.closed = g.closed := by
  unfold release
  split <;> rfl

theorem closed_tryTake : g.tryTake.2.closed = g.closed := by
  unfold tryTake
  split
  · rfl
  · split <;> rfl

@[simp] theorem closed_look (id : Nat) (caller : Caller) (cancelled cancelFirst : Bool) :
    (g.look id caller cancelled cancelFirst).2.closed = g.closed := by
  have taken : (g.enroll id caller).tryTake.2.closed = g.closed := by
    rw [closed_tryTake]
    unfold enroll
    split <;> rfl
  unfold look
  split
  · rfl
  · generalize (g.enroll id caller).tryTake = p at taken ⊢
    obtain ⟨answer, h⟩ := p
    cases answer
    case waiting => cases cancelled <;> exact taken
    all_goals exact taken

end Gate

/-! ## Frames -/

namespace FrameStack

variable {s t u : FrameStack} {i j flow : Nat} {isCancelled : Option Token → Bool} {pick : Bool}
  {op : FrameOp} {r : op.Reply}

/-- What a frame was told to exit with. -/
def exit? (s : FrameStack) (i : Nat) : Option ResumeAction := (s.mailbox? i).bind (·.exit)

/-- Whether the mailbox of a frame has been disposed. -/
def isFinished (s : FrameStack) (i : Nat) : Bool := (s.mailbox? i).any (·.finished)

/-- Whether the gate of a frame is closed. -/
def isShut (s : FrameStack) (i : Nat) : Bool := (s.get? i).any (·.gate.closed)

/-- Whether a frame has been torn down. -/
def isTornDown (s : FrameStack) (i : Nat) : Bool := s.isFinished i && s.isShut i

/-- How far the end of a frame's mailbox has come, if it has one. -/
def standing (s : FrameStack) (i : Nat) : Option (Option ResumeAction × Bool × Bool) :=
  (s.mailbox? i).map Mailbox.standing

theorem exit?_eq : s.exit? i = (s.standing i).bind (·.1) := by
  simp only [exit?, standing]
  cases s.mailbox? i <;> rfl

theorem isFinished_eq : s.isFinished i = (s.standing i).any (·.2.2) := by
  simp only [isFinished, standing]
  cases s.mailbox? i <;> rfl

theorem standing_modifyMailbox {m n : Mailbox Request Response} (here : s.mailbox? i = some m)
    (same : n.standing = m.standing) : (s.modifyMailbox i fun _ => n).standing = s.standing := by
  funext j
  simp only [standing, mailbox?_modifyMailbox]
  split
  · next mine => rw [mine, here, Option.map_some, Option.map_some, Option.map_some, same]
  · rfl

theorem isShut_modify {f : Frame → Frame} (keeps : ∀ fr, (f fr).gate.closed = fr.gate.closed) :
    (s.modify i f).isShut = s.isShut := by
  funext j
  simp only [isShut, get?_modify]
  cases s.get? j with
  | none => rfl
  | some fr => by_cases same : i = j <;> simp [same, keeps]

/-! ## What one step does -/

theorem mailbox?_push (kind : FrameKind) (remote : Bool) (old : i < s.frames.length) :
    (s.push kind remote).2.mailbox? i = s.mailbox? i := by
  simp only [mailbox?, get?, push, List.getElem?_append_left old]

theorem mailbox?_of_le (new : s.frames.length ≤ i) : s.mailbox? i = none := by
  simp only [mailbox?, get?, List.getElem?_eq_none new, Option.bind_none]

/-- A frame that has just been pushed has nothing of its end behind it. -/
theorem standing_push (kind : FrameKind) (remote : Bool) (new : s.frames.length ≤ i)
    {e : Option ResumeAction × Bool × Bool} (h : (s.push kind remote).2.standing i = some e) :
    e = (none, false, false) := by
  obtain ⟨m, hm, rfl⟩ := Option.map_eq_some_iff.mp h
  simp only [mailbox?, get?, push, List.getElem?_append_right new] at hm
  rcases at_ : i - s.frames.length with _ | k
  · simp only [at_, List.getElem?_cons_zero, Option.bind_some, Frame.new] at hm
    split at hm <;> cases hm
    rfl
  · simp [at_] at hm

/-- Mailboxes come closer to their ends by steps of three kinds. -/
theorem standing_perform (push : ∀ kind remote, op ≠ .push kind remote)
    (tryExit : ∀ i a, op ≠ .tryExit i a) (dispose : ∀ i, op ≠ .dispose i)
    (h : s.perform flow isCancelled pick op = some (r, t)) : t.standing = s.standing := by
  have gate : ∀ i f, (s.modifyGate i f).standing = s.standing := fun i f => by
    funext j
    simp only [standing, mailbox?_modifyGate]
  cases op
  case push kind remote => exact absurd rfl (push kind remote)
  case tryExit i a => exact absurd rfl (tryExit i a)
  case dispose i => exact absurd rfl (dispose i)
  case remove i =>
    obtain rfl : (s.remove i).2 = t := congrArg Prod.snd (Option.some.inj h)
    unfold remove
    split <;> rfl
  case look =>
    simp only [perform] at h
    split at h
    · cases h
      rfl
    · split at h <;> cases h
      exact gate ..
  case ask =>
    simp only [perform] at h
    split at h <;> cases h
    · rfl
    · next m here => exact standing_modifyMailbox here (Mailbox.standing_ask ..)
  case lookMail =>
    simp only [perform] at h
    split at h
    · cases h
      rfl
    · next m here =>
      split at h <;> cases h
      exact standing_modifyMailbox here (Mailbox.standing_look _)
  case take =>
    simp only [perform] at h
    split at h
    · cases h
      rfl
    · next m here =>
      obtain ⟨_, taken, h⟩ := Option.map_eq_some_iff.mp h
      cases h
      exact standing_modifyMailbox here (Mailbox.standing_take taken)
  case attach i | answer i _ _ =>
    cases h
    funext j
    simp only [standing, mailbox?_modifyMailbox]
    split
    · cases s.mailbox? j <;> rfl
    · rfl
  case awaitExit =>
    simp only [perform] at h
    split at h
    · cases h
      rfl
    · obtain ⟨_, -, h⟩ := Option.map_eq_some_iff.mp h
      cases h
      rfl
  case awaitFinish =>
    simp only [perform] at h
    split at h
    · cases h
      rfl
    · split at h <;> cases h
      rfl
  case closeGate | release => cases h; exact gate ..
  case current | live | hasExited | hasServer | isServer => cases h; rfl

/-- Gates are closed by steps of one kind. -/
theorem isShut_perform (push : ∀ kind remote, op ≠ .push kind remote)
    (closeGate : ∀ i, op ≠ .closeGate i) (h : s.perform flow isCancelled pick op = some (r, t)) :
    t.isShut = s.isShut := by
  have mail : ∀ i f, (s.modifyMailbox i f).isShut = s.isShut := fun i f => isShut_modify fun _ => rfl
  cases op
  case push kind remote => exact absurd rfl (push kind remote)
  case closeGate i => exact absurd rfl (closeGate i)
  case remove i =>
    obtain rfl : (s.remove i).2 = t := congrArg Prod.snd (Option.some.inj h)
    unfold remove
    split <;> rfl
  case look i ticket caller =>
    simp only [perform] at h
    split at h
    · cases h
      rfl
    · next fr found =>
      split at h <;> cases h
      funext j
      simp only [isShut, modifyGate, get?_modify]
      by_cases same : i = j
      · subst same
        simp [found, Gate.closed_look]
      · cases s.get? j <;> simp [same]
  case ask | tryExit =>
    simp only [perform] at h
    split at h <;> cases h
    · rfl
    · exact mail ..
  case lookMail =>
    simp only [perform] at h
    split at h
    · cases h
      rfl
    · split at h <;> cases h
      exact mail ..
  case take =>
    simp only [perform] at h
    split at h
    · cases h
      rfl
    · obtain ⟨_, -, h⟩ := Option.map_eq_some_iff.mp h
      cases h
      exact mail ..
  case awaitExit =>
    simp only [perform] at h
    split at h
    · cases h
      rfl
    · obtain ⟨_, -, h⟩ := Option.map_eq_some_iff.mp h
      cases h
      rfl
  case awaitFinish =>
    simp only [perform] at h
    split at h
    · cases h
      rfl
    · split at h <;> cases h
      rfl
  case release i =>
    cases h
    exact isShut_modify fun fr => Gate.closed_release _
  case dispose | attach | answer => cases h; exact mail ..
  case current | live | hasExited | hasServer | isServer => cases h; rfl

/-- One who tries to set an exit sets it if there was none, or does nothing. -/
theorem tryExit_perform {action : ResumeAction} {won : Bool}
    (h : s.perform flow isCancelled pick (.tryExit i action) = some (won, t)) :
    won = false ∧ t = s ∨ won = true ∧ s.exit? i = none ∧
      t.standing = Function.update s.standing i ((s.standing i).map fun e => (some action, e.2)) ∧
      (s.standing i).isSome := by
  simp only [perform] at h
  split at h
  · cases h
    exact .inl ⟨rfl, rfl⟩
  · next m here =>
    rcases Mailbox.standing_tryExit (m := m) action with ⟨-, same⟩ | ⟨notOver, won', stands⟩
    · rw [same] at h
      cases h
      exact .inl ⟨rfl, modifyMailbox_of_eq here⟩
    · cases h
      have noExit : m.exit = none ∧ m.closed = false := by simpa [Mailbox.isOver] using notOver
      refine .inr ⟨won', by simp [exit?, here, noExit.1], ?_, by simp [standing, here]⟩
      funext j
      simp only [standing, mailbox?_modifyMailbox]
      by_cases mine : j = i
      · subst mine
        simp only [if_true, here, Option.map_some, Function.update_self]
        exact congrArg some stands
      · simp only [if_neg mine, Function.update_of_ne mine, standing]

/-! ## Frames that come about -/

/-- The stack is regular, and a mailbox is closed exactly if its frame has been torn down; it has an exit
then. -/
structure Sound (s : FrameStack) : Prop extends s.Regular where
  ended : ∀ i e, s.standing i = Option.some e → e.2.1 = e.2.2 ∧ (e.2.1 = true → e.1.isSome)

theorem dispose_perform (sound : s.Sound) {r : Unit}
    (h : s.perform flow isCancelled pick (.dispose i) = some (r, t)) :
    t.standing = Function.update s.standing i
      ((s.standing i).map fun e => (some (e.1.getD .continue), true, true)) := by
  cases h
  funext j
  simp only [standing, mailbox?_modifyMailbox]
  by_cases mine : j = i
  · subst mine
    simp only [if_true, Function.update_self]
    rcases here : s.mailbox? j with _ | m
    · rfl
    · rcases closed : m.closed with _ | _
      · exact congrArg some (Mailbox.standing_dispose closed)
      · obtain ⟨finished, exit⟩ := sound.ended j m.standing (by simp [standing, here])
        obtain ⟨action, exit⟩ := Option.isSome_iff_exists.mp (exit closed)
        have stays : m.dispose = m := by simp [Mailbox.dispose, closed]
        have exit : m.exit = some action := exit
        have finished : m.finished = true := finished.symm.trans closed
        simp [stays, Mailbox.standing, closed, exit, finished]
  · simp only [if_neg mine, Function.update_of_ne mine, standing]

theorem sound_new : Sound new where
  toRegular := regular_new
  ended i e h := by
    have none : new.mailbox? i = none := by rcases i with _ | i <;> rfl
    simp [standing, none] at h

theorem Sound.perform (sound : s.Sound) (h : s.perform flow isCancelled pick op = Option.some (r, t)) :
    t.Sound where
  toRegular := sound.toRegular.perform h
  ended j e he := by
    by_cases push : ∀ kind remote, op ≠ .push kind remote
    · by_cases tryExit : ∀ i a, op ≠ .tryExit i a
      · by_cases dispose : ∀ i, op ≠ .dispose i
        · exact sound.ended j e (standing_perform push tryExit dispose h ▸ he)
        · obtain ⟨i, rfl⟩ : ∃ i, op = .dispose i := by simpa using dispose
          rw [dispose_perform sound h] at he
          by_cases mine : j = i
          · subst mine
            rw [Function.update_self] at he
            obtain ⟨e', -, rfl⟩ := Option.map_eq_some_iff.mp he
            exact ⟨rfl, fun _ => rfl⟩
          · exact sound.ended j e (by rwa [Function.update_of_ne mine] at he)
      · obtain ⟨i, a, rfl⟩ : ∃ i a, op = .tryExit i a := by simpa using tryExit
        rcases tryExit_perform h with ⟨-, rfl⟩ | ⟨-, -, stands, -⟩
        · exact sound.ended j e he
        · rw [stands] at he
          by_cases mine : j = i
          · subst mine
            rw [Function.update_self] at he
            obtain ⟨e', he', rfl⟩ := Option.map_eq_some_iff.mp he
            exact ⟨(sound.ended j e' he').1, fun _ => rfl⟩
          · exact sound.ended j e (by rwa [Function.update_of_ne mine] at he)
    · obtain ⟨kind, remote, rfl⟩ : ∃ kind remote, op = .push kind remote := by
        simpa only [ne_eq, not_forall, not_not] using push
      cases h
      by_cases old : j < s.frames.length
      · have same : (s.push kind remote).2.standing j = s.standing j :=
          congrArg (Option.map Mailbox.standing) (mailbox?_push kind remote old)
        exact sound.ended j e (same.symm.trans he)
      · rw [standing_push kind remote (not_lt.mp old) he]
        exact ⟨rfl, by rintro ⟨⟩⟩

/-- Whoever does not try to set an exit sets none, unless he tears the frame down. -/
theorem exit?_perform (sound : s.Sound) (tryExit : ∀ i a, op ≠ .tryExit i a)
    (h : s.perform flow isCancelled pick op = some (r, t)) {action : ResumeAction}
    (exit : t.exit? i = some action) : s.exit? i = some action ∨ action = .continue := by
  by_cases push : ∀ kind remote, op ≠ .push kind remote
  · by_cases dispose : ∀ i, op ≠ .dispose i
    · exact .inl (by rwa [exit?_eq, standing_perform push tryExit dispose h, ← exit?_eq] at exit)
    · obtain ⟨j, rfl⟩ : ∃ i, op = .dispose i := by simpa using dispose
      rw [exit?_eq, dispose_perform sound h] at exit
      by_cases mine : i = j
      · subst mine
        rw [Function.update_self] at exit
        obtain ⟨e', here, same⟩ := Option.bind_eq_some_iff.mp exit
        obtain ⟨e, before, rfl⟩ := Option.map_eq_some_iff.mp here
        rcases free : e.1 with _ | x
        · exact .inr (by simpa [free] using same.symm)
        · exact .inl (by rw [exit?_eq, before, Option.bind_some, free]; simpa [free] using same)
      · rw [Function.update_of_ne mine, ← exit?_eq] at exit
        exact .inl exit
  · obtain ⟨kind, remote, rfl⟩ : ∃ kind remote, op = .push kind remote := by
      simpa only [ne_eq, not_forall, not_not] using push
    cases h
    by_cases old : i < s.frames.length
    · have same : (s.push kind remote).2.exit? i = s.exit? i :=
        congrArg (Option.bind · _) (mailbox?_push kind remote old)
      exact .inl (same.symm.trans exit)
    · have exit : (s.push kind remote).2.exit? i = some action := exit
      rw [exit?_eq] at exit
      obtain ⟨e, here, set⟩ := Option.bind_eq_some_iff.mp exit
      rw [standing_push kind remote (not_lt.mp old) here] at set
      cases set

/-! ## Earlier and later -/

/-- What is there of the frames later on: they are as far, and those that were gone are gone. -/
structure Later (s t : FrameStack) : Prop where
  length : s.frames.length ≤ t.frames.length
  refs : ∀ i < s.frames.length, t.ref i = s.ref i
  exits : ∀ i action, s.exit? i = some action → t.exit? i = some action
  finished : ∀ i, s.isFinished i = true → t.isFinished i = true
  shut : ∀ i, s.isShut i = true → t.isShut i = true
  left : t.above.filter (· < s.frames.length) <:+ s.above

namespace Later

theorem refl (regular : s.Regular) : s.Later s := by
  refine ⟨le_rfl, fun _ _ => rfl, fun _ _ h => h, fun _ h => h, fun _ h => h, ?_⟩
  rewrite [List.filter_eq_self.mpr fun i hi => by simpa using (regular.range i hi).2]
  exact List.suffix_rfl

theorem trans (st : s.Later t) (tu : t.Later u) : s.Later u where
  length := st.length.trans tu.length
  refs i hi := (tu.refs i (hi.trans_le st.length)).trans (st.refs i hi)
  exits i action h := tu.exits i action (st.exits i action h)
  finished i h := tu.finished i (st.finished i h)
  shut i h := tu.shut i (st.shut i h)
  left := by
    have both : u.above.filter (· < s.frames.length) =
        (u.above.filter (· < t.frames.length)).filter (· < s.frames.length) := by
      rw [List.filter_filter]
      refine List.filter_congr fun i _ => ?_
      have := st.length
      by_cases old : i < s.frames.length
      · simp [old, show i < t.frames.length by omega]
      · simp [old]
    rw [both]
    exact (tu.left.filter _).trans st.left

variable (later : s.Later t)
include later

/-- A frame that is off the stack stays off. -/
theorem off (known : i < s.frames.length) (gone : i ∉ s.above) : i ∉ t.above := fun back =>
  gone (later.left.subset (List.mem_filter.mpr ⟨back, by simpa using known⟩))

/-- A frame that lay above another one has left if that one has. -/
theorem off_above (regular : s.Regular) (here : i ∈ s.above) (above : j ∈ s.above) (lt : i < j)
    (gone : i ∉ t.above) : j ∉ t.above := fun back => by
  obtain ⟨front, split⟩ := later.left
  have kept : j ∈ t.above.filter (· < s.frames.length) :=
    List.mem_filter.mpr ⟨back, by simpa using (regular.range j above).2⟩
  have falling := regular.falling
  rw [← split] at here falling
  rcases List.mem_append.mp here with high | low
  · exact absurd ((List.pairwise_append.mp falling).2.2 i high j kept) (by omega)
  · exact gone (List.mem_filter.mp low).1

end Later

theorem exit?_lt {action : ResumeAction} (h : s.exit? i = some action) : i < s.frames.length := by
  refine not_le.mp fun new => ?_
  rw [exit?, mailbox?_of_le new] at h
  cases h

theorem isFinished_lt (h : s.isFinished i = true) : i < s.frames.length := by
  refine not_le.mp fun new => ?_
  rw [isFinished, mailbox?_of_le new] at h
  cases h

/-- Steps of three kinds bring mailboxes closer to their ends, and no step takes anything back. -/
theorem standing_later (sound : s.Sound) (h : s.perform flow isCancelled pick op = some (r, t))
    {e : Option ResumeAction × Bool × Bool} (before : s.standing i = some e) :
    ∃ e', t.standing i = some e' ∧ (∀ action, e.1 = some action → e'.1 = some action) ∧
      (e.2.2 = true → e'.2.2 = true) := by
  by_cases push : ∀ kind remote, op ≠ .push kind remote
  · by_cases tryExit : ∀ i a, op ≠ .tryExit i a
    · by_cases dispose : ∀ i, op ≠ .dispose i
      · exact ⟨e, standing_perform push tryExit dispose h ▸ before, fun _ h => h, fun h => h⟩
      · obtain ⟨j, rfl⟩ : ∃ i, op = .dispose i := by simpa using dispose
        rw [dispose_perform sound h]
        by_cases mine : i = j
        · subst mine
          rw [Function.update_self, before]
          exact ⟨_, rfl, fun action exit => by simp [exit], fun _ => rfl⟩
        · rw [Function.update_of_ne mine]
          exact ⟨e, before, fun _ h => h, fun h => h⟩
    · obtain ⟨j, a, rfl⟩ : ∃ i a, op = .tryExit i a := by simpa using tryExit
      rcases tryExit_perform h with ⟨-, rfl⟩ | ⟨-, free, stands, -⟩
      · exact ⟨e, before, fun _ h => h, fun h => h⟩
      · rw [stands]
        by_cases mine : i = j
        · subst mine
          rw [exit?_eq, before, Option.bind_some] at free
          rw [Function.update_self, before]
          exact ⟨_, rfl, fun action exit => by simp [free] at exit, fun h => h⟩
        · rw [Function.update_of_ne mine]
          exact ⟨e, before, fun _ h => h, fun h => h⟩
  · obtain ⟨kind, remote, rfl⟩ : ∃ kind remote, op = .push kind remote := by
      simpa only [ne_eq, not_forall, not_not] using push
    cases h
    obtain ⟨m, here, rfl⟩ := Option.map_eq_some_iff.mp before
    have old : i < s.frames.length := not_le.mp fun new => by simp [mailbox?_of_le new] at here
    have same : (s.push kind remote).2.standing i = s.standing i :=
      congrArg (Option.map Mailbox.standing) (mailbox?_push kind remote old)
    exact ⟨_, same.trans before, fun _ h => h, fun h => h⟩

theorem isShut_later (h : s.perform flow isCancelled pick op = some (r, t)) (before : s.isShut i = true) :
    t.isShut i = true := by
  by_cases push : ∀ kind remote, op ≠ .push kind remote
  · by_cases closeGate : ∀ i, op ≠ .closeGate i
    · rwa [isShut_perform push closeGate h]
    · obtain ⟨j, rfl⟩ : ∃ i, op = .closeGate i := by simpa using closeGate
      cases h
      obtain ⟨fr, found, closed⟩ := (Option.any_eq_true _ _).mp before
      simp only [isShut, modifyGate, get?_modify, found]
      by_cases mine : j = i
      · simp [mine, Gate.close, Gate.shut, Gate.wakeThreads, Gate.wakeFutures, Gate.wake]
      · simpa [mine] using closed
  · obtain ⟨kind, remote, rfl⟩ : ∃ kind remote, op = .push kind remote := by
      simpa only [ne_eq, not_forall, not_not] using push
    cases h
    obtain ⟨fr, found, closed⟩ := (Option.any_eq_true _ _).mp before
    have old : i < s.frames.length := (List.getElem?_eq_some_iff.mp found).1
    simpa only [isShut, get?, push, List.getElem?_append_left old] using before

theorem left_perform (regular : s.Regular) (h : s.perform flow isCancelled pick op = some (r, t)) :
    t.above.filter (· < s.frames.length) <:+ s.above := by
  have shrunk : t.above <:+ s.above → t.above.filter (· < s.frames.length) <:+ s.above := fun left => by
    rwa [List.filter_eq_self.mpr fun i hi => by simpa using (regular.range i (left.subset hi)).2]
  by_cases push : ∀ kind remote, op ≠ .push kind remote
  · by_cases remove : ∀ i, op ≠ .remove i
    · exact shrunk (above_perform push remove h ▸ List.suffix_rfl)
    · obtain ⟨j, rfl⟩ : ∃ i, op = .remove i := by simpa using remove
      obtain rfl : (s.remove j).2 = t := congrArg Prod.snd (Option.some.inj h)
      refine shrunk ?_
      unfold FrameStack.remove
      split
      · exact (List.drop_suffix _ _).trans (List.dropWhile_suffix _)
      · exact List.suffix_rfl
  · obtain ⟨kind, remote, rfl⟩ : ∃ kind remote, op = .push kind remote := by
      simpa only [ne_eq, not_forall, not_not] using push
    cases h
    have new : ¬s.frames.length < s.frames.length := lt_irrefl _
    simp only [List.filter_cons, decide_eq_true_eq, new, if_false]
    rewrite [List.filter_eq_self.mpr fun i hi => by simpa using (regular.range i hi).2]
    exact List.suffix_rfl

/-- Time does not run backwards. -/
theorem later_perform (sound : s.Sound) (h : s.perform flow isCancelled pick op = some (r, t)) :
    s.Later t where
  length := by
    by_cases push : ∀ kind remote, op ≠ .push kind remote
    · exact (length_perform push h).ge
    · obtain ⟨kind, remote, rfl⟩ : ∃ kind remote, op = .push kind remote := by
        simpa only [ne_eq, not_forall, not_not] using push
      cases h
      simp
  refs i known := by
    by_cases push : ∀ kind remote, op ≠ .push kind remote
    · rw [ref_perform push h]
    · obtain ⟨kind, remote, rfl⟩ : ∃ kind remote, op = .push kind remote := by
        simpa only [ne_eq, not_forall, not_not] using push
      cases h
      exact (ref_push kind remote).trans (if_neg known.ne)
  exits i action exit := by
    rw [exit?_eq] at exit ⊢
    obtain ⟨e, before, exit⟩ := Option.bind_eq_some_iff.mp exit
    obtain ⟨e', now, exits, -⟩ := standing_later sound h before
    rw [now]
    exact exits action exit
  finished i past := by
    rw [isFinished_eq] at past ⊢
    obtain ⟨e, before, past⟩ := (Option.any_eq_true _ _).mp past
    obtain ⟨e', now, -, finished⟩ := standing_later sound h before
    rw [now]
    exact finished past
  shut i closed := isShut_later h closed
  left := left_perform sound.toRegular h

end FrameStack

/-! ## In the world -/

/-- The frames of a world are sound, and those of a later one are, and are later. -/
def World.FramesLater (w u : World) : Prop :=
  w.frames.Sound → u.frames.Sound ∧ w.frames.Later u.frames

theorem World.framesLater_perform {w u : World} {flow : Nat} {pick : Bool} {action : Action}
    {r : action.Reply} (h : perform flow pick action w = some (r, u)) : w.FramesLater u := fun sound => by
  by_cases frames : ∀ op, action ≠ .frames op
  · rw [frames_perform frames h]
    exact ⟨sound, .refl sound.toRegular⟩
  · obtain ⟨op, rfl⟩ : ∃ op, action = .frames op := by simpa using frames
    exact ⟨sound.perform (frames_step h), FrameStack.later_perform sound (frames_step h)⟩

/-- From outside nothing is done to frames but that some who wait for leases are marked. -/
theorem Outside.frames_apply (change : Outside) (w : World) :
    (change.apply w).frames.above = w.frames.above ∧ (change.apply w).frames.ref = w.frames.ref ∧
      (change.apply w).frames.frames.length = w.frames.frames.length ∧
      (change.apply w).frames.standing = w.frames.standing ∧
      (change.apply w).frames.isShut = w.frames.isShut := by
  cases change with
  | cancel token =>
    have found : ∀ i, (w.cancel token).frames.get? i =
        (w.frames.get? i).map fun f => { f with gate := f.gate.wakeToken token } := fun i =>
      List.getElem?_map ..
    refine ⟨rfl, funext fun i => ?_, List.length_map _, funext fun i => ?_, funext fun i => ?_⟩
    · simp only [Outside.apply, FrameStack.ref, found]
      cases w.frames.get? i <;> rfl
    · simp only [Outside.apply, FrameStack.standing, FrameStack.mailbox?, found]
      cases w.frames.get? i <;> rfl
    · simp only [Outside.apply, FrameStack.isShut, found]
      cases w.frames.get? i <;> rfl
  | _ => exact ⟨rfl, rfl, rfl, rfl, rfl⟩

theorem Outside.framesLater_apply (change : Outside) (w : World) : w.FramesLater (change.apply w) :=
  fun sound => by
  obtain ⟨above, refs, length, stands, shut⟩ := change.frames_apply w
  have regular := sound.toRegular
  refine ⟨⟨regular.shrink refs length (above ▸ .refl _), fun i e h => sound.ended i e (stands ▸ h)⟩, ?_⟩
  refine ⟨length.ge, fun i _ => congrFun refs i, fun i action exit => ?_, fun i past => ?_,
    fun i closed => shut ▸ closed, above ▸ (FrameStack.Later.refl regular).left⟩
  · rwa [FrameStack.exit?_eq, stands, ← FrameStack.exit?_eq]
  · rwa [FrameStack.isFinished_eq, stands, ← FrameStack.isFinished_eq]

end SessionBroker
