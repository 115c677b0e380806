import SessionBroker.Proofs.Teardown.Conduct

/-!
# The frames during the teardown

Frames leave the stack from the top, and only those that were told to exit. At any time each frame is on
the stack and served, or off it and about to be torn down, or torn down.
-/

namespace SessionBroker

namespace Teardown

/-- Frames that are to be torn down once what is being done is done. -/
def Duty.pending : Duty → List Nat
  | .clears gone => gone
  | .closes _ rest => rest
  | _ => []

/-- A frame's mailbox has been disposed. -/
def Finished (s : FrameStack) (i : Nat) : Prop := ∃ m, s.mailbox? i = some m ∧ m.finished

/-- A frame's gate is closed. -/
def Shut (s : FrameStack) (i : Nat) : Prop := ∃ f, s.get? i = some f ∧ f.gate.closed

theorem Shut.modify {s : FrameStack} {i j : Nat} {g : Frame → Frame}
    (keeps : ∀ f, f.gate.closed → (g f).gate.closed) (shut : Shut s i) : Shut (s.modify j g) i := by
  obtain ⟨f, hf, closed⟩ := shut
  refine ⟨_, (FrameStack.get?_modify _).trans (congrArg _ hf), ?_⟩
  split
  · exact keeps f closed
  · exact closed

@[simp] theorem Gate.closed_close (g : Gate) : g.close.closed = true := rfl

/-- What has become of the mailbox of the frame at a place on the stack, once so many were told to
exit. -/
structure Box (old : Onset) (told : Nat) (s : FrameStack) (j i : Nat) (m : Mailbox Request Response) :
    Prop where
  slot : m.slot = none
  server : m.server.isSome
  closed : m.closed = m.finished
  exit : m.exit.isSome ↔ j < told
  stop : old.frames.kind i = .debug → ∀ action, m.exit = some action → action = .stop
  off : m.finished → i ∉ s.above

/-- It matters only which frames are on the stack. -/
theorem Box.mono {old : Onset} {told : Nat} {s t : FrameStack} {j i : Nat} {m : Mailbox Request Response}
    (box : Box old told s j i m) (above : t.above ⊆ s.above) : Box old told t j i m :=
  { box with off := fun past on => box.off past (above on) }

/-- The mailbox of a frame that was told to exit is disposed. -/
theorem Box.dispose {old : Onset} {told : Nat} {s t : FrameStack} {j i : Nat}
    {m : Mailbox Request Response} (box : Box old told s j i m) (first : j < told) (off : i ∉ t.above) :
    Box old told t j i m.dispose ∧ m.dispose.finished := by
  obtain ⟨action, exit⟩ := Option.isSome_iff_exists.mp (box.exit.mpr first)
  unfold Mailbox.dispose
  split
  · next closed =>
    exact ⟨⟨box.slot, box.server, box.closed, box.exit, box.stop, fun _ => off⟩, box.closed ▸ closed⟩
  · rw [box.slot]
    refine ⟨⟨rfl, box.server, rfl, by simp [Mailbox.wakeWaiting, first], fun debug => ?_, fun _ => off⟩, rfl⟩
    simpa [Mailbox.wakeWaiting, exit] using box.stop debug

/-- What has become of the frames that were on the stack, once so many were told to exit. The flows that
are there are charged with duties. -/
structure Frames (old : Onset) (told lost : Nat) (finished : List Nat) (here : Nat → Prop)
    (duty : Nat → Duty) (s : FrameStack) : Prop where
  refs : s.ref = old.frames.ref
  left : ∃ k, lost ≤ k ∧ k ≤ told ∧ k ≤ old.frames.above.length ∧ s.above = old.frames.above.drop k
  boxes : ∀ j i, old.frames.above[j]? = some i → ∃ m, s.mailbox? i = some m ∧ Box old told s j i m
  served : ∀ i ∈ s.above, ∃ f, here f ∧ (duty f = .waits i ∨ duty f = .serves i)
  waiting : ∀ f i, duty f = .waits i → i ∈ old.frames.above
  serving : ∀ f i, duty f = .serves i → Among old told i
  closing : ∀ f i rest, duty f = .closes i rest → i ∈ old.frames.above
  clearing : ∀ i ∈ old.frames.above, i ∉ s.above →
    Finished s i ∨ ∃ f, here f ∧ i ∈ (duty f).pending
  off : ∀ f, ∀ i ∈ (duty f).pending, i ∈ old.frames.above ∧ i ∉ s.above
  shut : ∀ i ∈ old.frames.above, Finished s i →
    Shut s i ∨ ∃ f, here f ∧ ∃ rest, duty f = .closes i rest
  known : ∀ i ∈ finished, Finished s i

variable {old : Onset} {told lost : Nat} {finished : List Nat} {here : Nat → Prop}
  {duty : Nat → Duty} {s t : FrameStack} {i j flow : Nat} {isCancelled : Option Token → Bool}
  {pick : Bool}

namespace Frames

variable (b : Frames old told lost finished here duty s)
include b

/-- A frame that is off the stack was told to exit. -/
theorem told_of_off (hi : old.frames.above[j]? = some i) (off : i ∉ s.above) : j < told := by
  obtain ⟨k, -, told, -, above⟩ := b.left
  refine lt_of_lt_of_le (not_le.mp fun le => off ?_) told
  rw [above]
  exact List.mem_of_getElem? (i := j - k) (by rw [List.getElem?_drop, Nat.add_sub_cancel' le, hi])

theorem subset : s.above ⊆ old.frames.above := by
  obtain ⟨k, -, -, -, above⟩ := b.left
  rw [above]
  exact List.drop_subset _ _

/-- Where neither mailboxes nor the stack change and no gate is opened, nothing becomes of the frames. -/
theorem same (refs : t.ref = s.ref) (above : t.above = s.above)
    (mailboxes : ∀ i, t.mailbox? i = s.mailbox? i) (gates : ∀ i, Shut s i → Shut t i) :
    Frames old told lost finished here duty t := by
  have same (i : Nat) : Finished t i ↔ Finished s i := by simp only [Finished, mailboxes]
  refine ⟨refs.trans b.refs, above ▸ b.left, fun j i hi => ?_, above ▸ b.served, b.waiting, b.serving,
    b.closing, fun i hi off => ?_, above ▸ b.off, fun i hi past => ?_, fun i hi => (same i).mpr (b.known i hi)⟩
  · obtain ⟨m, hm, box⟩ := b.boxes j i hi
    exact ⟨m, (mailboxes i).trans hm, box.mono fun _ on => above ▸ on⟩
  · exact (b.clearing i hi (above ▸ off)).imp_left (same i).mpr
  · exact (b.shut i hi ((same i).mp past)).imp_left (gates i)

/-- What is to be shown when one flow gets another duty and nothing else happens but to its frames. -/
structure Turn (old : Onset) (told : Nat) (duty : Nat → Duty) (s : FrameStack) (flow : Nat) (d : Duty)
    (t : FrameStack) : Prop where
  refs : t.ref = s.ref
  above : t.above ⊆ s.above
  finished : ∀ i, Finished s i → Finished t i
  gates : ∀ i, Shut s i → Shut t i
  served : ∀ i ∈ t.above, duty flow = .waits i ∨ duty flow = .serves i → d = .waits i ∨ d = .serves i
  waiting : ∀ i, d = .waits i → i ∈ old.frames.above
  serving : ∀ i, d = .serves i → Among old told i
  closing : ∀ i rest, d = .closes i rest → i ∈ old.frames.above
  clearing : ∀ i, i ∉ t.above → i ∈ s.above ∨ i ∈ (duty flow).pending → Finished t i ∨ i ∈ d.pending
  off : ∀ i ∈ d.pending, i ∈ old.frames.above ∧ i ∉ t.above
  shut : ∀ i, (Finished t i ∧ ¬Finished s i) ∨ (∃ rest, duty flow = .closes i rest) →
    Shut t i ∨ ∃ rest, d = .closes i rest

theorem turn {d : Duty} {told' : Nat} (there : here flow) (more : told ≤ told')
    (left : ∃ k, lost ≤ k ∧ k ≤ told' ∧ k ≤ old.frames.above.length ∧ t.above = old.frames.above.drop k)
    (boxes : ∀ j i, old.frames.above[j]? = some i → ∃ m, t.mailbox? i = some m ∧ Box old told' t j i m)
    (turns : Turn old told' duty s flow d t) :
    Frames old told' lost finished here (Function.update duty flow d) t where
  refs := turns.refs.trans b.refs
  left := left
  boxes := boxes
  served i hi := by
    obtain ⟨f, hf, serves⟩ := b.served i (turns.above hi)
    by_cases mine : f = flow
    · exact ⟨flow, there, by simpa using turns.served i hi (mine ▸ serves)⟩
    · exact ⟨f, hf, by simpa [Function.update_of_ne mine] using serves⟩
  waiting f i waits := by
    by_cases mine : f = flow
    · exact turns.waiting i (by simpa [mine] using waits)
    · exact b.waiting f i (by simpa [Function.update_of_ne mine] using waits)
  serving f i serves := by
    by_cases mine : f = flow
    · exact turns.serving i (by simpa [mine] using serves)
    · obtain ⟨j, lt, hj⟩ := b.serving f i (by simpa [Function.update_of_ne mine] using serves)
      exact ⟨j, by omega, hj⟩
  closing f i rest closes := by
    by_cases mine : f = flow
    · exact turns.closing i rest (by simpa [mine] using closes)
    · exact b.closing f i rest (by simpa [Function.update_of_ne mine] using closes)
  clearing i hi away := by
    have mine : Finished t i ∨ i ∈ d.pending →
        Finished t i ∨ ∃ f, here f ∧ i ∈ (Function.update duty flow d f).pending :=
      Or.imp_right fun pending => ⟨flow, there, by simpa using pending⟩
    by_cases gone : i ∈ s.above
    · exact mine (turns.clearing i away (.inl gone))
    · rcases b.clearing i hi gone with past | ⟨f, hf, pending⟩
      · exact .inl (turns.finished i past)
      · by_cases same : f = flow
        · exact mine (turns.clearing i away (.inr (same ▸ pending)))
        · exact .inr ⟨f, hf, by simpa [Function.update_of_ne same] using pending⟩
  off f i pending := by
    by_cases mine : f = flow
    · exact turns.off i (by simpa [mine] using pending)
    · obtain ⟨hi, away⟩ := b.off f i (by simpa [Function.update_of_ne mine] using pending)
      exact ⟨hi, fun on => away (turns.above on)⟩
  shut i hi past := by
    have mine : Shut t i ∨ (∃ rest, d = .closes i rest) →
        Shut t i ∨ ∃ f, here f ∧ ∃ rest, Function.update duty flow d f = .closes i rest :=
      Or.imp_right fun closes => ⟨flow, there, by simpa using closes⟩
    by_cases before : Finished s i
    · rcases b.shut i hi before with shut | ⟨f, hf, closes⟩
      · exact .inl (turns.gates i shut)
      · by_cases same : f = flow
        · exact mine (turns.shut i (.inr (same ▸ closes)))
        · exact .inr ⟨f, hf, by simpa [Function.update_of_ne same] using closes⟩
    · exact mine (turns.shut i (.inl ⟨past, before⟩))
  known i hi := turns.finished i (b.known i hi)

/-- One who waits at the mailbox of a frame goes on only once the frame is to exit. -/
theorem take {r : Mailbox.Next Request} (there : here flow) (mine : duty flow = .waits i)
    (h : s.perform flow isCancelled pick (.take i) = some (r, t)) :
    ∃ action, r = .exit action ∧ (old.frames.kind i = .debug → action = .stop) ∧
      Frames old told lost finished here (Function.update duty flow (.serves i)) t := by
  obtain ⟨j, hj⟩ := List.mem_iff_getElem?.mp (b.waiting flow i mine)
  obtain ⟨m, hm, box⟩ := b.boxes j i hj
  obtain ⟨action, exit⟩ : ∃ action, m.exit = some action := by
    rcases exit : m.exit with _ | action
    · have unfinished : m.finished = false := by
        refine Bool.eq_false_iff.mpr fun past => ?_
        have := box.exit.mpr (b.told_of_off hj (box.off past))
        simp [exit] at this
      simp [FrameStack.perform, hm, Mailbox.take?, exit, box.closed, unfinished, box.slot] at h
    · exact ⟨action, rfl⟩
  have taken : m.take? = some (.exit action, m) := by simp [Mailbox.take?, exit]
  simp only [FrameStack.perform, hm, taken, Option.map_some, Option.some.injEq, Prod.mk.injEq,
    FrameStack.modifyMailbox_of_eq hm] at h
  obtain ⟨rfl, rfl⟩ := h
  have first : j < told := box.exit.mp (by simp [exit])
  refine ⟨action, rfl, fun debug => box.stop debug action exit, b.turn there le_rfl b.left b.boxes ?_⟩
  constructor
  case served =>
    rintro i' - (waits | serves)
    · cases mine.symm.trans waits
      exact .inr rfl
    · cases mine.symm.trans serves
  case serving =>
    rintro _ ⟨⟩
    exact ⟨j, first, hj⟩
  case shut =>
    rintro i' (⟨past, before⟩ | ⟨rest, closes⟩)
    · exact absurd past before
    · cases mine.symm.trans closes
  case clearing => simp +contextual [mine, Duty.pending]
  case off => rintro _ ⟨⟩
  case waiting => rintro _ ⟨⟩
  case closing => rintro _ _ ⟨⟩
  case refs => rfl
  all_goals exact fun _ h => h

/-- One who was told to leave a frame takes it off the stack with whatever is still above it. -/
theorem remove (fit : Fit old) (there : here flow) (mine : duty flow = .serves i) :
    Frames old told lost finished here (Function.update duty flow (.clears (s.remove i).1))
      (s.remove i).2 := by
  obtain ⟨j, lt, hj⟩ := b.serving flow i mine
  obtain ⟨k, lostLe, leTold, inside, above⟩ := b.left
  obtain ⟨dropped, frames, gone⟩ := FrameStack.remove_drop fit.regular.nodup above hj
  generalize (s.remove i).1 = left at gone ⊢
  generalize (s.remove i).2 = t at dropped frames gone ⊢
  have mailboxes (i : Nat) : t.mailbox? i = s.mailbox? i := by
    simp only [FrameStack.mailbox?, FrameStack.get?, frames]
  have finishes (i : Nat) : Finished t i ↔ Finished s i := by simp only [Finished, mailboxes]
  have subset : t.above ⊆ s.above := by
    rw [dropped, above]
    exact List.drop_subset_drop_left _ (le_max_left _ _)
  have bound : j + 1 ≤ old.frames.above.length := (List.getElem?_eq_some_iff.mp hj).1
  refine b.turn there le_rfl ⟨_, lostLe.trans (le_max_left k (j + 1)), max_le leTold lt,
    max_le inside bound, dropped⟩ (fun j i hi => ?_) ?_
  · obtain ⟨m, hm, box⟩ := b.boxes j i hi
    exact ⟨m, (mailboxes i).trans hm, box.mono subset⟩
  constructor
  case refs => funext i; simp only [FrameStack.ref, FrameStack.get?, frames]
  case above => exact subset
  case finished => exact fun i => (finishes i).mpr
  case gates => simp only [Shut, FrameStack.get?, frames, imp_self, implies_true]
  case served =>
    rintro i' on (waits | serves)
    · cases mine.symm.trans waits
    · cases mine.symm.trans serves
      -- the frame itself is off the stack now
      rw [dropped] at on
      obtain ⟨n, hn⟩ := List.mem_iff_getElem?.mp on
      rw [List.getElem?_drop] at hn
      have := place_unique fit hj hn
      omega
  case clearing =>
    rintro i' off (on | pending)
    · exact .inr ((gone i').mpr ⟨on, off⟩)
    · simp [mine, Duty.pending] at pending
  case off =>
    intro i' hi
    obtain ⟨on, off⟩ := (gone i').mp hi
    exact ⟨b.subset on, off⟩
  case shut =>
    rintro i' (⟨past, before⟩ | ⟨rest, closes⟩)
    · exact absurd ((finishes i').mp past) before
    · cases mine.symm.trans closes
  case waiting => rintro _ ⟨⟩
  case serving => rintro _ ⟨⟩
  case closing => rintro _ _ ⟨⟩

/-- The mailbox of a frame that is off the stack is disposed. -/
theorem dispose {rest : List Nat} (fit : Fit old) (there : here flow) (mine : duty flow = .clears (i :: rest)) :
    Frames old told lost finished here (Function.update duty flow (.closes i rest))
      (s.modifyMailbox i Mailbox.dispose) := by
  have off (i' : Nat) (hi : i' ∈ i :: rest) : i' ∈ old.frames.above ∧ i' ∉ s.above :=
    b.off flow i' (by rwa [mine])
  obtain ⟨j, hj⟩ := List.mem_iff_getElem?.mp (off i List.mem_cons_self).1
  obtain ⟨m, hm, box⟩ := b.boxes j i hj
  obtain ⟨disposed, past⟩ := box.dispose (t := s.modifyMailbox i Mailbox.dispose)
    (b.told_of_off hj (off i List.mem_cons_self).2) (off i List.mem_cons_self).2
  have mine' : (s.modifyMailbox i Mailbox.dispose).mailbox? i = some m.dispose := by
    rw [FrameStack.mailbox?_modifyMailbox, if_pos rfl, hm, Option.map_some]
  have other {i' : Nat} (ne : i' ≠ i) :
      (s.modifyMailbox i Mailbox.dispose).mailbox? i' = s.mailbox? i' := by
    rw [FrameStack.mailbox?_modifyMailbox, if_neg ne]
  refine b.turn there le_rfl b.left (fun j' i' hi => ?_) ?_
  · by_cases same : i' = i
    · subst same
      exact ⟨_, mine', place_unique fit hj hi ▸ disposed⟩
    · obtain ⟨m', hm', box'⟩ := b.boxes j' i' hi
      exact ⟨m', (other same).trans hm', box'.mono (List.Subset.refl _)⟩
  constructor
  case refs => exact FrameStack.ref_modifyMailbox _
  case above => exact fun _ on => on
  case finished =>
    rintro i' ⟨m', hm', past'⟩
    by_cases same : i' = i
    · exact ⟨_, same ▸ mine', past⟩
    · exact ⟨m', (other same).trans hm', past'⟩
  case gates => exact fun i' => Shut.modify fun _ closed => closed
  case served => simp [mine]
  case clearing =>
    rintro i' off' (on | pending)
    · exact absurd on off'
    · rw [mine] at pending
      rcases List.mem_cons.mp pending with rfl | pending
      · exact .inl ⟨_, mine', past⟩
      · exact .inr pending
  case off => exact fun i' hi => off i' (List.mem_cons_of_mem i hi)
  case shut =>
    rintro i' (⟨⟨m', hm', past'⟩, before⟩ | ⟨_, closes⟩)
    · by_cases same : i' = i
      · exact .inr ⟨rest, by rw [same]⟩
      · exact absurd ⟨m', (other same).symm.trans hm', past'⟩ before
    · cases mine.symm.trans closes
  case waiting => rintro _ ⟨⟩
  case serving => rintro _ ⟨⟩
  case closing =>
    rintro _ _ ⟨⟩
    exact (off i List.mem_cons_self).1

/-- The gate of a frame is closed whose mailbox is disposed. -/
theorem closeGate {rest : List Nat} (there : here flow) (mine : duty flow = .closes i rest) :
    Frames old told lost finished here (Function.update duty flow (.clears rest))
      (s.modifyGate i Gate.close) := by
  have mailboxes (i' : Nat) : (s.modifyGate i Gate.close).mailbox? i' = s.mailbox? i' :=
    FrameStack.mailbox?_modifyGate _
  have finishes (i' : Nat) : Finished (s.modifyGate i Gate.close) i' ↔ Finished s i' := by
    simp only [Finished, mailboxes]
  refine b.turn there le_rfl b.left (fun j' i' hi => ?_) ?_
  · obtain ⟨m, hm, box⟩ := b.boxes j' i' hi
    exact ⟨m, (mailboxes i').trans hm, box.mono (List.Subset.refl _)⟩
  constructor
  case refs => exact FrameStack.ref_modifyGate _
  case above => exact fun _ on => on
  case finished => exact fun i' => (finishes i').mpr
  case gates => exact fun i' => Shut.modify fun _ _ => rfl
  case served => simp [mine]
  case clearing =>
    rintro i' off (on | pending)
    · exact absurd on off
    · exact .inr (by rwa [mine] at pending)
  case off => exact fun i' hi => b.off flow i' (by rwa [mine])
  case shut =>
    rintro i' (⟨past, before⟩ | ⟨_, closes⟩)
    · exact absurd ((finishes i').mp past) before
    · cases mine.symm.trans closes
      obtain ⟨j, hj⟩ := List.mem_iff_getElem?.mp (b.closing flow i rest mine)
      obtain ⟨m, hm, -⟩ := b.boxes j i hj
      obtain ⟨f, hf, -⟩ := Option.bind_eq_some_iff.mp hm
      exact .inl ⟨_, (FrameStack.get?_modify _).trans (congrArg _ hf), by simp⟩
  case waiting => rintro _ ⟨⟩
  case serving => rintro _ ⟨⟩
  case closing => rintro _ _ ⟨⟩

/-- One who is done with frames goes away. -/
theorem leave (free : duty flow = .clears []) :
    Frames old told lost finished (fun f => here f ∧ f ≠ flow) duty s := by
  refine { b with served := fun i hi => ?_, clearing := fun i hi off => ?_, shut := fun i hi past => ?_ }
  · obtain ⟨f, hf, serves⟩ := b.served i hi
    exact ⟨f, ⟨hf, by rintro rfl; simp [free] at serves⟩, serves⟩
  · refine (b.clearing i hi off).imp_right ?_
    rintro ⟨f, hf, pending⟩
    exact ⟨f, ⟨hf, by rintro rfl; simp [free, Duty.pending] at pending⟩, pending⟩
  · refine (b.shut i hi past).imp_right ?_
    rintro ⟨f, hf, rest, closes⟩
    exact ⟨f, ⟨hf, by rintro rfl; simp [free] at closes⟩, rest, closes⟩

/-! ## The flow that disposes the broker -/

theorem live_eq : ∃ k, lost ≤ k ∧ k ≤ told ∧ k ≤ old.frames.above.length ∧
    s.above = old.frames.above.drop k ∧ s.live.map s.ref = Teardown.refs old k ∧
    old.frames.live.length - (Teardown.refs old k).length = k := by
  obtain ⟨k, lostLe, leTold, inside, above⟩ := b.left
  refine ⟨k, lostLe, leTold, inside, above, ?_, ?_⟩
  · rw [b.refs, Teardown.refs, FrameStack.live, FrameStack.live, above, List.drop_append_of_le_length inside]
  · simp only [Teardown.refs, FrameStack.live, List.length_map, List.length_append, List.length_drop,
      List.length_cons, List.length_nil]
    omega

/-- It has seen which frames are left. -/
theorem look {k : Nat} (leTold : k ≤ told) (inside : k ≤ old.frames.above.length)
    (above : s.above = old.frames.above.drop k) : Frames old told k finished here duty s :=
  { b with left := ⟨k, le_rfl, leTold, inside, above⟩ }

/-- A frame is told to exit once those above it have been. -/
theorem tryExit (fit : Fit old) {action : ResumeAction} {r : Bool} (among : Among old (told + 1) i)
    (stop : old.frames.kind i = .debug → action = .stop)
    (h : s.perform flow isCancelled pick (.tryExit i action) = some (r, t)) :
    Frames old (max told (old.frames.above.idxOf i + 1)) lost finished here duty t := by
  obtain ⟨j, le, hj⟩ := among
  obtain ⟨m, hm, box⟩ := b.boxes j i hj
  have place : old.frames.above.idxOf i = j := by
    obtain ⟨lt, rfl⟩ := List.getElem?_eq_some_iff.mp hj
    exact idxOf_getElem fit lt
  rw [place]
  by_cases first : j < told
  · -- it was told before
    have past : m.isOver := by simp [Mailbox.isOver, box.exit.mpr first]
    simp only [FrameStack.perform, hm, Mailbox.tryExit, past, if_true, Option.some.injEq, Prod.mk.injEq,
      FrameStack.modifyMailbox_of_eq hm] at h
    rw [max_eq_left (by omega), ← h.2]
    exact b
  · obtain rfl : j = told := by omega
    have exit : m.exit = none := by
      rw [← Option.not_isSome_iff_eq_none, box.exit]
      exact first
    have unfinished : m.finished = false :=
      Bool.eq_false_iff.mpr fun past => first (b.told_of_off hj (box.off past))
    have past : m.isOver = false := by simp [Mailbox.isOver, exit, box.closed, unfinished]
    simp only [FrameStack.perform, hm, Mailbox.tryExit, past, Bool.false_eq_true, if_false,
      Option.some.injEq, Prod.mk.injEq] at h
    obtain ⟨-, rfl⟩ := h
    generalize hn : Mailbox.wakeWaiting _ = n
    obtain ⟨slot, server, closed, finished', exit'⟩ : n.slot = m.slot ∧ n.server = m.server ∧
        n.closed = m.closed ∧ n.finished = m.finished ∧ n.exit = some action := by
      subst hn
      exact ⟨rfl, rfl, rfl, rfl, rfl⟩
    have mine : (s.modifyMailbox i fun _ => n).mailbox? i = some n := by
      rw [FrameStack.mailbox?_modifyMailbox, if_pos rfl, hm, Option.map_some]
    have other {i' : Nat} (ne : i' ≠ i) : (s.modifyMailbox i fun _ => n).mailbox? i' = s.mailbox? i' := by
      rw [FrameStack.mailbox?_modifyMailbox, if_neg ne]
    have finishes (i' : Nat) : Finished (s.modifyMailbox i fun _ => n) i' ↔ Finished s i' := by
      by_cases same : i' = i
      · subst same
        simp [Finished, mine, hm, finished']
      · simp only [Finished, other same]
    rw [max_eq_right (by omega)]
    refine ⟨(FrameStack.ref_modifyMailbox _).trans b.refs, ?_, fun j' i' hi => ?_, b.served, b.waiting,
      fun f i' serves => ?_, b.closing, fun i' hi off => ?_, b.off, fun i' hi past => ?_,
      fun i' hi => (finishes i').mpr (b.known i' hi)⟩
    · obtain ⟨k, lostLe, leTold, rest⟩ := b.left
      exact ⟨k, lostLe, by omega, rest⟩
    · by_cases same : i' = i
      · subst same
        obtain rfl := place_unique fit hi hj
        refine ⟨n, mine, slot.trans box.slot, server ▸ box.server, ?_, by simp [exit'], fun debug => ?_,
          fun past => box.off (finished' ▸ past)⟩
        · rw [closed, finished', box.closed]
        · simpa [exit'] using stop debug
      · obtain ⟨m', hm', box'⟩ := b.boxes j' i' hi
        have ne : j' ≠ j := fun eq => same (Option.some.inj (hi.symm.trans (eq ▸ hj)))
        refine ⟨m', (other same).trans hm', box'.slot, box'.server, box'.closed, ?_, box'.stop, box'.off⟩
        rw [box'.exit]
        omega
    · obtain ⟨j', lt, hj'⟩ := b.serving f i' serves
      exact ⟨j', by omega, hj'⟩
    · exact (b.clearing i' hi off).imp_left (finishes i').mpr
    · exact (b.shut i' hi ((finishes i').mp past)).imp_left (Shut.modify fun _ closed => closed)

/-- The frames that are left have servers. -/
theorem hasServer (hi : i ∈ old.frames.above) : ((s.mailbox? i).bind (·.server)).isSome := by
  obtain ⟨j, hj⟩ := List.mem_iff_getElem?.mp hi
  obtain ⟨m, hm, box⟩ := b.boxes j i hj
  simpa [hm] using box.server

/-- It has waited for a frame to be torn down. -/
theorem awaitFinish (hi : i ∈ old.frames.above) {r : Unit}
    (h : s.perform flow isCancelled pick (.awaitFinish i) = some (r, t)) :
    Frames old told lost (i :: finished) here duty s := by
  obtain ⟨j, hj⟩ := List.mem_iff_getElem?.mp hi
  obtain ⟨m, hm, box⟩ := b.boxes j i hj
  have past : m.finished := by
    simp only [FrameStack.perform, hm] at h
    split at h
    · assumption
    · cases h
  exact { b with known := List.forall_mem_cons.mpr ⟨⟨m, hm, past⟩, b.known⟩ }

end Frames

end Teardown

end SessionBroker
