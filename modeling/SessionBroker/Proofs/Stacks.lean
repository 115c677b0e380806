import SessionBroker.Proofs.Parts
import SessionBroker.Proofs.Plays

/-!
# Stacks of frames

Whatever happens, frames are numbered in order, the first one is the top level's and has no mailbox, and
every frame on the stack lies on older ones. To take a frame off the stack is to leave what lies below
it.
-/

namespace SessionBroker

namespace FrameStack

variable {s t : FrameStack} {i j k flow : Nat} {isCancelled : Option Token → Bool} {pick : Bool}
  {op : FrameOp} {r : op.Reply}

/-! ## What one knows of a frame -/

theorem ref_modify {f : Frame → Frame} (keeps : ∀ fr, (f fr).id = fr.id ∧ (f fr).kind = fr.kind ∧
    (f fr).remote = fr.remote ∧ (f fr).mailbox.isSome = fr.mailbox.isSome) :
    (s.modify i f).ref = s.ref := by
  funext j
  simp only [ref, get?_modify]
  rcases s.get? j with _ | fr
  · rfl
  · by_cases mine : i = j
    · simp [mine, keeps fr]
    · simp [mine]

@[simp] theorem ref_modifyMailbox (f : Mailbox Request Response → Mailbox Request Response) :
    (s.modifyMailbox i f).ref = s.ref :=
  ref_modify fun fr => ⟨rfl, rfl, rfl, by simp⟩

@[simp] theorem ref_modifyGate (f : Gate → Gate) : (s.modifyGate i f).ref = s.ref :=
  ref_modify fun _ => ⟨rfl, rfl, rfl, rfl⟩

theorem ref_kind : (s.ref i).kind = s.kind i := by
  unfold ref kind
  cases s.get? i <;> rfl

theorem ref_hasMailbox : (s.ref i).hasMailbox = (s.mailbox? i).isSome := by
  unfold ref mailbox?
  cases s.get? i <;> rfl

theorem mailbox?_modifyGate (f : Gate → Gate) : (s.modifyGate i f).mailbox? j = s.mailbox? j := by
  simp only [mailbox?, modifyGate, get?_modify]
  cases s.get? j with
  | none => rfl
  | some fr => by_cases same : i = j <;> simp [same]

/-- To put a mailbox back changes nothing. -/
theorem modifyMailbox_of_eq {m : Mailbox Request Response} (here : s.mailbox? i = some m) :
    s.modifyMailbox i (fun _ => m) = s := by
  obtain ⟨frames, above⟩ := s
  simp only [modifyMailbox, modify, mk.injEq, and_true]
  refine List.ext_getElem? fun j => ?_
  rw [List.getElem?_modify]
  rcases found : frames[j]? with _ | fr
  · rfl
  · by_cases same : i = j
    · subst same
      obtain ⟨id, kind, remote, gate, mailbox⟩ := fr
      obtain rfl : mailbox = some m := by simpa [mailbox?, get?, found] using here
      simp
    · simp [same]

theorem ref_push (kind : FrameKind) (remote : Bool) : (s.push kind remote).2.ref j =
    if j = s.frames.length then
      ⟨j, kind, remote, kind ≠ .topLevel || s.live.any fun i => (s.mailbox? i).isSome⟩
    else s.ref j := by
  simp only [ref, get?, push]
  rcases Nat.lt_trichotomy j s.frames.length with before | rfl | behind
  · rw [List.getElem?_append_left before, if_neg before.ne]
  · rw [List.getElem?_append_right (Nat.le_refl _)]
    have made (b : Bool) : (if b then some (Mailbox.new : Mailbox Request Response) else none).isSome = b := by
      cases b <;> rfl
    simp only [Nat.sub_self, List.getElem?_cons_zero, Frame.new, made, if_true]
  · rw [List.getElem?_eq_none behind.le, List.getElem?_eq_none (by simp; omega), if_neg behind.ne']

/-- What one knows of a frame stays. -/
theorem ref_perform (push : ∀ kind remote, op ≠ .push kind remote)
    (h : s.perform flow isCancelled pick op = some (r, t)) : t.ref = s.ref := by
  cases op
  case push kind remote => exact absurd rfl (push kind remote)
  case remove i =>
    obtain rfl : (s.remove i).2 = t := congrArg Prod.snd (Option.some.inj h)
    unfold remove
    split <;> rfl
  case look | lookMail =>
    simp only [perform] at h
    split at h
    · cases h
      rfl
    · split at h <;> cases h
      simp
  case ask | tryExit =>
    simp only [perform] at h
    split at h <;> cases h
    · rfl
    · exact ref_modifyMailbox _
  case take =>
    simp only [perform] at h
    split at h
    · cases h
      rfl
    · obtain ⟨_, -, h⟩ := Option.map_eq_some_iff.mp h
      cases h
      exact ref_modifyMailbox _
  case awaitExit =>
    simp only [perform] at h
    split at h
    · cases h
      rfl
    · obtain ⟨_, -, h⟩ := Option.map_eq_some_iff.mp h
      cases h
      rfl
  case awaitFinish =>
    simp only [perform] at h
    split at h
    · cases h
      rfl
    · split at h <;> cases h
      rfl
  case dispose | attach | answer => cases h; exact ref_modifyMailbox _
  case closeGate | release => cases h; exact ref_modifyGate _
  case current | live | hasExited | hasServer | isServer => cases h; rfl

/-! ## What lies on the stack -/

/-- Frames come to the stack and leave it by steps of their own. -/
theorem above_perform (push : ∀ kind remote, op ≠ .push kind remote) (remove : ∀ i, op ≠ .remove i)
    (h : s.perform flow isCancelled pick op = some (r, t)) : t.above = s.above := by
  cases op
  case push kind remote => exact absurd rfl (push kind remote)
  case remove i => exact absurd rfl (remove i)
  case look | lookMail =>
    simp only [perform] at h
    split at h
    · cases h
      rfl
    · split at h <;> cases h
      rfl
  case ask | tryExit =>
    simp only [perform] at h
    split at h <;> cases h <;> rfl
  case take | awaitExit =>
    simp only [perform] at h
    split at h
    · cases h
      rfl
    · obtain ⟨_, -, h⟩ := Option.map_eq_some_iff.mp h
      cases h
      rfl
  case awaitFinish =>
    simp only [perform] at h
    split at h
    · cases h
      rfl
    · split at h <;> cases h
      rfl
  all_goals cases h; rfl

theorem remove_of_not_mem (away : i ∉ s.above) : s.remove i = ([], s) :=
  if_neg (by simpa using away)

theorem remove_of_split {upper lower : List Nat} (split : s.above = upper ++ i :: lower)
    (new : i ∉ upper) : s.remove i = (upper ++ [i], { s with above := lower }) := by
  have here : s.above.contains i := by simp [split]
  have dropped : s.above.dropWhile (· ≠ i) = i :: lower := by
    have passed : ∀ a ∈ upper, decide (a ≠ i) := fun a ha => by
      simpa using fun same : a = i => new (same ▸ ha)
    rw [split, List.dropWhile_append_of_pos passed]
    simp
  have taken : s.above.take (s.above.length - lower.length) = upper ++ [i] := by
    have front : s.above = (upper ++ [i]) ++ lower := by simp [split]
    rw [front, List.length_append, Nat.add_sub_cancel, List.take_left]
  simp only [remove, here, if_true, dropped, List.drop_one, List.tail_cons, taken]

/-- To take a frame off is to leave the frames below it: of a stack that has lost its first frames
already, at least those as far as this one are lost now. -/
theorem remove_drop {all : List Nat} (nodup : all.Nodup) (above : s.above = all.drop k)
    (here : all[j]? = some i) : (s.remove i).2.above = all.drop (max k (j + 1)) ∧
      (s.remove i).2.frames = s.frames ∧
      ∀ x, x ∈ (s.remove i).1 ↔ x ∈ s.above ∧ x ∉ (s.remove i).2.above := by
  obtain ⟨inside, rfl⟩ := List.getElem?_eq_some_iff.mp here
  have split : all = all.take j ++ all[j] :: all.drop (j + 1) := by simp
  rw [split, List.nodup_middle, List.nodup_cons] at nodup
  have away : all[j] ∉ all.take j ∧ all[j] ∉ all.drop (j + 1) := by simpa using nodup.1
  by_cases gone : j < k
  · have off : all[j] ∉ s.above := fun mem =>
      away.2 (List.drop_subset_drop_left all gone (above ▸ mem))
    rw [remove_of_not_mem off, max_eq_left (by omega)]
    exact ⟨above, rfl, by simp⟩
  · have parted : s.above = (all.take j).drop k ++ all[j] :: all.drop (j + 1) := by
      conv_lhs => rw [above, split]
      rw [List.drop_append_of_le_length (by simp; omega)]
    have new : all[j] ∉ (all.take j).drop k := fun mem => away.1 (List.mem_of_mem_drop mem)
    rw [remove_of_split parted new, max_eq_right (by omega)]
    refine ⟨rfl, rfl, fun x => ?_⟩
    have apart : x ∈ (all.take j).drop k → x ∉ all.drop (j + 1) := fun front back =>
      List.disjoint_of_nodup_append nodup.2 (List.mem_of_mem_drop front) back
    simp only [parted, List.mem_append, List.mem_cons, List.not_mem_nil, or_false]
    constructor
    · rintro (front | rfl)
      · exact ⟨.inl front, apart front⟩
      · exact ⟨.inr (.inl rfl), away.2⟩
    · rintro ⟨front | rfl | back, off⟩
      · exact .inl front
      · exact .inr rfl
      · exact absurd back off

/-! ## Stacks that come about -/

/-- Frames are numbered in order, the top level's has no mailbox, and those above lie on older ones. -/
structure Regular (s : FrameStack) : Prop where
  ids : ∀ i, (s.ref i).id = i
  bottom : s.ref 0 = ⟨0, .topLevel, false, false⟩
  some : 0 < s.frames.length
  falling : s.above.Pairwise (· > ·)
  range : ∀ i ∈ s.above, 0 < i ∧ i < s.frames.length

theorem regular_new : Regular new where
  ids i := by cases i <;> rfl
  bottom := rfl
  some := Nat.one_pos
  falling := .nil
  range := by rintro _ ⟨⟩

namespace Regular

theorem nodup (regular : s.Regular) : s.above.Nodup :=
  regular.falling.imp fun above => above.ne'

/-- The stack is the only thing that has changed, and only by frames that left. -/
theorem shrink (regular : s.Regular) (refs : t.ref = s.ref) (length : t.frames.length = s.frames.length)
    (above : t.above.Sublist s.above) : t.Regular where
  ids := by rw [refs]; exact regular.ids
  bottom := by rw [refs]; exact regular.bottom
  some := length ▸ regular.some
  falling := regular.falling.sublist above
  range i hi := length ▸ regular.range i (above.subset hi)

theorem push (regular : s.Regular) (kind : FrameKind) (remote : Bool) :
    (s.push kind remote).2.Regular where
  ids i := by
    rw [ref_push]
    split
    · rfl
    · exact regular.ids i
  bottom := by rw [ref_push, if_neg regular.some.ne, regular.bottom]
  some := by simp [FrameStack.push]
  falling := List.pairwise_cons.mpr ⟨fun i hi => (regular.range i hi).2, regular.falling⟩
  range := by
    have length : (s.push kind remote).2.frames.length = s.frames.length + 1 := by
      simp [FrameStack.push]
    intro i hi
    rcases List.mem_cons.mp hi with rfl | old
    · exact ⟨regular.some, by omega⟩
    · have := regular.range i old
      omega

theorem perform (regular : s.Regular) (h : s.perform flow isCancelled pick op = .some (r, t)) :
    t.Regular := by
  by_cases push : ∀ kind remote, op ≠ .push kind remote
  · refine regular.shrink (ref_perform push h) (length_perform push h) ?_
    by_cases remove : ∀ i, op ≠ .remove i
    · rw [above_perform push remove h]
    · obtain ⟨i, rfl⟩ : ∃ i, op = .remove i := by simpa using remove
      obtain rfl : (s.remove i).2 = t := congrArg Prod.snd (Option.some.inj h)
      unfold FrameStack.remove
      split
      · exact (List.drop_sublist _ _).trans (List.dropWhile_sublist _)
      · exact .refl _
  · obtain ⟨kind, remote, rfl⟩ : ∃ kind remote, op = .push kind remote := by
      simpa only [ne_eq, not_forall, not_not] using push
    cases h
    exact regular.push kind remote

end Regular

end FrameStack

/-- Whatever happens to a broker, its stack of frames stays regular. -/
theorem Play.regular_moves {p : Play} (regular : p.config.shared.frames.Regular) (ms : List Move) :
    (p.moves ms).config.shared.frames.Regular := by
  refine moves_keep (P := fun p => p.config.shared.frames.Regular) (fun p m regular => ?_) regular ms
  rcases shared_move p m with same | ⟨change, -, changed⟩ | ⟨flow, pick, action, r, -, -, performed⟩
  · rwa [same]
  · rw [changed]
    cases change with
    | cancel token =>
      refine regular.shrink (funext fun i => ?_) (List.length_map _) (.refl _)
      simp only [Outside.apply, World.cancel, FrameStack.ref, FrameStack.get?, List.getElem?_map]
      cases p.config.shared.frames.frames[i]? <;> rfl
    | _ => exact regular
  · by_cases frames : ∀ op, action ≠ .frames op
    · rwa [World.frames_perform frames performed]
    · obtain ⟨op, rfl⟩ : ∃ op, action = .frames op := by simpa using frames
      exact regular.perform (World.frames_step performed)

end SessionBroker
