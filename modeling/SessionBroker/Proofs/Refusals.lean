import Mathlib.Data.List.Chain
import SessionBroker.Proofs.Stops

/-!
# Resuming nothing

One who is told that there was nothing to resume has told the nested prompts on top of the stack to go on
all the same, and has waited until they were left. Apart from these prompts he leaves everything as he found
it.
-/

namespace SessionBroker

namespace FrameStack

/-- Apart from some frames the same is on two stacks. -/
structure SameAbove (apart : List Nat) (s t : FrameStack) : Prop where
  length : t.frames.length = s.frames.length
  above : t.above.filter (· ∉ apart) = s.above.filter (· ∉ apart)

/-- Apart from some frames two stacks are the same, and so is what each frame was told to exit with. -/
structure SameApart (apart : List Nat) (s t : FrameStack) : Prop extends SameAbove apart s t where
  exits : ∀ i < s.frames.length, i ∉ apart → t.exit? i = s.exit? i

/-- The nested prompts on top of a stack. -/
def topPrompts (s : FrameStack) : List Nat := s.above.takeWhile (s.kind · = .nestedPrompt)

/-- What lies below them, but for the bottom. -/
def belowPrompts (s : FrameStack) : List Nat := s.above.dropWhile (s.kind · = .nestedPrompt)

/-- A stack is what is left of another one when the nested prompts on top have been left. -/
structure Unprompted (s t : FrameStack) : Prop where
  length : t.frames.length = s.frames.length
  above : t.above = s.belowPrompts
  exits : ∀ i ∉ s.topPrompts, t.exit? i = s.exit? i
  level : t.nestedPromptLevel + s.topPrompts.length = s.nestedPromptLevel

variable {apart : List Nat} {s t u : FrameStack} {op : FrameOp} {r : op.Reply} {flow : Nat}
  {isCancelled : Option Token → Bool} {pick : Bool}

instance : Decidable (SameApart apart s t) :=
  decidable_of_iff (t.frames.length = s.frames.length ∧ t.above.filter (· ∉ apart) = s.above.filter (· ∉ apart) ∧
    ∀ i < s.frames.length, i ∉ apart → t.exit? i = s.exit? i)
    ⟨fun ⟨length, above, exits⟩ => ⟨⟨length, above⟩, exits⟩, fun ⟨⟨length, above⟩, exits⟩ => ⟨length, above, exits⟩⟩

theorem SameAbove.refl : SameAbove apart s s := ⟨rfl, rfl⟩

theorem SameAbove.trans (st : SameAbove apart s t) (tu : SameAbove apart t u) : SameAbove apart s u :=
  ⟨tu.length.trans st.length, tu.above.trans st.above⟩

theorem SameApart.refl : SameApart apart s s := ⟨.refl, fun _ _ _ => rfl⟩

theorem SameApart.trans (st : SameApart apart s t) (tu : SameApart apart t u) : SameApart apart s u where
  toSameAbove := st.toSameAbove.trans tu.toSameAbove
  exits i known other := (tu.exits i (st.length ▸ known) other).trans (st.exits i known other)

/-- A step that pushes and removes nothing leaves the stack as it is. -/
theorem SameAbove.perform (steady : Action.IsSteady (.frames op))
    (h : s.perform flow isCancelled pick op = some (r, t)) : SameAbove apart s t := by
  have push : ∀ kind remote, op ≠ .push kind remote := by rintro _ _ rfl; exact steady
  have remove : ∀ i, op ≠ .remove i := by rintro _ rfl; exact steady
  exact ⟨length_perform push h, by rw [above_perform push remove h]⟩

/-- A step that disposes nothing either changes no exit but the one that it sets. -/
theorem SameApart.perform (steady : Action.IsSteady (.frames op))
    (h : s.perform flow isCancelled pick op = some (r, t))
    (sets : ∀ i y, op = .tryExit i y → HEq r true → i ∈ apart) : SameApart apart s t := by
  have push : ∀ kind remote, op ≠ .push kind remote := by rintro _ _ rfl; exact steady
  have dispose : ∀ i, op ≠ .dispose i := by rintro _ rfl; exact steady
  refine ⟨.perform steady h, fun i _ other => ?_⟩
  by_cases tryExit : ∀ i y, op ≠ .tryExit i y
  · rw [exit?_eq, exit?_eq, standing_perform push tryExit dispose h]
  · obtain ⟨j, y, rfl⟩ : ∃ j y, op = .tryExit j y := by simpa using tryExit
    rcases tryExit_perform h with ⟨-, rfl⟩ | ⟨rfl, -, stands, -⟩
    · rfl
    · have different : i ≠ j := fun same => other (same ▸ sets j y rfl .rfl)
      rw [exit?_eq, exit?_eq, stands, Function.update_of_ne different]

theorem topPrompts_append : s.topPrompts ++ s.belowPrompts = s.above := List.takeWhile_append_dropWhile

theorem kind_of_topPrompts {i : Nat} (top : i ∈ s.topPrompts) : s.kind i = .nestedPrompt := by
  simpa using List.mem_takeWhile_imp top

/-- What lies directly below the prompts on top is no prompt. -/
theorem kind_of_belowPrompts {i : Nat} {rest : List Nat} (below : s.belowPrompts = i :: rest) :
    s.kind i ≠ .nestedPrompt := by
  have first := List.head?_dropWhile_not (s.kind · = .nestedPrompt) s.above
  rw [show s.above.dropWhile _ = _ from below] at first
  simpa using first

/-- Apart from the nested prompts on top there is what lies below them. -/
theorem filter_topPrompts (regular : s.Regular) : s.above.filter (· ∉ s.topPrompts) = s.belowPrompts := by
  have nodup := regular.nodup
  rw [← s.topPrompts_append] at nodup
  have below : ∀ i ∈ s.belowPrompts, i ∉ s.topPrompts := fun i low top => List.disjoint_of_nodup_append nodup top low
  conv_lhs => rw [← s.topPrompts_append]
  rw [List.filter_append, List.filter_eq_nil_iff.mpr fun i top => by simpa using top, List.nil_append]
  exact List.filter_eq_self.mpr fun i low => by simpa using below i low

/-- If nothing was changed but the nested prompts on top, those on top later on were on top before. -/
theorem topPrompts_subset (regular : s.Regular) (still : t.Regular) (later : s.Later t)
    (same : SameAbove s.topPrompts s t) : t.topPrompts ⊆ s.topPrompts := by
  intro i top
  by_contra other
  have stays : ∀ j, j ∈ s.belowPrompts ↔ j ∈ t.above ∧ j ∉ s.topPrompts := fun j => by
    rw [← filter_topPrompts regular, ← same.above]
    simp
  have low : i ∈ s.belowPrompts := (stays i).mpr ⟨(List.takeWhile_prefix _).subset top, other⟩
  -- the first frame below the prompts is no prompt, and so there are no prompts below it either
  obtain ⟨d, rest, below⟩ := List.exists_cons_of_ne_nil (List.ne_nil_of_mem low)
  have first : d ∈ s.belowPrompts := below ▸ List.mem_cons_self
  have known : d < s.frames.length := (regular.range d ((List.dropWhile_suffix _).subset first)).2
  have noPrompt : t.kind d ≠ .nestedPrompt := by
    rw [← ref_kind, later.refs d known, ref_kind]
    exact kind_of_belowPrompts below
  have high : d < i := by
    have falling := still.falling
    rw [← t.topPrompts_append] at falling
    refine (List.pairwise_append.mp falling).2.2 i top d ?_
    have here := ((stays d).mp first).1
    rw [← t.topPrompts_append] at here
    exact (List.mem_append.mp here).resolve_left fun prompt => noPrompt (kind_of_topPrompts prompt)
  have falling := regular.falling.sublist (List.dropWhile_sublist (s.kind · = .nestedPrompt))
  rw [show s.above.dropWhile _ = _ from below] at falling
  rcases List.mem_cons.mp (below ▸ low) with rfl | deeper
  · exact high.ne rfl
  · exact absurd ((List.pairwise_cons.mp falling).1 i deeper) high.asymm

/-- A nested prompt that was on top is so as long as it is on the stack. -/
theorem mem_topPrompts {i : Nat} (regular : s.Regular) (still : t.Regular) (later : s.Later t)
    (length : t.frames.length = s.frames.length) (top : i ∈ s.topPrompts) (here : i ∈ t.above) :
    i ∈ t.topPrompts := by
  by_contra covered
  have kinds : ∀ j ∈ t.above, t.kind j = s.kind j := fun j hj => by
    rw [← ref_kind, later.refs j (length ▸ (still.range j hj).2), ref_kind]
  have low : i ∈ t.belowPrompts := by
    rw [← t.topPrompts_append] at here
    exact (List.mem_append.mp here).resolve_left covered
  -- something that is no prompt would lie on it, and that lay below it
  obtain ⟨d, rest, below⟩ := List.exists_cons_of_ne_nil (List.ne_nil_of_mem low)
  have there : d ∈ t.above := (List.dropWhile_suffix _).subset (show d ∈ t.belowPrompts from below ▸ List.mem_cons_self)
  have noPrompt : s.kind d ≠ .nestedPrompt := kinds d there ▸ kind_of_belowPrompts below
  have high : i < d := by
    have falling := still.falling.sublist (List.dropWhile_sublist (t.kind · = .nestedPrompt))
    rw [show t.above.dropWhile _ = _ from below] at falling
    rcases List.mem_cons.mp (below ▸ low) with rfl | deeper
    · exact absurd (kind_of_topPrompts top) noPrompt
    · exact (List.pairwise_cons.mp falling).1 i deeper
  have before : d ∈ s.above := by
    refine later.left.subset (List.mem_filter.mpr ⟨there, ?_⟩)
    simpa [length] using (still.range d there).2
  have falling := regular.falling
  rw [← s.topPrompts_append] at before falling
  rcases List.mem_append.mp before with prompt | under
  · exact noPrompt (kind_of_topPrompts prompt)
  · exact absurd ((List.pairwise_append.mp falling).2.2 i top d under) high.asymm

/-- The prompts on top are what one sees of them. -/
theorem promptsOnTop_live (regular : s.Regular) : promptsOnTop (s.live.map s.ref) = s.topPrompts.map s.ref := by
  have bottom : s.kind 0 ≠ .nestedPrompt := by
    rw [← ref_kind, regular.bottom]
    simp
  have same : (fun f : FrameRef => decide (f.kind = .nestedPrompt)) ∘ s.ref = fun i => decide (s.kind i = .nestedPrompt) :=
    funext fun i => by simp [ref_kind]
  rw [promptsOnTop, List.takeWhile_map, same, live, List.takeWhile_append]
  split
  · next all =>
    rw [List.takeWhile_cons_of_neg (by simpa using bottom), List.append_nil, topPrompts,
      (List.takeWhile_prefix _).eq_of_length all]
  · rfl

/-- When the prompts on top have been left and nothing else was changed, the other stack is what is left. -/
theorem unprompted_of_sameApart (regular : s.Regular) (later : s.Later t) (same : SameApart s.topPrompts s t)
    (gone : ∀ i ∈ s.topPrompts, i ∉ t.above) : Unprompted s t := by
  have above : t.above = s.belowPrompts := by
    rw [← filter_topPrompts regular, ← same.above]
    exact (List.filter_eq_self.mpr fun i here => by simpa using fun top => gone i top here).symm
  refine ⟨same.length, above, fun i other => ?_, ?_⟩
  · by_cases known : i < s.frames.length
    · exact same.exits i known other
    · rw [exit?, exit?, mailbox?_of_le (not_lt.mp known), mailbox?_of_le (same.length ▸ not_lt.mp known)]
  · have kinds : ∀ i ∈ s.belowPrompts ++ [0], t.kind i = s.kind i := fun i here => by
      have known : i < s.frames.length := by
        rcases List.mem_append.mp here with low | bottom
        · exact (regular.range i ((List.dropWhile_suffix _).subset low)).2
        · exact List.mem_singleton.mp bottom ▸ regular.some
      rw [← ref_kind, later.refs i known, ref_kind]
    have prompts : s.topPrompts.countP (s.kind · = .nestedPrompt) = s.topPrompts.length :=
      List.countP_eq_length.mpr fun i top => by simpa using kind_of_topPrompts top
    have now : t.nestedPromptLevel = (s.belowPrompts ++ [0]).countP fun i => s.kind i = FrameKind.nestedPrompt := by
      rw [nestedPromptLevel, live, above]
      exact List.countP_congr fun i here => by rw [kinds i here]
    have before : s.nestedPromptLevel = s.topPrompts.length +
        (s.belowPrompts ++ [0]).countP fun i => s.kind i = FrameKind.nestedPrompt := by
      rw [nestedPromptLevel, live, ← s.topPrompts_append, List.append_assoc, List.countP_append, prompts]
    omega

end FrameStack

namespace Resumes

open FrameStack (SameAbove SameApart Unprompted)

variable {ds : List (Deed brokerInterface World)} {c : Chronicle} {flow : Nat} {action : ResumeAction} {wait : Bool}

/-- Between the deeds of one nobody else changes anything about frames, apart from some. -/
def Undisturbed (apart : List Nat) (ds : List (Deed brokerInterface World)) : Prop :=
  (ds.filterMap Deed.act?).IsChain fun late early => SameApart apart early.after.frames late.before.frames

instance {apart : List Nat} : Decidable (Undisturbed apart ds) := inferInstanceAs (Decidable (List.IsChain _ _))

/-- What is so before and after each of some acts and between them, is so from the first one to any, and
from any to the last one. -/
theorem passes_acts {R : World → World → Prop} (refl : ∀ w, R w w) (trans : ∀ u v w, R u v → R v w → R u w)
    {acts : List (Act brokerInterface World)} {first last : Act brokerInterface World}
    (own : ∀ a ∈ acts, R a.before a.after) (others : acts.IsChain fun late early => R early.after late.before)
    (begins : acts.getLast? = some first) (ends : acts.head? = some last) :
    ∀ a ∈ acts, R first.before a.before ∧ R a.before last.after := by
  induction acts generalizing last with
  | nil => cases ends
  | cons a earlier ih =>
    obtain ⟨here, own⟩ := List.forall_mem_cons.mp own
    obtain rfl : a = last := Option.some.inj ends
    rcases earlier with _ | ⟨b, earliest⟩
    · obtain rfl : a = first := Option.some.inj begins
      exact List.forall_mem_singleton.mpr ⟨refl _, here⟩
    · obtain ⟨between, others⟩ := List.isChain_cons_cons.mp others
      have before := ih own others (by rwa [List.getLast?_cons_cons] at begins) rfl
      refine List.forall_mem_cons.mpr ⟨⟨?_, here⟩, fun x hx => ⟨(before x hx).1, ?_⟩⟩
      · obtain ⟨began, -⟩ := before b List.mem_cons_self
        exact trans _ _ _ (trans _ _ _ began (own b List.mem_cons_self)) between
      · exact trans _ _ _ (trans _ _ _ (before x hx).2 between) here

/-- What one who has resumed the debugger did to the stack. -/
theorem steady_of_return (lawful : c.Lawful) {won : Bool} (here : ⟨flow, .resumeDebugger action wait, won, ds⟩ ∈ c.returns)
    {a : Act brokerInterface World} (done : .act a ∈ ds) : a.action.IsSteady := by
  have within : (body (.resumeDebugger action wait)).Within steadyScope := steady_body id
  exact (lawful.fits.returned _ here).acts_within within done

theorem sameAbove_of_steady {a : Act brokerInterface World} {pick : Bool} (steady : a.action.IsSteady)
    (performed : World.perform a.flow pick a.action a.before = some (a.reply, a.after)) (apart : List Nat) :
    SameAbove apart a.before.frames a.after.frames := by
  obtain ⟨flow, proc, todo, reply, w, u⟩ := a
  by_cases frames : ∀ op, todo ≠ .frames op
  · rw [World.frames_perform frames performed]
    exact .refl
  · obtain ⟨op, rfl⟩ : ∃ op, todo = .frames op := by simpa using frames
    exact .perform steady (World.frames_step performed)

theorem sameApart_of_steady {a : Act brokerInterface World} {pick : Bool} (steady : a.action.IsSteady)
    (performed : World.perform a.flow pick a.action a.before = some (a.reply, a.after)) {apart : List Nat}
    (sets : ∀ i y, a.sets? = some (i, y) → i ∈ apart) : SameApart apart a.before.frames a.after.frames := by
  obtain ⟨flow, proc, todo, reply, w, u⟩ := a
  by_cases frames : ∀ op, todo ≠ .frames op
  · rw [World.frames_perform frames performed]
    exact .refl
  · obtain ⟨op, rfl⟩ : ∃ op, todo = .frames op := by simpa using frames
    refine .perform steady (World.frames_step performed) fun i y same won => ?_
    subst same
    cases won
    exact sets i y rfl

/-- One who looks at the stack sees the nested prompts that are on top. -/
theorem tops_of_look (kept : Demolition.Kept c) {who : Proc} {seen : List FrameRef} {w u : World}
    (logged : ⟨flow, who, .frames .live, seen, w, u⟩ ∈ c.log) (i : Nat) :
    Tops seen i ↔ i ∈ w.frames.topPrompts := by
  have regular := (kept.toLawful.sound_before logged).toRegular
  obtain ⟨pick, performed⟩ := kept.toLawful.performed logged
  obtain rfl : w.frames.live.map w.frames.ref = seen :=
    congrArg Prod.fst (Option.some.inj (World.frames_step performed))
  simp only [Tops, FrameStack.promptsOnTop_live regular, List.mem_map]
  constructor
  · rintro ⟨_, ⟨j, top, rfl⟩, -, rfl⟩
    exact (regular.ids j).symm ▸ top
  · intro top
    have range := regular.range i ((List.takeWhile_prefix _).subset top)
    exact ⟨_, ⟨i, top, rfl⟩, kept.boxed_before logged range.1 range.2, regular.ids i⟩

/-- While one resumes the debugger in vain and nobody else changes anything about frames, apart from the nested
prompts on top, these prompts are left and nothing else changes. -/
theorem unprompted_of_refused (kept : Demolition.Kept c) (orderly : c.Orderly)
    (refused : ⟨flow, .resumeDebugger action wait, false, ds⟩ ∈ c.returns) {first last : Act brokerInterface World}
    (begins : (ds.filterMap Deed.act?).getLast? = some first) (ends : (ds.filterMap Deed.act?).head? = some last)
    (alone : Undisturbed first.before.frames.topPrompts ds) : Unprompted first.before.frames last.after.frames := by
  have lawful := kept.toLawful
  set acts := ds.filterMap Deed.act? with hacts
  have deed : ∀ a ∈ acts, .act a ∈ ds := fun a ha => by
    obtain ⟨d, hd, same⟩ := List.mem_filterMap.mp ha
    exact Deed.act?_eq_some.mp same ▸ hd
  have logged : ∀ a ∈ acts, a ∈ c.log := fun a ha => lawful.fits.mem_log_of_return refused (deed a ha)
  have steady : ∀ a ∈ acts, a.action.IsSteady := fun a ha => steady_of_return lawful refused (deed a ha)
  have sound : ∀ a ∈ acts, a.before.frames.Sound := fun a ha => lawful.sound_before (logged a ha)
  have firstActs := List.mem_of_getLast? begins
  have lastActs := List.mem_of_head? ends
  have later : ∀ a ∈ acts, World.FramesLater first.before a.before ∧ World.FramesLater a.before last.after := by
    refine passes_acts Chronicle.passage_framesLater.refl Chronicle.passage_framesLater.trans (fun a ha => ?_) ?_
      begins ends
    · obtain ⟨pick, performed⟩ := lawful.performed (logged a ha)
      exact World.framesLater_perform performed
    · exact ((orderly.returns _ refused).imp_of_mem fun late _ after _ => ⟨sound _ late, after⟩).isChain
  set tops := first.before.frames.topPrompts
  -- nobody has pushed or removed anything but the prompts that were on top
  have still : ∀ a ∈ acts, SameAbove tops first.before.frames a.before.frames ∧
      SameAbove tops a.before.frames last.after.frames := by
    refine passes_acts (R := fun w u => SameAbove tops w.frames u.frames) (fun _ => .refl) (fun _ _ _ => .trans)
      (fun a ha => ?_) (alone.imp fun _ _ same => same.toSameAbove) begins ends
    obtain ⟨pick, performed⟩ := lawful.performed (logged a ha)
    exact sameAbove_of_steady (steady a ha) performed tops
  obtain ⟨seen, manner⟩ := manner_of_return lawful refused
  obtain ⟨flow', who, w, u, looked⟩ := manner.saw
  have there : _ ∈ acts := List.mem_filterMap.mpr ⟨_, looked, rfl⟩
  have tops_seen := tops_of_look kept (logged _ there)
  have subset := FrameStack.topPrompts_subset (sound _ firstActs).toRegular (sound _ there).toRegular
    ((later _ there).1 (sound _ firstActs)).2 (still _ there).1
  -- so what one told to go on was on top from the first
  have apart : ∀ a ∈ acts, SameApart tops first.before.frames a.before.frames ∧
      SameApart tops a.before.frames last.after.frames := by
    refine passes_acts (R := fun w u => SameApart tops w.frames u.frames) (fun _ => .refl) (fun _ _ _ => .trans)
      (fun a ha => ?_) alone begins ends
    obtain ⟨pick, performed⟩ := lawful.performed (logged a ha)
    refine sameApart_of_steady (steady a ha) performed fun i y sets => ?_
    rcases manner.sets a (deed a ha) i y sets with ⟨-, top⟩ | ⟨won, -⟩
    · exact subset ((tops_seen i).mp top)
    · cases won
  refine FrameStack.unprompted_of_sameApart (sound _ firstActs).toRegular ((later _ firstActs).2 (sound _ firstActs)).2
    (apart _ firstActs).2 fun i top => ?_
  -- a prompt that was still there when one looked has been awaited
  have known : ∀ a ∈ acts, i < a.before.frames.frames.length := fun a ha => by
    rw [(still a ha).1.length]
    exact ((sound _ firstActs).range i ((List.takeWhile_prefix _).subset top)).2
  by_cases here : i ∈ w.frames.above
  · have onTop := FrameStack.mem_topPrompts (sound _ firstActs).toRegular (sound _ there).toRegular
      ((later _ there).1 (sound _ firstActs)).2 (still _ there).1.length top here
    obtain ⟨a, done, awaits⟩ := manner.awaited i ((tops_seen i).mpr onTop)
    have ha : a ∈ acts := List.mem_filterMap.mpr ⟨_, done, rfl⟩
    have pos : 0 < i := ((sound _ there).range i here).1
    exact ((later a ha).2 (sound a ha)).2.off (known a ha)
      (kept.off_of_awaits (logged a ha) awaits (kept.boxed_before (logged a ha) pos (known a ha)))
  · exact ((later _ there).2 (sound _ there)).2.off (known _ there) here

theorem acts_ne_nil (lawful : c.Lawful) {won : Bool} (here : ⟨flow, .resumeDebugger action wait, won, ds⟩ ∈ c.returns) :
    ds.filterMap Deed.act? ≠ [] := by
  have something : (body (.resumeDebugger action wait)).Comes brokerMachine flow (.resumeDebugger action wait)
      (fun ds _ => ds.filterMap Deed.act? ≠ []) [] := fun _ _ _ _ _ =>
    (Program.within_all _).comes fun new _ _ => by simp [Deed.act?]
  exact something.leads (lawful.fits.returned _ here)

/-- Without nested prompts on top nothing is left. -/
theorem unchanged_of_unprompted {s t : FrameStack} (unprompted : Unprompted s t) (none : s.topPrompts = []) :
    t.above = s.above ∧ t.exit? = s.exit? ∧ t.nestedPromptLevel = s.nestedPromptLevel := by
  refine ⟨?_, funext fun i => unprompted.exits i (by simp [none]), by simpa [none] using unprompted.level⟩
  rw [unprompted.above, ← s.topPrompts_append, none, List.nil_append]

/-- Whoever is told that there was nothing to resume has left the nested prompts that were on top of the stack.
He has changed nothing else, and nothing at all if there were none. -/
theorem refused_resume (settings : BrokerSettings) (endpoints : List (EngineName × Endpoint))
    (main : EngineName) (host : Host) (ms : List Move)
    (refused : ⟨flow, .resumeDebugger action wait, false, ds⟩ ∈
      ((Chronicle.new settings endpoints main host).moves ms).returns) :
    ∃ first last, (ds.filterMap Deed.act?).getLast? = some first ∧ (ds.filterMap Deed.act?).head? = some last ∧
      (Undisturbed first.before.frames.topPrompts ds → Unprompted first.before.frames last.after.frames ∧
        (first.before.frames.topPrompts = [] → last.after.frames.above = first.before.frames.above ∧
          last.after.frames.exit? = first.before.frames.exit? ∧
          last.after.frames.nestedPromptLevel = first.before.frames.nestedPromptLevel)) := by
  have kept := Demolition.kept_moves settings endpoints main host ms
  have some := acts_ne_nil kept.toLawful refused
  refine ⟨_, _, List.getLast?_eq_some_getLast some, List.head?_eq_some_head some, fun alone => ?_⟩
  have unprompted := unprompted_of_refused kept (Chronicle.orderly_moves ..) refused
    (List.getLast?_eq_some_getLast some) (List.head?_eq_some_head some) alone
  exact ⟨unprompted, unchanged_of_unprompted unprompted⟩

/-! ### A nested prompt on the top level -/

/-- A nested prompt is entered, and then somebody tries to resume the debugger. -/
def resumedInVain : List Move :=
  [.arrive "set up" (.setUp "main" true)] ++ turns 0 20 ++ [.arrive "prompt" .enterNestedPrompt] ++ turns 1 30
    ++ turns 2 20 ++ [.arrive "resume" (.resume .stepOver false)] ++ turns 3 20 ++ turns 2 20 ++ turns 3 20

/-- A refused call that nobody disturbed, and that found a frame with a number alone and lost it. -/
def loses (i : Nat) : Return brokerInterface World → Bool
  | ⟨_, .resumeDebugger .., false, ds⟩ =>
    match (ds.filterMap Deed.act?).getLast?, (ds.filterMap Deed.act?).head? with
    | some first, some last => Undisturbed first.before.frames.topPrompts ds && first.before.frames.above = [i] &&
        last.after.frames.above = [] && first.before.frames.nestedPromptLevel = 1 &&
        last.after.frames.nestedPromptLevel = 0
    | _, _ => false
  | _ => false

theorem eq_of_loses {i : Nat} {r : Return brokerInterface World} (h : loses i r = true) :
    ∃ flow action wait ds first last, r = ⟨flow, .resumeDebugger action wait, false, ds⟩ ∧
      (ds.filterMap Deed.act?).getLast? = some first ∧ (ds.filterMap Deed.act?).head? = some last ∧
      Undisturbed first.before.frames.topPrompts ds ∧ first.before.frames.above = [i] ∧
      last.after.frames.above = [] ∧ first.before.frames.nestedPromptLevel = 1 ∧
      last.after.frames.nestedPromptLevel = 0 := by
  unfold loses at h
  split at h
  · split at h
    · next begins ends =>
      simp only [Bool.and_eq_true, decide_eq_true_eq, and_assoc] at h
      exact ⟨_, _, _, _, _, _, rfl, begins, ends, h⟩
    · cases h
  · cases h

theorem loses_resumedInVain : ((Chronicle.new Stops.incurious Stops.stoppingEndpoints "main" .new).moves
    resumedInVain).returns.any (loses 1) = true := by decide +kernel

theorem refused_resume_over_prompt : ∃ flow action wait ds first last,
    ⟨flow, .resumeDebugger action wait, false, ds⟩ ∈
      ((Chronicle.new Stops.incurious Stops.stoppingEndpoints "main" .new).moves resumedInVain).returns ∧
    (ds.filterMap Deed.act?).getLast? = some first ∧ (ds.filterMap Deed.act?).head? = some last ∧
    Undisturbed first.before.frames.topPrompts ds ∧ Unprompted first.before.frames last.after.frames := by
  obtain ⟨r, here, loses⟩ := List.any_eq_true.mp loses_resumedInVain
  obtain ⟨flow, action, wait, ds, first, last, rfl, begins, ends, alone, -⟩ := eq_of_loses loses
  obtain ⟨first', last', begins', ends', unprompted⟩ :=
    refused_resume Stops.incurious Stops.stoppingEndpoints "main" .new resumedInVain here
  obtain rfl : first = first' := Option.some.inj (begins.symm.trans begins')
  obtain rfl : last = last' := Option.some.inj (ends.symm.trans ends')
  exact ⟨flow, action, wait, ds, first, last, here, begins, ends, alone, (unprompted alone).1⟩

/-- It is not so that nothing changes: a nested prompt is left, and the stack is lower afterwards. -/
theorem refused_resume_changes : ¬∀ flow action wait ds first last,
    ⟨flow, .resumeDebugger action wait, false, ds⟩ ∈
      ((Chronicle.new Stops.incurious Stops.stoppingEndpoints "main" .new).moves resumedInVain).returns →
    (ds.filterMap Deed.act?).getLast? = some first → (ds.filterMap Deed.act?).head? = some last →
    Undisturbed first.before.frames.topPrompts ds → last.after.frames.above = first.before.frames.above ∧
      last.after.frames.nestedPromptLevel = first.before.frames.nestedPromptLevel := by
  intro unchanged
  obtain ⟨r, here, loses⟩ := List.any_eq_true.mp loses_resumedInVain
  obtain ⟨flow, action, wait, ds, first, last, rfl, begins, ends, alone, above, left, -⟩ := eq_of_loses loses
  have same := (unchanged flow action wait ds first last here begins ends alone).1
  rw [above, left] at same
  cases same

end Resumes

end SessionBroker
