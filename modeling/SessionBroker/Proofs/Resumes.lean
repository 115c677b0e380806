import Mathlib.Data.List.TakeWhile
import SessionBroker.Proofs.Serving

/-!
# Resuming the debugger

One who resumes the debugger tells the nested prompts on top of the stack to go on, waits until they are
left, and then tells the frame below them what to exit with, if that is a debugger's.
-/

namespace SessionBroker

/-- The nested prompts on top of a list of frames. -/
def promptsOnTop (frames : List FrameRef) : List FrameRef := frames.takeWhile (·.kind = .nestedPrompt)

namespace Resumes

variable {ds new : List (Deed brokerInterface World)} {flow : Nat} {who : Proc} {α β : Type}
  {action : ResumeAction} {won : Bool} {frames : List FrameRef}

/-- Somebody has looked at the stack and has seen these frames. -/
def Saw (ds : List (Deed brokerInterface World)) (frames : List FrameRef) : Prop :=
  ∃ flow who w u, .act ⟨flow, who, .frames .live, frames, w, u⟩ ∈ ds

/-- A frame is one of the nested prompts on top of some frames that can be told to go on. -/
def Tops (frames : List FrameRef) (i : Nat) : Prop := ∃ f ∈ promptsOnTop frames, f.hasMailbox = true ∧ f.id = i

/-- A frame of the debugger is told what to exit with. -/
def Releases (ds : List (Deed brokerInterface World)) (action : ResumeAction) (i : Nat) (y : ResumeAction) : Prop :=
  y = action ∧ ∃ frames, Saw ds frames ∧ ∃ f ∈ frames, f.id = i ∧ f.kind = .debug

/-- The end of a frame was awaited. -/
def Awaits (ds : List (Deed brokerInterface World)) (i : Nat) : Prop :=
  ∃ a, .act a ∈ ds ∧ a.action = .frames (.awaitFinish i)

/-- So far only the nested prompts on top of some frames were told to exit, and were awaited. -/
structure Dismissing (frames : List FrameRef) (ds : List (Deed brokerInterface World)) : Prop where
  told : ∀ a, .act a ∈ ds → ∀ i y, a.sets? = some (i, y) → y = .continue ∧ Tops frames i
  awaited : ∀ i, Awaits ds i → Tops frames i

/-- What one did who resumed the debugger, or tried to, and saw some frames when he began. -/
structure Manner (frames : List FrameRef) (action : ResumeAction) (won : Bool)
    (ds : List (Deed brokerInterface World)) : Prop where
  saw : Saw ds frames
  sets : ∀ a, .act a ∈ ds → ∀ i y, a.sets? = some (i, y) →
    y = .continue ∧ Tops frames i ∨ won = true ∧ Releases ds action i y
  released : won = true → ∃ a i, .act a ∈ ds ∧ a.sets? = some (i, action) ∧ Releases ds action i action
  awaited : ∀ i, Tops frames i → Awaits ds i
  others : won = false → ∀ i, Awaits ds i → Tops frames i

theorem Saw.mono (saw : Saw ds frames) (more : ∀ d ∈ ds, d ∈ new) : Saw new frames := by
  obtain ⟨flow, who, w, u, done⟩ := saw
  exact ⟨flow, who, w, u, more _ done⟩

theorem Awaits.mono {i : Nat} (awaits : Awaits ds i) (more : ∀ d ∈ ds, d ∈ new) : Awaits new i := by
  obtain ⟨a, done, waits⟩ := awaits
  exact ⟨a, more _ done, waits⟩

theorem Releases.mono {i : Nat} {y : ResumeAction} (releases : Releases ds action i y)
    (more : ∀ d ∈ ds, d ∈ new) : Releases new action i y := by
  obtain ⟨same, frames, saw, here⟩ := releases
  exact ⟨same, frames, saw.mono more, here⟩

/-- Programs that tell nobody to exit and wait for nobody's end. -/
def tacit : Scope brokerInterface :=
  ⟨fun a => ∀ i, (∀ y, a ≠ .frames (.tryExit i y)) ∧ a ≠ .frames (.awaitFinish i), fun _ => True, fun _ => True⟩

@[local simp] theorem tacit_acts {a : Action} :
    tacit.acts a ↔ ∀ i, (∀ y, a ≠ .frames (.tryExit i y)) ∧ a ≠ .frames (.awaitFinish i) := Iff.rfl
@[local simp] theorem tacit_calls (p : Proc) : tacit.calls p := trivial
@[local simp] theorem tacit_starts (p : Proc) : tacit.starts p := trivial

theorem sets_of_tacit {a : Act brokerInterface World} (stays : Deed.Stays tacit (.act a)) : a.sets? = none := by
  rcases sets : a.sets? with _ | ⟨i, y⟩
  · rfl
  · obtain ⟨flow, proc, before, after, rfl⟩ := Act.sets?_eq_some.mp sets
    exact absurd rfl ((stays i).1 y)

theorem awaits_of_tacit {i : Nat} (stays : ∀ d ∈ new, Deed.Stays tacit d) (awaits : Awaits (new ++ ds) i) :
    Awaits ds i := by
  obtain ⟨a, done, waits⟩ := awaits
  rcases List.mem_append.mp done with recent | old
  · exact absurd waits (stays _ recent i).2
  · exact ⟨a, old, waits⟩

theorem Dismissing.grow (dismissing : Dismissing frames ds) (stays : ∀ d ∈ new, Deed.Stays tacit d) :
    Dismissing frames (new ++ ds) := by
  refine ⟨fun a ha i y sets => ?_, fun i awaits => dismissing.awaited i (awaits_of_tacit stays awaits)⟩
  rcases List.mem_append.mp ha with ha | ha
  · cases (sets_of_tacit (stays _ ha)).symm.trans sets
  · exact dismissing.told a ha i y sets

theorem Dismissing.cons (dismissing : Dismissing frames ds) {d : Deed brokerInterface World} (stays : d.Stays tacit) :
    Dismissing frames (d :: ds) :=
  Dismissing.grow dismissing (List.forall_mem_singleton.mpr stays)

/-- What follows a program that tells nobody to exit. -/
theorem Dismissing.next (dismissing : Dismissing frames ds) {post : List (Deed brokerInterface World) → α → Prop}
    {q : Code β} {f : β → Code α} (h : q.Within tacit)
    (hf : ∀ b all, Dismissing frames all → (∀ d ∈ ds, d ∈ all) → (f b).Comes brokerMachine flow who post all) :
    (q >>= f).Comes brokerMachine flow who post ds :=
  Program.comes_then h fun new b stays =>
    hf b _ (dismissing.grow stays) fun _ hd => List.mem_append_right new hd

theorem comes_leavePrompts (e : EngineName) {rest : List FrameRef} (saw : Saw ds frames)
    (onTop : ∀ f ∈ promptsOnTop rest, f ∈ promptsOnTop frames) (dismissing : Dismissing frames ds) :
    (Aborting.leavePrompts e rest).Comes brokerMachine flow who (fun all left =>
      Saw all frames ∧ Dismissing frames all ∧ left = (promptsOnTop rest).filter (·.hasMailbox)) ds := by
  induction rest generalizing ds with
  | nil => exact ⟨saw, dismissing, rfl⟩
  | cons f rest ih =>
    unfold Aborting.leavePrompts
    split
    · next other => exact ⟨saw, dismissing, by simp [promptsOnTop, other]⟩
    · next prompt =>
      have top : promptsOnTop (f :: rest) = f :: promptsOnTop rest := by
        simp [promptsOnTop, not_not.mp prompt]
      rw [top] at onTop ⊢
      obtain ⟨here, others⟩ := List.forall_mem_cons.mp onTop
      refine dismissing.next (by simp) fun _ d1 dismissing m1 => ?_
      split
      · next boxed =>
        refine Program.comes_perform fun pick won w u _ => ?_
        have more : ∀ d ∈ d1, d ∈ .act ⟨flow, who, .frames (.tryExit f.id .continue), won, w, u⟩ :: d1 :=
          fun d hd => List.mem_cons_of_mem _ hd
        have dismissing : Dismissing frames (.act ⟨flow, who, .frames (.tryExit f.id .continue), won, w, u⟩ :: d1) := by
          refine ⟨fun a ha i y sets => ?_, ?_⟩
          · rcases List.mem_cons.mp ha with same | ha
            · cases same
              obtain ⟨_, _, _, _, told⟩ := Act.sets?_eq_some.mp sets
              cases told
              exact ⟨rfl, f, here, boxed, rfl⟩
            · exact dismissing.told a ha i y sets
          · rintro i ⟨a, ha, waits⟩
            rcases List.mem_cons.mp ha with same | ha
            · cases same
              cases waits
            · exact dismissing.awaited i ⟨a, ha, waits⟩
        refine Program.Comes.bind (ih ((saw.mono m1).mono more) others dismissing) ?_
        rintro all left ⟨saw, dismissing, rfl⟩
        exact ⟨saw, dismissing, by rw [List.filter_cons_of_pos boxed]⟩
      · next unboxed =>
        refine (ih (saw.mono m1) others dismissing).imp ?_
        rintro all left ⟨saw, dismissing, rfl⟩
        exact ⟨saw, dismissing, by rw [List.filter_cons_of_neg unboxed]⟩

theorem comes_unwindPrompts (dismissing : Dismissing [] ds) :
    Aborting.unwindPrompts.Comes brokerMachine flow who (fun all left => ∃ frames,
      Saw all frames ∧ Dismissing frames all ∧ left = (promptsOnTop frames).filter (·.hasMailbox)) ds := by
  refine dismissing.next (by simp [SessionChanges.currentEngine, SessionChanges.current]) fun e d1 dismissing _ => ?_
  refine Program.comes_perform fun pick frames w u _ => ?_
  have nobody : Dismissing [] (.act ⟨flow, who, .frames .live, frames, w, u⟩ :: d1) :=
    dismissing.cons (by simp [Deed.Stays])
  have none : ∀ i, ¬Tops [] i := by simp [Tops, promptsOnTop]
  have looked : Dismissing frames (.act ⟨flow, who, .frames .live, frames, w, u⟩ :: d1) :=
    ⟨fun a ha i y sets => absurd (nobody.told a ha i y sets).2 (none i),
      fun i awaits => absurd (nobody.awaited i awaits) (none i)⟩
  exact (comes_leavePrompts e ⟨_, _, _, _, List.mem_cons_self⟩ (fun _ h => h) looked).imp
    fun all left done => ⟨frames, done⟩

theorem comes_awaitFinish {left : List FrameRef} (saw : Saw ds frames) (tops : ∀ f ∈ left, Tops frames f.id)
    (dismissing : Dismissing frames ds) :
    (Aborting.awaitFinish left).Comes brokerMachine flow who (fun all _ =>
      Saw all frames ∧ Dismissing frames all ∧ (∀ f ∈ left, Awaits all f.id) ∧ ∀ d ∈ ds, d ∈ all) ds := by
  induction left generalizing ds with
  | nil => exact ⟨saw, dismissing, by simp, fun _ h => h⟩
  | cons f left ih =>
    obtain ⟨here, tops⟩ := List.forall_mem_cons.mp tops
    refine Program.comes_perform fun pick r w u _ => ?_
    have more : ∀ d ∈ ds, d ∈ .act ⟨flow, who, .frames (.awaitFinish f.id), r, w, u⟩ :: ds :=
      fun d hd => List.mem_cons_of_mem _ hd
    have dismissing : Dismissing frames (.act ⟨flow, who, .frames (.awaitFinish f.id), r, w, u⟩ :: ds) := by
      refine ⟨fun a ha i y sets => ?_, ?_⟩
      · rcases List.mem_cons.mp ha with same | ha
        · cases same
          cases sets
        · exact dismissing.told a ha i y sets
      · rintro i ⟨a, ha, waits⟩
        rcases List.mem_cons.mp ha with same | ha
        · cases same
          cases waits
          exact here
        · exact dismissing.awaited i ⟨a, ha, waits⟩
    refine (ih (saw.mono more) tops dismissing).imp ?_
    rintro all - ⟨saw, dismissing, awaited, old⟩
    refine ⟨saw, dismissing, List.forall_mem_cons.mpr ⟨?_, awaited⟩, fun d hd => old d (more d hd)⟩
    exact ⟨_, old _ List.mem_cons_self, rfl⟩

theorem comes_exitDebugger (saw : Saw ds frames) (dismissing : Dismissing frames ds)
    (awaited : ∀ i, Tops frames i → Awaits ds i) : (Aborting.exitDebugger action).Comes brokerMachine flow who
      (fun all frame => Manner frames action frame.isSome all) ds := by
  refine Program.comes_perform fun pick live w u _ => ?_
  have more : ∀ d ∈ ds, d ∈ .act ⟨flow, who, .frames .live, live, w, u⟩ :: ds := fun d hd => List.mem_cons_of_mem _ hd
  have looked : Dismissing frames (.act ⟨flow, who, .frames .live, live, w, u⟩ :: ds) :=
    dismissing.cons (by simp [Deed.Stays])
  have nothing : Manner frames action false (.act ⟨flow, who, .frames .live, live, w, u⟩ :: ds) :=
    ⟨saw.mono more, fun a ha i y sets => .inl (looked.told a ha i y sets), by simp,
      fun i top => (awaited i top).mono more, fun _ => looked.awaited⟩
  split
  · exact nothing
  · next f found =>
    split
    · next stopped =>
      obtain ⟨kind, boxed⟩ : f.kind = .debug ∧ f.hasMailbox = true := by simpa using stopped
      refine Program.comes_perform fun pick won w' u' _ => ?_
      have later : ∀ d ∈ .act ⟨flow, who, .frames .live, live, w, u⟩ :: ds,
          d ∈ .act ⟨flow, who, .frames (.tryExit f.id action), won, w', u'⟩ ::
            .act ⟨flow, who, .frames .live, live, w, u⟩ :: ds := fun d hd => List.mem_cons_of_mem _ hd
      have releases : Releases (.act ⟨flow, who, .frames (.tryExit f.id action), won, w', u'⟩ ::
          .act ⟨flow, who, .frames .live, live, w, u⟩ :: ds) action f.id action :=
        ⟨rfl, live, ⟨_, _, _, _, later _ List.mem_cons_self⟩, f, List.mem_of_find?_eq_some found, rfl, kind⟩
      have same : (if won = true then some f else none).isSome = won := by cases won <;> rfl
      show Manner frames action (if won = true then some f else none).isSome _
      rw [same]
      refine ⟨nothing.saw.mono later, fun a ha i y sets => ?_, fun yes => ?_,
        fun i top => (nothing.awaited i top).mono later, ?_⟩
      · rcases List.mem_cons.mp ha with same | ha
        · cases same
          obtain ⟨_, _, _, _, told⟩ := Act.sets?_eq_some.mp sets
          cases told
          exact .inr ⟨rfl, releases⟩
        · exact .inl (looked.told a ha i y sets)
      · subst yes
        exact ⟨_, f.id, List.mem_cons_self, rfl, releases⟩
      · rintro - i ⟨a, ha, waits⟩
        rcases List.mem_cons.mp ha with same | ha
        · cases same
          cases waits
        · exact looked.awaited i ⟨a, ha, waits⟩
    · exact nothing

theorem Manner.grow (manner : Manner frames action won ds) (stays : ∀ d ∈ new, Deed.Stays tacit d) :
    Manner frames action won (new ++ ds) := by
  have more : ∀ d ∈ ds, d ∈ new ++ ds := fun d hd => List.mem_append_right new hd
  refine ⟨manner.saw.mono more, fun a ha i y sets => ?_, fun yes => ?_, fun i top => (manner.awaited i top).mono more,
    fun lost i awaits => manner.others lost i (awaits_of_tacit stays awaits)⟩
  · rcases List.mem_append.mp ha with ha | ha
    · cases (sets_of_tacit (stays _ ha)).symm.trans sets
    · exact (manner.sets a ha i y sets).imp_right fun ⟨yes, releases⟩ => ⟨yes, releases.mono more⟩
  · obtain ⟨a, i, ha, sets, releases⟩ := manner.released yes
    exact ⟨a, i, more _ ha, sets, releases.mono more⟩

/-- Whoever has resumed the debugger may wait for the frame to end. -/
theorem Manner.waited (manner : Manner frames action true ds) {i : Nat} {r : Unit} {w u : World} :
    Manner frames action true (.act ⟨flow, who, .frames (.awaitFinish i), r, w, u⟩ :: ds) := by
  have more : ∀ d ∈ ds, d ∈ .act ⟨flow, who, .frames (.awaitFinish i), r, w, u⟩ :: ds :=
    fun d hd => List.mem_cons_of_mem _ hd
  refine ⟨manner.saw.mono more, fun a ha j y sets => ?_, fun yes => ?_, fun j top => (manner.awaited j top).mono more,
    by simp⟩
  · rcases List.mem_cons.mp ha with same | ha
    · cases same
      cases sets
    · exact (manner.sets a ha j y sets).imp_right fun ⟨yes, releases⟩ => ⟨yes, releases.mono more⟩
  · obtain ⟨a, j, ha, sets, releases⟩ := manner.released yes
    exact ⟨a, j, more _ ha, sets, releases.mono more⟩

/-- What one does who resumes the debugger. -/
theorem comes_resume (wait : Bool) : (Aborting.resume action wait).Comes brokerMachine flow who
    (fun all won => ∃ frames, Manner frames action won all) [] := by
  have start : Dismissing [] [] := ⟨by rintro _ ⟨⟩, by rintro _ ⟨_, ⟨⟩, _⟩⟩
  refine start.next (by simp) fun ticket _ stage _ => stage.next (by simp) fun _ _ stage _ => ?_
  refine stage.next (by simp) fun _ _ stage _ => Program.Comes.bind (comes_unwindPrompts stage) ?_
  rintro _ left ⟨frames, saw, stage, rfl⟩
  have tops : ∀ f ∈ (promptsOnTop frames).filter (·.hasMailbox), Tops frames f.id := fun f hf => by
    obtain ⟨top, boxed⟩ := List.mem_filter.mp hf
    exact ⟨f, top, boxed, rfl⟩
  refine Program.Comes.bind (comes_awaitFinish saw tops stage) ?_
  rintro waited - ⟨saw, stage, awaited, -⟩
  have awaited : ∀ i, Tops frames i → Awaits waited i := by
    rintro _ ⟨f, top, boxed, rfl⟩
    exact awaited f (List.mem_filter.mpr ⟨top, boxed⟩)
  refine Program.Comes.bind (comes_exitDebugger saw stage awaited) fun _ frame manner => ?_
  cases frame with
  | none => exact Program.comes_then (S := tacit) (by simp) fun _ _ stays => ⟨frames, manner.grow stays⟩
  | some f =>
    show Program.Comes _ _ _ _ (if wait = true then _ else _) _
    split
    · refine Program.comes_perform fun _ _ _ _ _ => ?_
      exact Program.comes_then (S := tacit) (by simp) fun _ _ stays => ⟨frames, manner.waited.grow stays⟩
    · exact Program.comes_then (S := tacit) (by simp) fun _ _ stays => ⟨frames, manner.grow stays⟩

/-! ## Those who have returned -/

variable {c : Chronicle}

/-- A frame that was seen on the stack is known. -/
theorem known_of_saw (lawful : c.Lawful) (logged : ∀ a, .act a ∈ ds → a ∈ c.log)
    (saw : Saw ds frames) {f : FrameRef} (here : f ∈ frames) : Serving.Known c.world.frames f := by
  obtain ⟨flow, who, w, u, done⟩ := saw
  have logged := logged _ done
  obtain ⟨pick, performed⟩ := lawful.performed logged
  have looked : some (w.frames.live.map w.frames.ref, w.frames) = some (frames, u.frames) :=
    World.frames_step performed
  have seen : w.frames.live.map w.frames.ref = frames := congrArg Prod.fst (Option.some.inj looked)
  obtain ⟨j, live, rfl⟩ := List.mem_map.mp (seen ▸ here)
  have regular := (lawful.sound_before logged).toRegular
  have there : j < w.frames.frames.length := by
    rcases List.mem_append.mp live with above | bottom
    · exact (regular.range j above).2
    · rw [List.mem_singleton.mp bottom]
      exact regular.some
  have known : Serving.Known w.frames (w.frames.ref j) :=
    ⟨(regular.ids j).symm ▸ there, congrArg w.frames.ref (regular.ids j)⟩
  exact known.later (lawful.since_before logged)

theorem manner_of_return (lawful : c.Lawful) {wait : Bool}
    (here : ⟨flow, .resumeDebugger action wait, won, ds⟩ ∈ c.returns) : ∃ frames, Manner frames action won ds :=
  (comes_resume wait).leads (lawful.fits.returned _ here)

/-- Whoever resumes a frame of the debugger tells it what he was told himself. -/
theorem action_of_sets (lawful : c.Lawful) {wait : Bool}
    (here : ⟨flow, .resumeDebugger action wait, won, ds⟩ ∈ c.returns) {a : Act brokerInterface World}
    (done : .act a ∈ ds) {i : Nat} {y : ResumeAction} (sets : a.sets? = some (i, y))
    (kind : (c.world.frames.ref i).kind = .debug) : won = true ∧ y = action := by
  have logged : ∀ a, .act a ∈ ds → a ∈ c.log := fun a ha => lawful.fits.mem_log_of_return here ha
  obtain ⟨frames, manner⟩ := manner_of_return lawful here
  rcases manner.sets a done i y sets with ⟨-, f, top, -, rfl⟩ | ⟨yes, same, -⟩
  · have known := known_of_saw lawful logged manner.saw ((List.takeWhile_prefix _).subset top)
    have prompt : f.kind = .nestedPrompt := by simpa using List.mem_takeWhile_imp top
    cases (known.2 ▸ kind).symm.trans prompt
  · exact ⟨yes, same⟩

end Resumes

end SessionBroker
