import SessionBroker.Proofs.Plain
import SessionBroker.Proofs.Teardown.Charges

/-!
# How the broker is disposed

The flow that disposes a broker minds the lore of the teardown: it tells the frames to exit, the current
one first, so that no frame is told before those above it; it waits only for frames that it has told;
and it gives up the bottom session only once it has found no other one.
-/

namespace SessionBroker.Teardown

/-- What is to be true of the world in which the teardown begins. -/
structure Fit (old : Onset) : Prop where
  regular : old.frames.Regular
  frames : ∀ i ∈ old.frames.above,
    (old.frames.ref i).hasMailbox ∧ (old.frames.ref i).kind ≠ .topLevel
  engines : ∀ s ∈ old.sessions.toList, known old s.engine

variable {old : Onset} {α β : Type} {post : β → Charge → Prop} {h : Charge} {x : Reach} {j k n : Nat}

/-! ## Frames that are told to exit -/

theorem refs_of_lt (lt : j < old.frames.above.length) :
    refs old j = old.frames.ref old.frames.above[j] :: refs old (j + 1) := by
  have inside : j < old.frames.live.length := by simp [FrameStack.live]; omega
  have here : old.frames.live[j] = old.frames.above[j] := List.getElem_append_left lt
  rw [refs, List.drop_eq_getElem_cons inside, List.map_cons, here]
  rfl

theorem refs_length (fit : Fit old) :
    refs old old.frames.above.length = [⟨0, .topLevel, false, false⟩] := by
  simp [refs, FrameStack.live, fit.regular.bottom]

theorem ref_id (fit : Fit old) (i : Nat) : (old.frames.ref i).id = i := fit.regular.ids i

theorem among_getElem (lt : j < old.frames.above.length) (le : j < n) :
    Among old n old.frames.above[j] :=
  ⟨j, le, List.getElem?_eq_getElem lt⟩

/-- A frame has one place on the stack. -/
theorem place_unique (fit : Fit old) {i : Nat} (here : old.frames.above[j]? = some i)
    (there : old.frames.above[k]? = some i) : j = k :=
  (List.getElem?_inj (List.getElem?_eq_some_iff.mp here).1 fit.regular.nodup).mp (here.trans there.symm)

theorem idxOf_getElem (fit : Fit old) (lt : j < old.frames.above.length) :
    old.frames.above.idxOf old.frames.above[j] = j :=
  fit.regular.nodup.idxOf_getElem j lt

/-- What the flow that disposes the broker is charged with while it goes its way. -/
abbrev on (x : Reach) : Charge := { reach := some x }

theorem on_free (i : Nat) : (on x).duty ≠ .waits i := by rintro ⟨⟩

theorem does_current {f : Session → Code β} (free : ∀ i, h.duty ≠ .waits i)
    (goesOn : ∀ s, known old s.engine → Does old h (f s) post) :
    Does old h (SessionChanges.current >>= f) post := by
  refine does_act (.sessions .current) free trivial fun _ _ _ s _ k _ noted => ?_
  by_cases here : known old (Session.engine s)
  · obtain rfl : h = k := by simpa [note, noteSessions, here] using noted
    exact goesOn s here
  · simp [note, noteSessions, here] at noted

theorem does_currentEngine {f : EngineName → Code β} (free : ∀ i, h.duty ≠ .waits i)
    (goesOn : ∀ e, known old e → Does old h (f e) post) :
    Does old h (SessionChanges.currentEngine >>= f) post :=
  does_current free fun s here => goesOn s.engine here

/-- The frames on the stack are a part of those at first, and those that left had been told. -/
theorem does_live {f : List FrameRef → Code β}
    (goesOn : ∀ k, k ≤ x.told → k ≤ old.frames.above.length →
      Does old (on { x with lost := k }) (f (refs old k)) post) :
    Does old (on x) (Code.frames .live >>= f) post := by
  refine does_act (.frames .live) on_free rfl fun _ _ _ l _ k _ noted => ?_
  simp only [note, noteFrames] at noted
  split at noted
  · next right =>
    obtain ⟨same, -, told, inside⟩ := right
    cases noted
    generalize old.frames.live.length - List.length (α := FrameRef) l = k at same told inside ⊢
    subst same
    exact goesOn k told inside
  · cases noted

/-- A frame is told to exit once those above it have been. -/
theorem does_tryExit {f : Bool → Code β} {action : ResumeAction} (fit : Fit old)
    (lt : j < old.frames.above.length) (le : j ≤ x.told)
    (right : (old.frames.ref old.frames.above[j]).kind = .debug → action = .stop)
    (goesOn : ∀ won, Does old (on { x with told := max x.told (j + 1) }) (f won) post) :
    Does old (on x) (Code.frames (.tryExit (old.frames.ref old.frames.above[j]).id action) >>= f)
      post := by
  rw [ref_id fit]
  refine does_act (.frames (.tryExit _ _)) on_free ?_ fun _ _ _ won _ k _ noted => ?_
  · refine ⟨x, rfl, among_getElem lt (by omega), ?_⟩
    rwa [← FrameStack.ref_kind]
  · cases noted
    rw [idxOf_getElem fit lt]
    exact goesOn won

/-- From one place on the stack to another there are only nested prompts, and then something else. -/
structure Prompts (old : Onset) (j n : Nat) : Prop where
  le : j ≤ n
  inside : n ≤ old.frames.above.length
  prompts : ∀ i (lt : i < old.frames.above.length), j ≤ i → i < n →
    (old.frames.ref old.frames.above[i]).kind = .nestedPrompt
  other : ∀ lt : n < old.frames.above.length,
    (old.frames.ref old.frames.above[n]).kind ≠ .nestedPrompt

/-- The exits of the nested prompts on top are set one after the other. -/
theorem does_leavePrompts (fit : Fit old) {e : EngineName} (here : known old e) (told : x.told = j)
    (inside : j ≤ old.frames.above.length) :
    Does old (on x) (Aborting.leavePrompts e (refs old j)) fun _ k =>
      ∃ n, Prompts old j n ∧ k = on { x with told := n } := by
  induction left : old.frames.above.length - j generalizing j x with
  | zero =>
    obtain rfl : j = old.frames.above.length := by omega
    rw [refs_length fit]
    refine does_done ⟨_, ⟨le_rfl, le_rfl, fun i lt le => absurd lt (not_lt.mpr le),
      fun lt => absurd lt (lt_irrefl _)⟩, ?_⟩
    rw [← told]
  | succ left ih =>
    have lt : j < old.frames.above.length := by omega
    rw [refs_of_lt lt, Aborting.leavePrompts]
    split
    · next other =>
      refine does_done ⟨j, ⟨le_rfl, inside, fun i _ le lt => absurd lt (not_lt.mpr le), fun _ => other⟩, ?_⟩
      rw [← told]
    · next prompt =>
      rw [not_not] at prompt
      have boxed := (fit.frames _ (List.getElem_mem lt)).1
      have quiet : (Code.engine e (.wish .exitNested)).Within (aside old) := by
        simp [aside, isAside, here, mayWait, isDeed]
      refine Does.after quiet on_free fun _ => ?_
      rw [if_pos boxed]
      refine does_tryExit fit lt told.ge (fun debug => by simp [prompt] at debug) fun _ => ?_
      have next := ih (x := { x with told := max x.told (j + 1) }) (j := j + 1)
        (by simp only; omega) lt (by omega)
      refine next.bind fun _ k => ?_
      rintro ⟨n, between, rfl⟩
      refine does_done ⟨n, ⟨by have := between.le; omega, between.inside, fun i lt le lt' => ?_,
        between.other⟩, rfl⟩
      rcases Nat.eq_or_lt_of_le le with rfl | above
      · exact prompt
      · exact between.prompts i lt above lt'

theorem does_unwindPrompts {f : List FrameRef → Code β} (fit : Fit old) (told : x.told = 0)
    (goesOn : ∀ l n, Prompts old 0 n →
      Does old (on { x with told := n, lost := 0 }) (f l) post) :
    Does old (on x) (Aborting.unwindPrompts >>= f) post := by
  have unwound : Does old (on x) Aborting.unwindPrompts fun _ k =>
      ∃ n, Prompts old 0 n ∧ k = on { x with told := n, lost := 0 } := by
    refine does_currentEngine on_free fun e here => does_live fun k le _ => ?_
    obtain rfl : k = 0 := by omega
    exact does_leavePrompts fit here told (Nat.zero_le _)
  refine unwound.bind ?_
  rintro l _ ⟨n, between, rfl⟩
  exact goesOn l n between

/-- What lies below the nested prompts is found though some of these may have left. -/
theorem find_refs (fit : Fit old) (between : Prompts old j n) :
    (refs old j).find? (·.kind ≠ .nestedPrompt) = (refs old n).head? := by
  obtain ⟨le, inside, prompts, other⟩ := between
  induction le using Nat.decreasingInduction with
  | self =>
    rcases Nat.eq_or_lt_of_le inside with rfl | lt
    · rw [refs_length fit]
      rfl
    · rw [refs_of_lt lt, List.find?_cons_of_pos (by simpa using other lt)]
      rfl
  | of_succ j lt ih =>
    have lt' : j < old.frames.above.length := by omega
    rw [refs_of_lt lt', List.find?_cons_of_neg (by simpa using prompts j lt' le_rfl lt)]
    exact ih fun i lt le lt' => prompts i lt (by omega) lt'

/-- The stop below the nested prompts is told to end the command. -/
theorem does_exitDebugger {f : Option FrameRef → Code β} (fit : Fit old) (between : Prompts old 0 x.told)
    (goesOn : ∀ left told lost, Does old (on { x with told, lost }) (f left) post) :
    Does old (on x) (Aborting.exitDebugger .stop >>= f) post := by
  have told : Does old (on x) (Aborting.exitDebugger .stop) fun _ k =>
      ∃ told lost, k = on { x with told, lost } := by
    refine does_live fun k le _ => ?_
    have below : Prompts old k x.told :=
      ⟨le, between.inside, fun i lt _ => between.prompts i lt (Nat.zero_le i), between.other⟩
    rw [find_refs fit below]
    rcases Nat.eq_or_lt_of_le between.inside with bottom | lt
    · rw [bottom, refs_length fit]
      exact does_done ⟨_, _, rfl⟩
    · rw [refs_of_lt lt, List.head?_cons]
      simp only []
      split
      · exact does_tryExit (x := { x with lost := k }) fit lt le_rfl (fun _ => rfl)
          fun won => does_done ⟨_, _, rfl⟩
      · exact does_done ⟨_, _, rfl⟩
  refine told.bind ?_
  rintro left _ ⟨told, lost, rfl⟩
  exact goesOn left told lost

/-- What runs is stopped: nested prompts on top and a stop below them are told to exit, or else the
engine is asked to stop. -/
theorem does_abort {f : Unit → Code β} (fit : Fit old) (told : x.told = 0)
    (goesOn : ∀ told lost, Does old (on { x with told, lost }) (f ()) post) :
    Does old (on x) (Aborting.abort true >>= f) post := by
  have aborted : Does old (on x) (Aborting.abort true) fun _ k => ∃ told lost, k = on { x with told, lost } := by
    refine Does.after (by simp [aside, isAside]) on_free fun begun => ?_
    rcases begun with _ | ⟨before, debugger⟩
    · exact does_done ⟨_, _, rfl⟩
    · refine does_currentEngine on_free fun e here => ?_
      have told' (told lost : Nat) : Does old (on { x with told, lost })
          (do
            Code.broker (.notify (.progress .aborted false))
            if before ≠ .running then
              let _ : Bool ← Code.broker (.setPhase .ready)) fun _ k =>
            ∃ told lost, k = on { x with told, lost } := by
        refine Does.after (by simp [aside, isAside]) on_free fun _ => ?_
        split
        · exact Does.after (by simp [aside, isAside]) on_free fun _ => does_done ⟨_, _, rfl⟩
        · exact does_done ⟨_, _, rfl⟩
      cases debugger with
      | false =>
        exact Does.after (by simp [aside, isAside, here, mayWait, isDeed]) on_free fun _ => told' _ _
      | true =>
        refine does_unwindPrompts fit told fun _ n between => ?_
        refine Does.after (by simp [aside, isAside, here, mayWait, isDeed]) on_free fun _ => ?_
        exact does_exitDebugger fit between fun _ told lost => told' told lost
  refine aborted.bind ?_
  rintro _ _ ⟨told, lost, rfl⟩
  exact goesOn told lost

/-- All frames that are left are told to exit. A thread serves each of them. -/
theorem does_endFrames (fit : Fit old) (le : j ≤ x.told) (inside : j ≤ old.frames.above.length) :
    Does old (on x) (Aborting.endFrames (refs old j)) fun served k =>
      served = (old.frames.above.drop j).map old.frames.ref ∧
        ∃ told, old.frames.above.length ≤ told ∧ k = on { x with told } := by
  induction left : old.frames.above.length - j generalizing j x with
  | zero =>
    obtain rfl : j = old.frames.above.length := by omega
    rw [refs_length fit]
    exact does_done ⟨by simp, x.told, le, rfl⟩
  | succ left ih =>
    have lt : j < old.frames.above.length := by omega
    rw [refs_of_lt lt, Aborting.endFrames, if_pos (fit.frames _ (List.getElem_mem lt)).1]
    refine does_tryExit fit lt le (fun _ => rfl) fun _ => ?_
    rw [ref_id fit]
    refine does_act (.frames (.hasServer _)) on_free (List.getElem_mem lt)
      fun _ _ _ served _ k _ noted => ?_
    cases served with
    | false => cases noted
    | true =>
      cases noted
      show Does old _ (do
        let rest ← Aborting.endFrames (refs old (j + 1))
        return old.frames.ref old.frames.above[j] :: rest) _
      have next := ih (x := { x with told := max x.told (j + 1) }) (j := j + 1)
        (by simp only; omega) lt (by omega)
      refine next.bind fun _ k => ?_
      rintro ⟨rfl, told, all, rfl⟩
      refine does_done ⟨?_, told, all, rfl⟩
      rw [List.drop_eq_getElem_cons lt, List.map_cons]

/-! ## The end -/

/-- The flow waits for frames that it has told to exit. -/
theorem does_awaitFinish (frames : List FrameRef) (told : ∀ f ∈ frames, Among old x.told f.id)
    (early : x.ending = none) :
    Does old (on x) (Aborting.awaitFinish frames) fun _ k =>
      ∃ finished, (∀ f ∈ frames, f.id ∈ finished) ∧ x.finished ⊆ finished ∧
        k = on { x with finished } := by
  induction frames generalizing x with
  | nil => exact does_done ⟨_, by rintro _ ⟨⟩, List.Subset.refl _, rfl⟩
  | cons f rest ih =>
    refine does_act (.frames (.awaitFinish f.id)) on_free ?_ fun _ _ _ _ _ k _ noted => ?_
    · refine ⟨⟨rfl, rfl⟩, ?_⟩
      rintro _ ⟨⟩
      exact ⟨early, told f List.mem_cons_self⟩
    · cases noted
      refine (ih (x := { x with finished := f.id :: x.finished })
        (fun g hg => told g (List.mem_cons_of_mem f hg)) early).imp fun _ k => ?_
      rintro ⟨finished, all, more, rfl⟩
      have more' : f.id ∈ finished ∧ x.finished ⊆ finished := List.cons_subset.mp more
      exact ⟨finished, List.forall_mem_cons.mpr ⟨more'.1, all⟩, more'.2, rfl⟩

/-- The deeds of a change are done one after the other. -/
theorem does_change {op : EngineOp} {e : EngineName} {rest : List Deed} {f : op.Reply → Code β}
    (free : ∀ i, h.duty ≠ .waits i) (here : known old e) (deed : isDeed op) (now : mayWait op = false)
    (goesOn : ∀ r, Does old { h with change := some rest } (f r) post) :
    Does old { h with change := some ((e, op) :: rest) } (Code.engine e op >>= f) post := by
  refine does_act (.engine e op) free ⟨here, now, fun _ => ⟨rest, rfl⟩⟩
    fun _ _ _ r _ k _ noted => ?_
  simp only [note, deed, if_true] at noted
  cases noted
  exact goesOn r

/-- So are those at the end. -/
theorem does_last {op : EngineOp} {e : EngineName} {rest : List Deed} {f : op.Reply → Code β}
    (here : known old e) (deed : isDeed op) (now : mayWait op = false)
    (goesOn : ∀ r, Does old (on { x with ending := some rest }) (f r) post) :
    Does old (on { x with ending := some ((e, op) :: rest) }) (Code.engine e op >>= f) post := by
  refine does_act (.engine e op) on_free ⟨here, now, fun _ => ⟨rest, rfl⟩⟩
    fun _ _ _ r _ k _ noted => ?_
  simp only [note, deed, if_true] at noted
  cases noted
  exact goesOn r

/-- A session is popped, with what that brings about for hooks and engines, or there is none to pop. -/
theorem does_pop {f : Option Session → Code β} {change : SessionChange} (free : ∀ i, h.duty ≠ .waits i)
    (unchanged : h.change = none) (early : ∀ x, h.reach = some x → x.ending = none)
    (nothing : Does old (h.advance ({ · with bare := true })) (f none) post)
    (popped : ∀ s, Does old h (f (some s)) post) :
    Does old h (SessionChanges.pop change >>= f) post := by
  let mid (s : Option Session) (k : Charge) : Prop :=
    s.elim (k = h.advance ({ · with bare := true })) fun _ => k = h
  have changed : Does old h (SessionChanges.pop change) mid := by
    refine does_act (.sessions .pop) free ⟨unchanged, early⟩ fun _ _ _ found _ k _ noted => ?_
    rcases found with _ | ⟨s, now⟩
    · cases noted
      exact does_done rfl
    · simp only [note, noteSessions] at noted
      split at noted
      · next here =>
        rw [Bool.and_eq_true] at here
        cases noted
        -- what is told at last, and what comes before it
        have told : Does old { h with change := some [] } (do
            Code.broker (.notify (.sessionChanged change now))
            return some s) mid := by
          refine does_act (.broker (.notify _)) free rfl fun _ _ _ _ _ k _ noted => ?_
          cases noted
          refine does_done (show _ = h from ?_)
          rw [← unchanged]
        have closed : Does old { h with change := some (if s.ownsEngine then [(s.engine, .close)] else []) }
            (do
              if s.ownsEngine then Code.engine s.engine .close
              Code.broker (.notify (.sessionChanged change now))
              return some s) mid := by
          split
          · exact does_change free here.1 rfl rfl fun _ => told
          · exact told
        simp only [popDeeds, Program.done_bind]
        by_cases owns : s.ownsHooks
        · by_cases also : now.ownsHooks
          · simp only [owns, also, if_true]
            exact does_change free here.1 rfl rfl fun _ => does_change free here.2 rfl rfl fun _ => closed
          · simp only [owns, also, if_true, Bool.false_eq_true, if_false]
            exact does_change free here.1 rfl rfl fun _ => closed
        · simp only [owns, Bool.false_eq_true, if_false]
          exact closed
      · cases noted
  refine changed.bind fun s k same => ?_
  cases s with
  | none => exact (show k = _ from same) ▸ nothing
  | some s => exact (show k = h from same) ▸ popped s

/-- Sessions are popped until only the bottom one is left. -/
theorem does_popAll (looked : x.looked) (early : x.ending = none) :
    Does old (on x) SessionChanges.popAll fun _ k => k = on { x with bare := true } := by
  have early' : ∀ y, (on x).reach = some y → y.ending = none := by
    rintro _ ⟨⟩
    exact early
  refine does_pop on_free rfl early' (does_done rfl) fun s => ?_
  refine does_call .popSessions ⟨x, rfl, looked, early⟩ ?_
  rintro _ _ rfl
  exact does_done rfl

/-- The bottom session is given up at the very end. -/
theorem does_end (fit : Fit old) (bare : x.bare) (early : x.ending = none)
    (finished : ∀ i ∈ old.frames.above.drop x.lost, i ∈ x.finished) :
    Does old (on x) (do
      let bottom : Session ← Code.sessions .bottom
      if bottom.ownsHooks then Code.engine bottom.engine .unregister
      if bottom.ownsEngine then Code.engine bottom.engine .close
      Code.idle (.setActive false)
      let _ : Bool ← Code.broker (.setPhase .disposed)) fun _ k => ∃ y, k = on y ∧ y.ended := by
  refine does_act (.sessions .bottom) on_free ⟨rfl, x, rfl, bare, early⟩
    fun _ _ _ s _ k _ noted => ?_
  simp only [note, noteSessions] at noted
  split at noted
  · next same =>
    cases noted
    have here : known old s.engine := by
      rw [same]
      exact fit.engines _ (by simp [SessionStack.toList])
    rw [← same]
    have past : Does old (on { x with ending := some [] }) (do
        Code.idle (.setActive false)
        let _ : Bool ← Code.broker (.setPhase .disposed)) fun _ k => ∃ y, k = on y ∧ y.ended := by
      refine Does.after (by simp [aside, isAside]) on_free fun _ => ?_
      refine does_act (.broker (.setPhase .disposed)) on_free
        (.inr ⟨rfl, _, rfl, rfl, finished⟩) fun _ _ _ _ _ k _ noted => ?_
      cases noted
      exact does_done ⟨_, rfl, rfl⟩
    have closed : Does old
        (on { x with ending := some (if s.ownsEngine then [(s.engine, .close)] else []) }) (do
          if s.ownsEngine then Code.engine s.engine .close
          Code.idle (.setActive false)
          let _ : Bool ← Code.broker (.setPhase .disposed)) fun _ k => ∃ y, k = on y ∧ y.ended := by
      split
      · exact does_last here rfl rfl fun _ => past
      · exact past
    simp only [lastDeeds, Program.done_bind]
    by_cases owns : s.ownsHooks
    · simp only [owns, if_true]
      exact does_last here rfl rfl fun _ => closed
    · simp only [owns, Bool.false_eq_true, if_false]
      exact closed
  · cases noted

/-- What comes after the abort. -/
theorem does_unwind (fit : Fit old) (looked : x.looked) (early : x.ending = none) :
    Does old (on x) (do
      let live : List FrameRef ← Code.frames .live
      let served ← Aborting.endFrames live
      Aborting.awaitFinish served
      Code.invoke .popSessions
      let bottom : Session ← Code.sessions .bottom
      if bottom.ownsHooks then Code.engine bottom.engine .unregister
      if bottom.ownsEngine then Code.engine bottom.engine .close
      Code.idle (.setActive false)
      let _ : Bool ← Code.broker (.setPhase .disposed)) fun _ k => ∃ y, k = on y ∧ y.ended := by
  refine does_live fun k le inside => ?_
  refine (does_endFrames (x := { x with lost := k }) fit le inside).bind fun served _ => ?_
  rintro ⟨rfl, told, all, rfl⟩
  refine (does_awaitFinish (x := { x with told, lost := k }) _ ?_ early).bind fun _ _ => ?_
  · intro f hf
    obtain ⟨i, hi, rfl⟩ := List.mem_map.mp hf
    obtain ⟨j, lt, rfl⟩ := List.mem_iff_getElem.mp (List.mem_of_mem_drop hi)
    rw [ref_id fit]
    exact among_getElem lt (by simp only; omega)
  · rintro ⟨finished, waited, -, rfl⟩
    refine does_call .popSessions ⟨_, rfl, looked, early⟩ ?_
    rintro _ _ rfl
    refine does_end fit rfl early fun i hi => ?_
    have here : (old.frames.ref i).id ∈ finished := waited _ (List.mem_map_of_mem hi)
    rwa [ref_id fit] at here

theorem does_dispose (fit : Fit old) :
    Does old start Aborting.dispose fun _ k => ∃ y, k = on y ∧ y.ended := by
  refine does_act (.broker .phase) on_free trivial fun _ _ _ phase _ k _ noted => ?_
  by_cases past : phase = Phase.disposed
  · simp [note, noteBroker, start, past] at noted
  · have looked : k = on ⟨true, 0, 0, [], false, none, false⟩ := by
      simpa [note, noteBroker, start, past, Charge.advance, eq_comm] using noted
    subst looked
    rw [Program.done_bind, if_neg past]
    exact does_abort fit rfl fun told lost => does_unwind fit rfl rfl

end SessionBroker.Teardown
