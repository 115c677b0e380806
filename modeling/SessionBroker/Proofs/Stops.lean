import SessionBroker.Proofs.Resumes

/-!
# Stops of the debugger

A stop that is serviced brings a frame of its own to the stack and says once that it is over, with what
the frame was told to exit with.
-/

namespace SessionBroker

/-- The frame that an act brings to the stack. -/
def Act.pushed? : Act brokerInterface World → Option FrameRef
  | ⟨_, _, .frames (.push ..), frame, _, _⟩ => some frame
  | _ => none

/-- What an act says of a stop of the debugger. -/
def Act.stopNotice? : Act brokerInterface World → Option Notice
  | ⟨_, _, .broker (.notify (.debuggerStop event)), _, _, _⟩ => some (.debuggerStop event)
  | ⟨_, _, .broker (.notify (.debuggerResumed action)), _, _, _⟩ => some (.debuggerResumed action)
  | _ => none

namespace Stops

/-- The frames that somebody has brought to the stack, the last one first. -/
def pushes (ds : List (Deed brokerInterface World)) : List FrameRef :=
  (ds.filterMap Deed.act?).filterMap Act.pushed?

/-- What somebody has said of stops, the last notice first. -/
def notices (ds : List (Deed brokerInterface World)) : List Notice :=
  (ds.filterMap Deed.act?).filterMap Act.stopNotice?

/-- How far a stop has come: the frames that it has pushed and what it has said, while it has taken off
none. -/
structure Stage (frames : List FrameRef) (said : List Notice) (ds : List (Deed brokerInterface World)) : Prop where
  pushed : pushes ds = frames
  said : notices ds = said
  kept : ∀ a, .act a ∈ ds → Demolition.removed a = []

variable {frames : List FrameRef} {said : List Notice} {ds new : List (Deed brokerInterface World)}
  {flow : Nat} {who : Proc} {event : StopEvent} {frame : FrameRef} {action : ResumeAction}

theorem silent_of_steady {a : Act brokerInterface World} (steady : a.action.IsSteady) :
    a.pushed? = none ∧ a.stopNotice? = none ∧ Demolition.removed a = [] := by
  obtain ⟨flow, proc, action, r, w, u⟩ := a
  rcases action with _ | op | _ | _ | _ | op
  case frames => cases op <;> first | exact steady.elim | exact ⟨rfl, rfl, rfl⟩
  case broker =>
    cases op
    case notify n => cases n <;> first | exact steady.elim | exact ⟨rfl, rfl, rfl⟩
    all_goals exact ⟨rfl, rfl, rfl⟩
  all_goals exact ⟨rfl, rfl, rfl⟩

/-- Steady deeds bring no stop further. -/
theorem Stage.grow (stage : Stage frames said ds) (steady : ∀ d ∈ new, Deed.Stays steadyScope d) :
    Stage frames said (new ++ ds) := by
  have silent : ∀ a ∈ new.filterMap Deed.act?,
      a.pushed? = none ∧ a.stopNotice? = none ∧ Demolition.removed a = [] := by
    intro a ha
    obtain ⟨d, hd, same⟩ := List.mem_filterMap.mp ha
    exact silent_of_steady (by simpa [Deed.act?_eq_some.mp same, Deed.Stays] using steady d hd)
  refine ⟨?_, ?_, fun a ha => ?_⟩
  · simpa [pushes, List.filterMap_eq_nil_iff.mpr fun a ha => (silent a ha).1] using stage.pushed
  · simpa [notices, List.filterMap_eq_nil_iff.mpr fun a ha => (silent a ha).2.1] using stage.said
  · rcases List.mem_append.mp ha with ha | ha
    · exact (silent a (List.mem_filterMap.mpr ⟨_, ha, rfl⟩)).2.2
    · exact stage.kept a ha

theorem Stage.cons (stage : Stage frames said ds) {a : Act brokerInterface World}
    (keeps : Demolition.removed a = []) :
    Stage (a.pushed?.toList ++ frames) (a.stopNotice?.toList ++ said) (.act a :: ds) := by
  refine ⟨?_, ?_, fun b hb => ?_⟩
  · rw [← stage.pushed]
    show List.filterMap _ (a :: _) = _
    rw [List.filterMap_cons]
    cases a.pushed? <;> rfl
  · rw [← stage.said]
    show List.filterMap _ (a :: _) = _
    rw [List.filterMap_cons]
    cases a.stopNotice? <;> rfl
  · rcases List.mem_cons.mp hb with same | hb
    · cases same
      exact keeps
    · exact stage.kept b hb

section Stages

variable {α β : Type} {post : List (Deed brokerInterface World) → α → Prop}

/-- What follows something steady. -/
theorem Stage.next (stage : Stage frames said ds) {q : Code β} {f : β → Code α} (h : q.Within steadyScope)
    (hf : ∀ b all, Stage frames said all → (∀ d ∈ ds, d ∈ all) → (f b).Comes brokerMachine flow who post all) :
    (q >>= f).Comes brokerMachine flow who post ds :=
  Program.comes_then h fun new b steady =>
    hf b _ (stage.grow steady) fun _ hd => List.mem_append_right new hd

/-- What follows a single action. -/
theorem Stage.perform (stage : Stage frames said ds) {todo : Action} {f : todo.Reply → Code α}
    (keeps : ∀ r w u, Demolition.removed ⟨flow, who, todo, r, w, u⟩ = [])
    (hf : ∀ pick r w u, World.perform flow pick todo w = some (r, u) → ∀ all,
      Stage ((Act.pushed? ⟨flow, who, todo, r, w, u⟩).toList ++ frames)
        ((Act.stopNotice? ⟨flow, who, todo, r, w, u⟩).toList ++ said) all →
      (∀ d ∈ .act ⟨flow, who, todo, r, w, u⟩ :: ds, d ∈ all) → (f r).Comes brokerMachine flow who post all) :
    (Program.perform (I := brokerInterface) todo >>= f).Comes brokerMachine flow who post ds :=
  Program.comes_perform fun pick r w u performed =>
    hf pick r w u performed _ (stage.cons (keeps r w u)) fun _ hd => hd

end Stages

/-- What a stop came to that was serviced in a frame. -/
structure Account (event : StopEvent) (action : ResumeAction) (frame : FrameRef)
    (ds : List (Deed brokerInterface World)) : Prop where
  pushed : pushes ds = [frame]
  kind : frame.kind = .debug
  boxed : frame.hasMailbox = true
  said : ∃ look, .act look ∈ ds ∧ look.action = .frames (.hasExited frame.id) ∧
    notices ds = .debuggerResumed action ::
      if (look.before.frames.exit? frame.id).isSome then [] else [.debuggerStop event]
  looped : .call (.messageLoop frame) action ∈ ds
  left : ∃ bye older, .act bye :: older <:+ ds ∧ bye.action = .frames (.remove frame.id) ∧
    ∃ a, .act a ∈ older ∧ Serving.Known a.after.frames frame
  tidied : ∀ a, .act a ∈ ds → ∀ i ∈ Demolition.removed a,
    (∃ b, .act b ∈ ds ∧ b.action = .frames (.dispose i)) ∧ ∃ b, .act b ∈ ds ∧ b.action = .frames (.closeGate i)

theorem comes_tearDown (gone : List Nat) : (Aborting.tearDown gone).Comes brokerMachine flow who
    (fun all _ => pushes all = pushes ds ∧ notices all = notices ds ∧ ds <:+ all ∧
      (∀ a, .act a ∈ all → .act a ∈ ds ∨ Demolition.removed a = []) ∧
      ∀ i ∈ gone, (∃ b, .act b ∈ all ∧ b.action = .frames (.dispose i)) ∧
        ∃ b, .act b ∈ all ∧ b.action = .frames (.closeGate i)) ds := by
  induction gone generalizing ds with
  | nil => exact ⟨rfl, rfl, List.suffix_rfl, fun _ h => .inl h, by simp⟩
  | cons i rest ih =>
    intro _ r w u _ _ r' w' u' _
    refine ih.imp ?_
    rintro all - ⟨pushed, said, old, kept, down⟩
    refine ⟨pushed, said, ((List.suffix_cons ..).trans (List.suffix_cons ..)).trans old, fun a ha => ?_,
      List.forall_mem_cons.mpr ⟨⟨⟨_, old.subset (List.mem_cons_of_mem _ List.mem_cons_self), rfl⟩,
        ⟨_, old.subset List.mem_cons_self, rfl⟩⟩, down⟩⟩
    rcases kept a ha with here | none
    · rcases List.mem_cons.mp here with same | here
      · cases same
        exact .inr rfl
      · rcases List.mem_cons.mp here with same | here
        · cases same
          exact .inr rfl
        · exact .inl here
    · exact .inr none

theorem comes_popFrame (stage : Stage frames said ds) (i : Nat) :
    (Aborting.popFrame i).Comes brokerMachine flow who (fun all _ => pushes all = frames ∧ notices all = said ∧
      (∃ bye, .act bye :: ds <:+ all ∧ bye.action = .frames (.remove i)) ∧
      ∀ a, .act a ∈ all → ∀ j ∈ Demolition.removed a, (∃ b, .act b ∈ all ∧ b.action = .frames (.dispose j)) ∧
        ∃ b, .act b ∈ all ∧ b.action = .frames (.closeGate j)) ds := by
  intro _ gone w u _
  refine (comes_tearDown gone).imp ?_
  rintro all - ⟨pushed, said, old, kept, down⟩
  refine ⟨pushed.trans stage.pushed, said.trans stage.said, ⟨_, old, rfl⟩, fun a ha j hj => ?_⟩
  rcases kept a ha with here | none
  · rcases List.mem_cons.mp here with same | here
    · cases same
      exact down j hj
    · rw [stage.kept a here] at hj
      cases hj
  · rw [none] at hj
    cases hj

theorem comes_leaveStop (stage : Stage [frame] said ds) (kind : frame.kind = .debug)
    (boxed : frame.hasMailbox = true) (known : ∃ a, .act a ∈ ds ∧ Serving.Known a.after.frames frame)
    (spoken : ∃ look, .act look ∈ ds ∧ look.action = .frames (.hasExited frame.id) ∧
      said = if (look.before.frames.exit? frame.id).isSome then [] else [.debuggerStop event])
    (looped : .call (.messageLoop frame) action ∈ ds) :
    (Debugging.leaveStop frame action).Comes brokerMachine flow who (fun all _ => Account event action frame all) ds := by
  -- to take off the frame completes the account, whatever was done since the stop was said to be over
  have leave : ∀ new, (∀ d ∈ ds, d ∈ new) → Stage [frame] (.debuggerResumed action :: said) new →
      (Aborting.popFrame frame.id).Comes brokerMachine flow who (fun all _ => Account event action frame all) new := by
    intro new more stage
    refine (comes_popFrame stage frame.id).imp ?_
    rintro all - ⟨pushed, spoke, ⟨bye, suffix, left⟩, tidied⟩
    have old : ∀ d ∈ ds, d ∈ all := fun d hd => suffix.subset (List.mem_cons_of_mem _ (more d hd))
    obtain ⟨a, ha, there⟩ := known
    obtain ⟨look, here, looked, same⟩ := spoken
    refine ⟨pushed, kind, boxed, ⟨look, old _ here, looked, ?_⟩, old _ looped,
      ⟨bye, new, suffix, left, a, more _ ha, there⟩, tidied⟩
    rw [spoke, same]
  refine stage.perform (by intros; rfl) fun _ _ w u _ d1 stage m1 => ?_
  refine stage.perform (by intros; rfl) fun _ _ w u _ d2 stage m2 => ?_
  have more : ∀ d ∈ ds, d ∈ d2 := fun d hd => m2 d (List.mem_cons_of_mem _ (m1 d (List.mem_cons_of_mem _ hd)))
  split
  · refine stage.next (by simp) fun session d3 stage m3 => ?_
    split
    · refine stage.next (by simp) fun _ d4 stage m4 => ?_
      exact leave d4 (fun d hd => m4 d (m3 d (more d hd))) stage
    · exact leave d3 (fun d hd => m3 d (more d hd)) stage
  · refine stage.next (by simp) fun _ d3 stage m3 => ?_
    exact leave d3 (fun d hd => m3 d (more d hd)) stage

theorem comes_serviceStop (stage : Stage [] [] ds) :
    (Debugging.serviceStop event).Comes brokerMachine flow who
      (fun all action => ∃ frame, Account event action frame all) ds := by
  refine stage.perform (by intros; rfl) fun _ _ w u _ _ stage _ => ?_
  refine stage.next (by simp) fun attached _ stage _ => stage.next (by simp) fun _ _ stage _ => ?_
  refine stage.next (by simp) fun interrupted _ stage _ => stage.next (by simp) fun _ _ stage _ => ?_
  refine stage.next (by simp) fun session _ stage _ => ?_
  refine stage.perform (by intros; rfl) fun pick frame w u pushed d1 stage m1 => ?_
  obtain ⟨there, -, kind, boxed⟩ := Serving.known_push pushed
  refine stage.next (by simp) fun settings d2 stage m2 => stage.next (by simp) fun _ d3 stage m3 => ?_
  refine stage.next (by simp) fun _ d4 stage m4 => ?_
  have known : ∃ a, .act a ∈ d4 ∧ Serving.Known a.after.frames frame :=
    ⟨_, m4 _ (m3 _ (m2 _ (m1 _ List.mem_cons_self))), there⟩
  refine stage.perform (by intros; rfl) fun pick exited w u looked d5 stage m5 => ?_
  obtain rfl : (w.frames.exit? frame.id).isSome = exited := by cases looked; rfl
  -- the stop is announced unless the frame was told to exit already; what follows is the same
  have rest : ∀ all, (∀ d ∈ d5, d ∈ all) →
      Stage [frame] (if (w.frames.exit? frame.id).isSome then [] else [.debuggerStop event]) all →
      (Code.invoke (.messageLoop frame) >>= fun action : ResumeAction => do
        Debugging.leaveStop frame action
        return action).Comes brokerMachine flow who (fun all action => ∃ frame, Account event action frame all) all := by
    refine fun all more stage => Program.comes_invoke fun action => ?_
    obtain ⟨a, ha, there⟩ := known
    have looped : Stage [frame] _ (.call (.messageLoop frame) action :: all) :=
      ⟨stage.pushed, stage.said, fun a ha => stage.kept a (List.mem_of_ne_of_mem (by rintro ⟨⟩) ha)⟩
    refine Program.Comes.bind (comes_leaveStop looped kind (boxed (by simp))
      ⟨a, List.mem_cons_of_mem _ (more _ (m5 _ (List.mem_cons_of_mem _ ha))), there⟩
      ⟨_, List.mem_cons_of_mem _ (more _ (m5 _ List.mem_cons_self)), rfl, rfl⟩ List.mem_cons_self) ?_
    exact fun all _ account => ⟨frame, account⟩
  rcases exited : (w.frames.exit? frame.id).isSome with _ | _
  · rw [exited] at rest
    exact stage.perform (by intros; rfl) fun _ _ _ _ _ d6 stage m6 =>
      rest d6 (fun d hd => m6 d (List.mem_cons_of_mem _ hd)) stage
  · rw [exited] at rest
    exact stage.next (by simp [Program.onlyIf]) fun _ d6 stage m6 => rest d6 m6 stage

/-- To let go of the broker adds nothing to the account. -/
theorem Account.letGo (account : Account event action frame ds) {u : Unit} {v w : World} :
    Account event action frame (.act ⟨flow, who, .broker .letGo, u, v, w⟩ :: ds) := by
  have more : ∀ d ∈ ds, d ∈ .act ⟨flow, who, .broker .letGo, u, v, w⟩ :: ds := fun d hd =>
    List.mem_cons_of_mem _ hd
  obtain ⟨pushed, kind, boxed, ⟨look, here, looked⟩, looped, ⟨bye, older, suffix, left⟩, tidied⟩ := account
  refine ⟨pushed, kind, boxed, ⟨look, more _ here, looked⟩, more _ looped,
    ⟨bye, older, suffix.trans (List.suffix_cons ..), left⟩, fun a ha i hi => ?_⟩
  rcases List.mem_cons.mp ha with same | ha
  · cases same
    cases hi
  · obtain ⟨⟨b, hb, disposed⟩, b', hb', closed⟩ := tidied a ha i hi
    exact ⟨⟨b, more _ hb, disposed⟩, b', more _ hb', closed⟩

/-- A stop has nobody to service it, or it is serviced in a frame of its own. -/
theorem comes_stopped (e : EngineName) : (Debugging.stopped .broker e event).Comes brokerMachine flow who
    (fun ds action => pushes ds = [] ∧ notices ds = [] ∧ action = .continue ∨
      ∃ frame, Account event action frame ds) [] := by
  have start : Stage [] [] [] := ⟨rfl, rfl, by rintro _ ⟨⟩⟩
  refine start.perform (by intros; rfl) fun _ alive _ _ _ _ stage _ => ?_
  cases alive with
  | false => exact .inl ⟨stage.pushed, stage.said, rfl⟩
  | true =>
    refine Program.Comes.bind (comes_serviceStop stage) fun ds action ⟨frame, account⟩ => ?_
    exact Program.comes_perform fun _ _ w u _ => .inr ⟨frame, account.letGo⟩

/-! ## Those who have returned -/

/-- Whether a request to resume the debugger was granted for a frame. -/
def resumes (i : Nat) : Return brokerInterface World → Bool
  | ⟨_, .resumeDebugger .., true, ds⟩ => (ds.filterMap Deed.act?).any (Act.sets i)
  | _ => false

theorem sets_of_resumes {i : Nat} {r : Return brokerInterface World} (granted : resumes i r = true) :
    ∃ a, .act a ∈ r.deeds ∧ a.sets i = true := by
  unfold resumes at granted
  split at granted
  · obtain ⟨a, ha, sets⟩ := List.any_eq_true.mp granted
    exact ⟨a, Return.mem_acts.mp ha, sets⟩
  · cases granted

/-- What has become of a stop of the debugger that was serviced. -/
structure Protocol (c : Chronicle) (event : StopEvent) (action : ResumeAction) (frame : FrameRef)
    (ds : List (Deed brokerInterface World)) : Prop where
  /-- It had one frame, of its own. -/
  served : pushes ds = [frame] ∧ frame.kind = .debug
  /-- It said once that it was over, and that it began unless the frame was told to exit before that. -/
  said : ∃ look, .act look ∈ ds ∧ look.action = .frames (.hasExited frame.id) ∧
    notices ds = .debuggerResumed action ::
      if (look.before.frames.exit? frame.id).isSome then [] else [.debuggerStop event]
  /-- Nobody says such things but who services a stop. -/
  others : ∀ a ∈ c.log, a.stopNotice? ≠ none → Proc.IsStop a.proc
  /-- It ended as the only one said who set the exit of the frame, or went on if nobody did. -/
  told : c.exitsOf frame.id = [action] ∨ c.exitsOf frame.id = [] ∧ action = .continue
  /-- At most one request to resume the debugger was granted for it, and that asked for this end. -/
  granted : c.returns.countP (resumes frame.id) ≤ 1
  asked : ∀ flow action' wait ds', ⟨flow, .resumeDebugger action' wait, true, ds'⟩ ∈ c.returns →
    resumes frame.id ⟨flow, .resumeDebugger action' wait, true, ds'⟩ = true → action' = action
  /-- Its frame is gone, and what the stop itself took off the stack is torn down. -/
  gone : c.IsGone frame.id
  tornDown : ∀ a, .act a ∈ ds → ∀ i ∈ Demolition.removed a, c.world.frames.isTornDown i = true

theorem not_mem_remove {s : FrameStack} (regular : s.Regular) (i : Nat) : i ∉ (s.remove i).2.above := by
  by_cases here : i ∈ s.above
  · obtain ⟨upper, lower, split, new⟩ := List.eq_append_cons_of_mem here
    rw [FrameStack.remove_of_split split new]
    have nodup := regular.nodup
    rw [split, List.nodup_middle, List.nodup_cons] at nodup
    exact fun low => nodup.1 (List.mem_append_right upper low)
  · rwa [FrameStack.remove_of_not_mem here]

variable {c : Chronicle} {i : Nat}

/-- A frame that one has taken off the stack is off. -/
theorem off_of_removed (lawful : c.Lawful) {a : Act brokerInterface World} (logged : a ∈ c.log)
    (bye : a.action = .frames (.remove i)) (known : i < a.after.frames.frames.length) :
    i ∉ c.world.frames.above := by
  obtain ⟨pick, performed⟩ := lawful.performed logged
  obtain ⟨flow, proc, action, gone, w, u⟩ := a
  obtain rfl : action = .frames (.remove i) := bye
  obtain ⟨-, left⟩ := Demolition.remove_perform (World.frames_step performed)
  refine (lawful.since logged).off known ?_
  rw [show u.frames = _ from left]
  exact not_mem_remove (lawful.sound_before logged).toRegular i

/-- A stop has nobody to service it, or its account is complete. -/
theorem account_of_return (lawful : c.Lawful) {e : EngineName}
    (here : ⟨flow, .debuggerStopped .broker e event, action, ds⟩ ∈ c.returns) (serviced : pushes ds ≠ []) :
    ∃ frame, Account event action frame ds := by
  rcases (comes_stopped e).leads (lawful.fits.returned _ here) with ⟨none, -⟩ | account
  · exact absurd none serviced
  · exact account

/-- Only stops are spoken of indiscreetly. -/
theorem isStop_of_log (kept : Demolition.Kept c) {a : Act brokerInterface World} (logged : a ∈ c.log)
    (speaks : ¬Action.IsDiscreet a.action) : Proc.IsStop a.proc := by
  by_contra away
  obtain ⟨ds, q, leads, done⟩ := kept.fits.leads_of_log logged
  have earnest := Demolition.earnest_of_log kept.fits kept.all logged
  exact speaks (leads.acts_within (discreet_body earnest away) done)

theorem stopNotice?_of_discreet {a : Act brokerInterface World} (discreet : Action.IsDiscreet a.action) :
    a.stopNotice? = none := by
  obtain ⟨flow, proc, action, r, w, u⟩ := a
  rcases action with _ | _ | _ | _ | _ | op
  case broker =>
    cases op
    case notify n => cases n <;> first | exact discreet.elim | rfl
    all_goals rfl
  all_goals rfl

theorem protocol_of_account (kept : Demolition.Kept c) (heard : c.annals.Heard) (tenanted : Serving.Tenanted c)
    (orderly : c.Orderly) {e : EngineName} (here : ⟨flow, .debuggerStopped .broker e event, action, ds⟩ ∈ c.returns)
    (account : Account event action frame ds) : Protocol c event action frame ds := by
  have lawful := kept.toLawful
  have logged : ∀ a, .act a ∈ ds → a ∈ c.log := fun a ha => lawful.fits.mem_log_of_return here ha
  obtain ⟨bye, older, suffix, left, a, ha, there⟩ := account.left
  have done : .act bye ∈ ds := suffix.subset List.mem_cons_self
  have known : Serving.Known c.world.frames frame :=
    there.later (lawful.since (logged a (suffix.subset (List.mem_cons_of_mem _ ha))))
  have debug : (c.world.frames.ref frame.id).kind = .debug := (congrArg FrameRef.kind known.2).trans account.kind
  have exit : c.world.frames.exit? frame.id = some action := by
    obtain ⟨ds', returned⟩ := heard.returned_call here account.looped
    exact Serving.endsTold lawful heard tenanted _ returned account.boxed
  have told := lawful.exits_of_exit exit
  have others : ∀ a ∈ c.log, a.stopNotice? ≠ none → Proc.IsStop a.proc := fun a logged speaks =>
    isStop_of_log kept logged fun discreet => speaks (stopNotice?_of_discreet discreet)
  refine ⟨⟨account.pushed, account.kind⟩, account.said, others, told, ?_, fun flow' x wait ds' asked granted => ?_, ?_,
    fun a ha i hi => ?_⟩
  · refine (lawful.fits.countP_returns_le (g := Act.sets frame.id) fun r _ granted => ?_).trans
      (lawful.countP_sets_le frame.id)
    exact sets_of_resumes granted
  · obtain ⟨a, ha, sets⟩ := sets_of_resumes granted
    obtain ⟨y, sets⟩ := Act.sets_iff.mp sets
    obtain ⟨-, rfl⟩ := Resumes.action_of_sets lawful asked ha sets debug
    have now := lawful.exit_of_sets (lawful.fits.mem_log_of_return asked ha) sets
    exact Option.some.inj (now.symm.trans exit)
  · have pos : 0 < frame.id := by
      refine Nat.pos_of_ne_zero fun zero => ?_
      rw [zero, lawful.sound.bottom] at debug
      cases debug
    have earlier : a.after.frames.Later bye.before.frames := by
      have acts := (orderly.returns _ here).sublist (suffix.sublist.filterMap Deed.act?)
      exact (List.pairwise_cons.mp acts).1 a (List.mem_filterMap.mpr ⟨_, ha, rfl⟩)
    obtain ⟨pick, performed⟩ := lawful.performed (logged bye done)
    have step := (World.framesLater_perform performed (lawful.sound_before (logged bye done))).2
    have off := off_of_removed lawful (logged bye done) left ((there.later earlier).later step).1
    exact kept.isGone pos known.1 off
  · obtain ⟨⟨b, hb, disposed⟩, b', hb', closed⟩ := account.tidied a ha i hi
    have finished := (kept.effective b (logged b hb)).disposed i disposed
    have shut := (kept.effective b' (logged b' hb')).closed i closed
    exact (Bool.and_eq_true _ _).mpr ⟨(lawful.since (logged b hb)).finished i finished,
      (lawful.since (logged b' hb')).shut i shut⟩

def outerStop : StopEvent := ⟨some "outer.ps1", some 1, []⟩

/-- An engine with two commands that stop the debugger. -/
def stoppingEndpoints : List (EngineName × Endpoint) :=
  [("main", ⟨.new ⟨5, 1⟩ ⟨1, "localhost", "host"⟩
    [("outer", .break outerStop), ("inner", .break ⟨some "inner.ps1", some 2, []⟩)], false, none, none⟩)]

/-- A broker that does not ask engines who they are. -/
def incurious : BrokerSettings := { BrokerSettings.standard with probes := false }

/-- A command stops, and a nested prompt is entered on top of the stop. -/
def promptOnStop : List Move :=
  [.arrive "set up" (.setUp "main" true)] ++ turns 0 20
    ++ [.arrive "outer" (.execute (.script "outer") .standard none)] ++ turns 1 60
    ++ [.arrive "prompt" .enterNestedPrompt] ++ turns 2 30 ++ turns 3 20

/-- The debugger is resumed. -/
def resumed : List Move :=
  [.arrive "resume" (.resume .stepOver false)] ++ turns 4 20 ++ turns 3 20 ++ turns 4 20 ++ turns 1 60

/-- A stop that has returned and was serviced in the frame with a number. -/
def servicedIn (i : Nat) : Return brokerInterface World → Bool
  | ⟨_, .debuggerStopped .broker _ _, _, ds⟩ => (pushes ds).map (·.id) = [i]
  | _ => false

theorem eq_of_servicedIn {i : Nat} {r : Return brokerInterface World} (h : servicedIn i r = true) :
    ∃ flow e event action ds, r = ⟨flow, .debuggerStopped .broker e event, action, ds⟩ ∧
      (pushes ds).map (·.id) = [i] := by
  obtain ⟨flow, proc, result, ds⟩ := r
  cases proc
  case debuggerStopped hooks e event =>
    cases hooks with
    | broker => exact ⟨flow, e, event, result, ds, rfl, of_decide_eq_true h⟩
    | plans => cases h
  all_goals cases h

end Stops

end SessionBroker
