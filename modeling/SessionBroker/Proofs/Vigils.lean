import SessionBroker.Proofs.Aborts
import SessionBroker.Proofs.Restarts

/-!
# Vigils

Whoever is to start the read loop again after a stop keeps vigil: he waits for the end of the stop's frame, looks at the
engine of the current session until he finds it usable, and last of all looks whether the broker is disposed. He acts
on what he has seen, so if somebody else acts in between it may be otherwise by then.
-/

namespace SessionBroker

/-- An action, what came of it, and the world in which it was performed. -/
structure View where
  action : Action
  reply : action.Reply
  before : World

def Act.view (a : Act brokerInterface World) : View := ⟨a.action, a.reply, a.before⟩

namespace World

variable {w u : World} {flow : Nat} {pick : Bool} {e : EngineName}

/-- Whether there is an engine with a name that takes commands. -/
def isUsable (w : World) (e : EngineName) : Bool := (w.endpoint? e).any (·.engine.availability.isUsable)

/-- Which engine is current, and which engines take commands. -/
def prospects (w : World) : EngineName × (EngineName → Bool) := (w.sessions.current.engine, w.isUsable)

theorem isUsable_perform {a : Availability} (h : perform flow pick (.engine e .availability) w = some (a, u)) :
    a.isUsable = w.isUsable e ∧ u.prospects = w.prospects := by
  simp only [perform, performEngine] at h
  split at h
  · cases h
  · next p here =>
    cases h
    refine ⟨by simp [isUsable, here], ?_⟩
    have same : (w.modifyEndpoint e fun _ => p).isUsable = w.isUsable := by
      funext name
      rw [isUsable, endpoint?_modifyEndpoint]
      by_cases own : name = e
      · simp [own, isUsable, here]
      · simp [own, isUsable]
    exact Prod.ext rfl same

theorem prospects_apply (change : Outside) (w : World) : (change.apply w).prospects = w.prospects := by
  have same : (change.apply w).isUsable = w.isUsable := by
    funext name
    have engines := congrArg (Option.any (·.availability.isUsable)) (Aborts.endpoint?_apply change w name)
    simpa [isUsable, Option.any_map, Function.comp_def] using engines
  refine Prod.ext ?_ same
  cases change <;> rfl

end World

namespace Chronicle

/-- What was not so when somebody acted and is so now, and does not come from outside, somebody has brought about. -/
def Seamless (c : Chronicle) : Prop :=
  ∀ P : World → Prop, (∀ (change : Outside) w, P (change.apply w) ↔ P w) → ∀ late a early, c.log = late ++ a :: early →
    ¬P a.before → P c.world → ∃ b ∈ late ++ [a], ¬P b.before ∧ P b.after

theorem Seamless.move {c : Chronicle} (seamless : c.Seamless) (mv : Move) : (c.move mv).Seamless := by
  intro P outside late a early split before now
  rcases c.log_move mv with ⟨log, world⟩ | ⟨b, pick, log, start, after, -⟩
  · have same : P c.world := by
      rcases world with same | ⟨change, same⟩ <;> rw [same] at now
      · exact now
      · exact (outside change _).mp now
    exact seamless P outside late a early (log ▸ split) before same
  · rcases List.cons_eq_append_iff.mp (log.symm.trans split) with ⟨rfl, same⟩ | ⟨late', rfl, rest⟩
    · obtain ⟨rfl, -⟩ := List.cons.inj same
      exact ⟨a, by simp, before, after ▸ now⟩
    · by_cases was : P b.before
      · obtain ⟨x, hx, brought⟩ := seamless P outside late' a early rest before (start ▸ was)
        exact ⟨x, List.mem_cons_of_mem b hx, brought⟩
      · exact ⟨b, List.mem_cons_self, was, after ▸ now⟩

theorem seamless_moves (settings : BrokerSettings) (endpoints : List (EngineName × Endpoint)) (main : EngineName)
    (host : Host) (ms : List Move) : ((new settings endpoints main host).moves ms).Seamless := by
  refine moves_keep (P := Seamless) (fun c mv seamless => seamless.move mv) (fun P _ late a early split => ?_) ms
  cases late <;> cases split

end Chronicle

namespace Restarts

variable {c : Chronicle} {settings : BrokerSettings} {i : Nat} {frame : FrameRef} {k : List View}

/-! ## What is seen on a vigil -/

/-- It was looked up which session is current, and then its engine was found usable. -/
structure Found (eng sess : View) : Prop where
  session : sess.action = .sessions .current
  engine : eng.action = .engine sess.before.sessions.current.engine .availability
  usable : eng.before.isUsable sess.before.sessions.current.engine = true

/-- The broker was found live. -/
structure Live (phase : View) : Prop where
  asked : phase.action = .broker .phase
  live : phase.before.phase ≠ .disposed

/-- The end of a frame has been waited for, and the read loop has not been started. -/
structure Waited (i : Nat) (k : List View) : Prop where
  ended : ∃ v ∈ k, v.action = .frames (.awaitFinish i)
  quiet : ∀ v ∈ k, v.action ≠ .host .startLoop

theorem Waited.cons (waited : Waited i k) {v : View} (other : v.action ≠ .host .startLoop) : Waited i (v :: k) where
  ended := waited.ended.imp fun _ there => ⟨List.mem_cons_of_mem v there.1, there.2⟩
  quiet := List.forall_mem_cons.mpr ⟨other, waited.quiet⟩

/-- A vigil in which the current session has been found usable last of all. -/
def Usable (i : Nat) (k : List View) : Prop :=
  ∃ eng sess older, k = eng :: sess :: older ∧ Found eng sess ∧ Waited i older

/-- A vigil that has come to its end. -/
def Ready (i : Nat) (k : List View) : Prop := ∃ phase older, k = phase :: older ∧ Live phase ∧ Usable i older

/-- What is seen on a vigil for the end of a frame. -/
def watch (i : Nat) : Lore brokerInterface World (List View) where
  blank := []
  note action r w k := ⟨action, r, w⟩ :: k
  acts action k := action = .host .startLoop → Ready i k
  calls
    | .restartLoop frame, k => frame.id = i ∧ k = []
    | .awaitUsable _, k => Waited i k
    | _, _ => False
  starts _ _ := True
  back
    | .awaitUsable _, _, _, k => Usable i k
    | _, _, _, _ => True

theorem recalled_watch (acts : List (Act brokerInterface World)) : (watch i).recalled acts = acts.map Act.view := by
  induction acts with
  | nil => rfl
  | cons a acts ih => exact congrArg (a.view :: ·) ih

theorem minds_awaitUsable (changes : Nat) (waited : Waited i k) :
    (Debugging.awaitUsable changes).Minds (watch i) brokerMachine (fun _ => Usable i) k := by
  refine ⟨by rintro ⟨⟩, fun _ _ w session _ current => ?_⟩
  cases current
  refine ⟨by rintro ⟨⟩, fun flow pick v availability _ asked => ?_⟩
  have asked : World.perform flow pick (.engine w.sessions.current.engine .availability) v = some (availability, _) :=
    asked
  have same := (World.isUsable_perform asked).1
  show Program.Minds _ _ _ (if availability.isUsable = true then pure () else _) _
  split
  · next usable => exact ⟨_, _, k, rfl, ⟨rfl, rfl, same ▸ usable⟩, waited⟩
  · refine ⟨by rintro ⟨⟩, fun _ _ _ _ _ _ => ⟨?_, fun _ _ usable => usable⟩⟩
    exact ((waited.cons (by rintro ⟨⟩)).cons (by rintro ⟨⟩)).cons (by rintro ⟨⟩)

theorem minds_restartLoop (frame : FrameRef) :
    (Debugging.restartLoop frame).Minds (watch frame.id) brokerMachine (fun _ _ => True) [] := by
  refine ⟨by rintro ⟨⟩, fun _ _ w _ _ _ => ⟨by rintro ⟨⟩, fun _ _ v changes _ _ => ⟨?_, fun _ k usable => ?_⟩⟩⟩
  · exact ⟨⟨_, List.mem_cons_of_mem _ List.mem_cons_self, rfl⟩, by simp [watch]⟩
  · refine ⟨by rintro ⟨⟩, fun _ _ w phase _ asked => ?_⟩
    cases asked
    have leave : ∀ k, (Code.broker .letGo).Minds (watch frame.id) brokerMachine (fun _ _ => True) k := fun k =>
      ⟨by rintro ⟨⟩, fun _ _ _ _ _ _ => trivial⟩
    show Program.Minds _ _ _ (if w.phase ≠ .disposed then Code.host .startLoop >>= fun _ => Code.broker .letGo
      else Code.broker .letGo) _
    split
    · next live => exact ⟨fun _ => ⟨_, k, rfl, ⟨rfl, live⟩, usable⟩, fun _ _ _ _ _ _ => leave _⟩
    · exact leave _

/-- Whoever keeps vigil sees what is to be seen. -/
theorem minds_body (proc : Proc) (k : List View) (called : (watch i).calls proc k) :
    (body proc).Minds (watch i) brokerMachine ((watch i).back proc k) k := by
  cases proc
  case restartLoop frame =>
    obtain ⟨rfl, rfl⟩ := called
    exact minds_restartLoop frame
  case awaitUsable changes => exact minds_awaitUsable changes called
  all_goals exact called.elim

theorem Ready.quiet (ready : Ready i k) : ∀ v ∈ k, v.action ≠ .host .startLoop := by
  obtain ⟨phase, _, rfl, live, eng, sess, older, rfl, found, waited⟩ := ready
  simpa [live.asked, found.engine, found.session] using waited.quiet

/-! ## What has been seen when the loop is started -/

/-- What one who acts in a flow has seen last of all, and what others have done meanwhile. -/
structure Sighting (c : Chronicle) (flow : Nat) where
  session : Act brokerInterface World
  engine : Act brokerInterface World
  phase : Act brokerInterface World
  /-- What others have done since the broker was found live. -/
  late : List (Act brokerInterface World)
  /-- What they had done since the engine was found usable. -/
  mid : List (Act brokerInterface World)
  /-- What they had done since the session was looked up. -/
  early : List (Act brokerInterface World)
  older : List (Act brokerInterface World)
  log : c.log = late ++ phase :: (mid ++ engine :: (early ++ session :: older))
  own : ∀ a ∈ [phase, engine, session], a.flow = flow
  others : ∀ a ∈ late ++ (mid ++ early), a.flow ≠ flow
  found : Found engine.view session.view
  live : Live phase.view

theorem exists_sighting {flow : Nat} (ready : Ready i ((c.log.filter (·.flow = flow)).map Act.view)) :
    ∃ s : Sighting c flow, Waited i ((s.older.filter (·.flow = flow)).map Act.view) := by
  obtain ⟨_, _, all, live, _, _, _, rfl, found, waited⟩ := ready
  obtain ⟨phase, _, own, rfl, before⟩ := List.map_eq_cons_iff.mp all
  obtain ⟨engine, _, rfl, rfl, earlier⟩ := List.map_eq_cons_iff.mp before
  obtain ⟨session, _, rfl, rfl, rfl⟩ := List.map_eq_cons_iff.mp earlier
  obtain ⟨late, _, log, late_others, mine, since⟩ := List.filter_eq_cons_iff.mp own
  obtain ⟨mid, _, rfl, mid_others, mine', before⟩ := List.filter_eq_cons_iff.mp since
  obtain ⟨early, older, rfl, early_others, mine'', rfl⟩ := List.filter_eq_cons_iff.mp before
  refine ⟨⟨session, engine, phase, late, mid, early, older, log, by simpa using And.intro mine (And.intro mine' mine''), ?_, found, live⟩,
    waited⟩
  simp only [List.mem_append]
  rintro a (here | here | here)
  · simpa using late_others a here
  · simpa using mid_others a here
  · simpa using early_others a here

section Looks

variable {a : Act brokerInterface World} (lawful : c.Lawful) (logged : a ∈ c.log)

include lawful logged

/-- Who looks at the broker's phase changes nothing. -/
theorem after_of_phase (asked : a.action = .broker .phase) : a.after = a.before := by
  obtain ⟨pick, performed⟩ := lawful.performed logged
  obtain ⟨flow, proc, action, r, w, u⟩ := a
  obtain rfl : action = .broker .phase := asked
  exact (congrArg Prod.snd (Option.some.inj performed)).symm

theorem after_of_current (asked : a.action = .sessions .current) : a.after = a.before := by
  obtain ⟨pick, performed⟩ := lawful.performed logged
  obtain ⟨flow, proc, action, r, w, u⟩ := a
  obtain rfl : action = .sessions .current := asked
  exact (congrArg Prod.snd (Option.some.inj performed)).symm

theorem prospects_of_availability {e : EngineName} (asked : a.action = .engine e .availability) :
    a.after.prospects = a.before.prospects := by
  obtain ⟨pick, performed⟩ := lawful.performed logged
  obtain ⟨flow, proc, action, r, w, u⟩ := a
  obtain rfl : action = .engine e .availability := asked
  exact (World.isUsable_perform performed).2

end Looks

section Sightings

variable {flow : Nat} (s : Sighting c flow) (lawful : c.Lawful) (seamless : c.Seamless)

include lawful seamless

/-- The broker is still live, unless somebody has disposed of it since. -/
theorem Sighting.disposed (disposed : c.world.phase = .disposed) :
    ∃ a ∈ s.late, a.before.phase ≠ .disposed ∧ a.after.phase = .disposed := by
  obtain ⟨a, ha, before, after⟩ := seamless (·.phase = .disposed) (fun change w => by cases change <;> exact .rfl) _ _ _
    s.log s.live.live disposed
  rcases List.mem_append.mp ha with here | own
  · exact ⟨a, here, before, after⟩
  · obtain rfl := List.mem_singleton.mp own
    have same := after_of_phase lawful (s.log ▸ by simp) s.live.asked
    exact absurd (same ▸ after) before

/-- The current session can still be used, unless somebody has changed since which engine is current or which engines
take commands. -/
theorem Sighting.unusable (unusable : c.world.isUsable c.world.sessions.current.engine = false) :
    ∃ a ∈ s.late ++ (s.mid ++ s.early), a.before.prospects ≠ a.after.prospects := by
  by_contra none
  have others : ∀ a ∈ s.late ++ (s.mid ++ s.early), a.before.prospects = a.after.prospects := by
    simpa using none
  have phase := congrArg World.prospects (after_of_phase lawful (s.log ▸ by simp) s.live.asked)
  have engine := prospects_of_availability lawful (s.log ▸ by simp) s.found.engine
  have session := congrArg World.prospects (after_of_current lawful (s.log ▸ by simp) s.found.session)
  -- what was to be seen then is to be seen still if nobody has changed it since
  have still : ∀ late look early, c.log = late ++ look :: early →
      (∀ b ∈ late ++ [look], b.before.prospects = b.after.prospects) → c.world.prospects = look.before.prospects := by
    intro late look early split same
    by_contra other
    obtain ⟨b, hb, before, after⟩ := seamless (·.prospects ≠ look.before.prospects)
      (fun change w => by rw [World.prospects_apply]) late look early split (by simp) other
    exact after ((same b hb).symm.trans (not_not.mp before))
  have usable := still (s.late ++ s.phase :: s.mid) s.engine (s.early ++ s.session :: s.older) (by simp [s.log])
    (by grind)
  have current := still (s.late ++ s.phase :: (s.mid ++ s.engine :: s.early)) s.session s.older (by simp [s.log])
    (by grind)
  have engine : c.world.sessions.current.engine = s.session.before.sessions.current.engine := congrArg Prod.fst current
  have found := s.found.usable
  rw [engine, show c.world.isUsable = s.engine.before.isUsable from congrArg Prod.snd usable] at unusable
  exact Bool.noConfusion (unusable.symm.trans found)

end Sightings

/-! ## Who starts the loop again -/

section Starting

/-- With whoever is to start the loop again, a flow has begun. -/
theorem first_of_tracked {flow : Nat} {wait : Waiting brokerInterface (.restartLoop frame)}
    {ts : List (Track brokerInterface World)} (tracked : wait.Tracked brokerMachine flow ts) :
    wait.first = .restartLoop frame ∧ ts = [] := by
  refine tracked.first.resolve_right ?_
  rintro ⟨caller, ds, lower, next, -, leads⟩
  obtain ⟨_, _, same, -⟩ := (leads.within (within_province caller)).1 rfl
  cases same

variable (watched : Watched settings c)

include watched

theorem ready_of_log {mv : Move} {a : Act brokerInterface World} (log : (c.move mv).log = a :: c.log)
    (proc : a.proc = .restartLoop frame) (starts : a.action = .host .startLoop) :
    Ready frame.id ((c.log.filter (·.flow = a.flow)).map Act.view) := by
  obtain ⟨next, wait, here⟩ := Chronicle.find_of_log log
  obtain ⟨flow, _, action, r, w, u⟩ := a
  obtain rfl : _ = Proc.restartLoop frame := proc
  obtain ⟨first, walks⟩ := watched.walked.of_find here
  obtain ⟨_, _, -, -, waiting⟩ := watched.fits.tracked_of_find here
  obtain rfl : .restartLoop frame = first := (first_of_tracked waiting).1.symm.trans walks.first
  have called : (watch frame.id).calls (.restartLoop frame) (watch frame.id).blank := ⟨rfl, rfl⟩
  obtain ⟨_, code, -⟩ := Lore.minds_walks minds_body called walks
  exact recalled_watch _ ▸ code.1 starts

/-- Nobody starts the loop a second time after a stop. -/
theorem once_move (once : c.log.countP (startsAfter i) ≤ 1) (mv : Move) :
    (c.move mv).log.countP (startsAfter i) ≤ 1 := by
  rcases c.log_move mv with ⟨log, -⟩ | ⟨a, pick, log, -⟩
  · exact log ▸ once
  · rw [log, List.countP_cons]
    split
    · next starts =>
      obtain ⟨frame, proc, action, rfl⟩ := of_startsAfter starts
      obtain ⟨next, wait, here⟩ := Chronicle.find_of_log log
      obtain ⟨ds, lower, tracks, -⟩ := watched.fits.tracked_of_find here
      have did : c.annals.Did a.flow a.proc ds := .inl (tracks ▸ List.mem_cons_self)
      have none : c.log.countP (startsAfter frame.id) = 0 := List.countP_eq_zero.mpr fun b hb again => by
        obtain ⟨frame', proc', action', same⟩ := of_startsAfter again
        obtain ⟨ds', did', -⟩ := watched.fits.did_of_log hb
        have flow : b.flow = a.flow := watched.alone _ _ _ _ _ _ (proc' ▸ did') (proc ▸ did) same
        have mine : b ∈ c.log.filter (·.flow = a.flow) := List.mem_filter.mpr ⟨hb, by simp [flow]⟩
        exact (ready_of_log watched log proc action).quiet b.view (List.mem_map_of_mem mine) action'
      omega
    · simpa using once

/-- A moment at which one who acts in a flow may start the loop again after the stop with a frame. -/
structure Timely (c : Chronicle) (flow : Nat) (frame : FrameRef) : Prop where
  /-- The frame is off the stack, and torn down unless those who took it off are at it. -/
  gone : c.IsGone frame.id
  ended : c.world.frames.isFinished frame.id = true
  /-- The current session was found usable, and then the broker live. If it is otherwise by now, others have changed that
  since then. -/
  seen : ∃ s : Sighting c flow,
    (c.world.phase = .disposed → ∃ a ∈ s.late, a.before.phase ≠ .disposed ∧ a.after.phase = .disposed) ∧
    (c.world.isUsable c.world.sessions.current.engine = false →
      ∃ a ∈ s.late ++ (s.mid ++ s.early), a.before.prospects ≠ a.after.prospects)

/-- Whoever is to start the loop again waits for the end of a frame until it has ended. -/
theorem ended_of_awaits {a : Act brokerInterface World} {ds : List (Deed brokerInterface World)} (logged : a ∈ c.log)
    (did : c.annals.Did a.flow (.restartLoop frame) ds) (awaits : a.action = .frames (.awaitFinish frame.id)) :
    a.before.frames.isFinished frame.id = true := by
  have known := watched.before a logged frame ds did
  have boxed := watched.boxed_before logged (watched.known _ _ _ did).2 known.1
  obtain ⟨pick, performed⟩ := watched.toLawful.performed logged
  obtain ⟨flow, proc, action, r, w, u⟩ := a
  obtain rfl : action = .frames (.awaitFinish frame.id) := awaits
  exact Demolition.isFinished_of_awaits boxed (World.frames_step performed)

/-- The loop is started again in time. -/
theorem timely (seamless : c.Seamless) {mv : Move} {a : Act brokerInterface World} (log : (c.move mv).log = a :: c.log)
    (proc : a.proc = .restartLoop frame) (starts : a.action = .host .startLoop) : Timely c a.flow frame := by
  obtain ⟨s, waited⟩ := exists_sighting (ready_of_log watched log proc starts)
  obtain ⟨next, wait, here⟩ := Chronicle.find_of_log log
  obtain ⟨ds, lower, tracks, -⟩ := watched.fits.tracked_of_find here
  have did : c.annals.Did a.flow (.restartLoop frame) ds := .inl (tracks ▸ proc ▸ List.mem_cons_self)
  obtain ⟨v, hv, awaits⟩ := waited.ended
  obtain ⟨b, hb, rfl⟩ := List.mem_map.mp hv
  obtain ⟨old, own⟩ := List.mem_filter.mp hb
  have own : b.flow = a.flow := of_decide_eq_true own
  have logged : b ∈ c.log := s.log ▸ by simp [old]
  have ended := ended_of_awaits watched logged (own ▸ did) awaits
  have known := watched.before b logged frame ds (own ▸ did)
  have later := watched.toLawful.since_before logged
  have off := later.off known.1 ((watched.effective b logged).ended _ ended)
  exact ⟨watched.isGone (watched.known a.flow frame ds did).2 (known.later later).1 off, later.finished _ ended, s,
    s.disposed watched.toLawful seamless, s.unusable watched.toLawful seamless⟩

/-- Whoever is to start the loop again and has done nothing yet is alone in his flow. -/
theorem waits_of_fresh {flow : Nat} (did : c.annals.Did flow (.restartLoop frame) []) :
    c.tracks flow = [⟨.restartLoop frame, []⟩] := by
  rcases did with here | ⟨x, back⟩
  · obtain ⟨⟨proc, code, wait⟩, hf, ds, lower, tracks, leads, waiting⟩ :=
      watched.fits.find_of_tracks (List.ne_nil_of_mem here)
    rcases List.mem_cons.mp (tracks ▸ here) with same | deeper
    · cases same
      obtain ⟨-, rfl⟩ := first_of_tracked waiting
      exact tracks
    · -- one who waits for somebody has done something
      obtain ⟨callee, next, way⟩ := waiting.waits deeper
      cases way
  · have way := watched.fits.returned _ back
    cases way

/-- What he does first is to see the frame of the stop ended. -/
theorem fresh_or_ended {flow : Nat} {ds : List (Deed brokerInterface World)}
    (did : c.annals.Did flow (.restartLoop frame) ds) :
    ds = [] ∨ ∃ a ∈ c.log, a.before.frames.isFinished frame.id = true := by
  obtain ⟨q, leads⟩ := did.leads watched.fits
  rcases Program.Leads.of_perform leads with rfl | ⟨r, w, u, late, rfl, -⟩
  · exact .inl rfl
  · have logged := did.mem_log watched.fits (List.mem_append_right late List.mem_cons_self)
    exact .inr ⟨_, logged, ended_of_awaits watched logged did rfl⟩

/-- Whoever is to start the loop again begins with nothing done, and does nothing until the frame of the stop has
ended. -/
theorem patient {mv : Move} {flow : Nat} {ds : List (Deed brokerInterface World)}
    (did : (c.move mv).annals.Did flow (.restartLoop frame) ds)
    (pending : (∀ ds', ¬c.annals.Did flow (.restartLoop frame) ds') ∨ c.world.frames.isFinished frame.id = false) :
    (c.move mv).tracks flow = [⟨.restartLoop frame, []⟩] := by
  suffices fresh : ds = [] from waits_of_fresh (watched.move mv) (fresh ▸ did)
  rcases pending with new | pending
  · rcases watched.recalled mv did with ⟨ds', old⟩ | ⟨fresh, -⟩
    · exact absurd old (new ds')
    · exact fresh
  · refine (fresh_or_ended (watched.move mv) did).resolve_right ?_
    rintro ⟨a, logged, ended⟩
    have gone : c.world.frames.isFinished frame.id = true := by
      rcases c.log_move mv with ⟨log, -⟩ | ⟨b, pick, log, before, -⟩
      · exact (watched.toLawful.since_before (log ▸ logged)).finished _ ended
      · rcases List.mem_cons.mp (log ▸ logged) with rfl | old
        · exact before ▸ ended
        · exact (watched.toLawful.since_before old).finished _ ended
    exact Bool.noConfusion (pending.symm.trans gone)

end Starting

/-! ## The loop is started again -/

/-- The broker is live, and whichever of some engines is current, it takes commands. -/
structure Fine (engines : EngineName → Prop) (w : World) : Prop where
  live : w.phase ≠ .disposed
  current : engines w.sessions.current.engine
  usable : ∀ e, engines e → w.isUsable e = true

theorem perform_availability {w : World} {e : EngineName} (usable : w.isUsable e = true) (flow : Nat) (pick : Bool) :
    ∃ (a : Availability) (u : World), World.perform flow pick (.engine e .availability) w = some (a, u) ∧
      a.isUsable = true := by
  obtain ⟨p, here, usable⟩ := (Option.any_eq_true _ _).mp usable
  refine ⟨p.engine.availability, w.modifyEndpoint e fun _ => p, ?_, usable⟩
  simp [World.perform, World.performEngine, here, Endpoint.perform]

theorem perform_awaitFinish {w : World} (ended : w.frames.isFinished i = true) (flow : Nat) (pick : Bool) :
    World.perform flow pick (.frames (.awaitFinish i)) w = some ((), w) := by
  obtain ⟨m, here, finished⟩ := (Option.any_eq_true _ _).mp ended
  simp [World.perform, FrameStack.perform, here, finished]

/-- Whoever finds that a frame has ended, that the current session can be used and that the broker is live starts the
loop again. -/
theorem soon_restartLoop (engines : EngineName → Prop) (flow : Nat) (frame : FrameRef) :
    Flow.Soon brokerMachine (fun w => w.frames.isFinished frame.id = true ∧ Fine engines w)
      (fun a => startsAfter frame.id a = true) flow 8
      (⟨.restartLoop frame, Debugging.restartLoop frame, .root _⟩ : Flow brokerInterface) := by
  rintro pick w ⟨ended, -⟩
  refine ⟨(), w, perform_awaitFinish ended flow pick, .inr ?_⟩
  refine fun pick w _ => ⟨w.availabilityChanges, w, rfl, .inr ?_⟩
  -- whichever session is current when he looks, its engine is usable when he asks
  rintro pick w ⟨-, fine⟩
  refine ⟨w.sessions.current, w, rfl, .inr ?_⟩
  have chosen := fine.current
  revert chosen
  generalize w.sessions.current = session
  rintro chosen pick w ⟨-, fine⟩
  obtain ⟨availability, u, performed, usable⟩ := perform_availability (fine.usable _ chosen) flow pick
  refine ⟨availability, u, performed, .inr ?_⟩
  change Flow.Soon brokerMachine _ _ _ _
    (⟨.awaitUsable _, if availability.isUsable = true then (Program.done () : Code Unit) else _, _⟩ : Flow brokerInterface)
  rw [if_pos usable]
  rintro pick w ⟨-, fine⟩
  refine ⟨w.phase, w, rfl, .inr ?_⟩
  have live := fine.live
  revert live
  generalize w.phase = phase
  intro live
  change Flow.Soon brokerMachine _ _ _ _
    (⟨.restartLoop frame, if phase ≠ .disposed then (_ : Code Unit) else _, _⟩ : Flow brokerInterface)
  rw [if_pos live]
  exact fun pick w _ => ⟨(), _, rfl, .inl (decide_eq_true rfl)⟩

/-- Whoever is to start the loop again does so if he is given his turns and nothing prevents it. -/
theorem started_again (watched : Watched settings c) {flow : Nat} (waits : c.tracks flow = [⟨.restartLoop frame, []⟩])
    (ended : c.world.frames.isFinished frame.id = true) {ns : List Move} {engines : EngineName → Prop}
    (fine : ∀ n ≤ ns.length, Fine engines (c.moves (ns.take n)).world) (often : 8 ≤ ns.countP (Move.isStepOf flow)) :
    1 ≤ (c.moves ns).log.countP (startsAfter frame.id) := by
  obtain ⟨⟨proc, code, wait⟩, here, ds, lower, tracks, leads, waiting⟩ :=
    watched.fits.find_of_tracks (List.ne_nil_of_mem (waits ▸ List.mem_singleton_self _))
  cases waits.symm.trans tracks
  obtain rfl : wait = Waiting.root (I := brokerInterface) (.restartLoop frame) := waiting.root
  cases leads
  obtain ⟨a, logged, starts⟩ := Chronicle.soon_moves here (soon_restartLoop engines flow frame)
    (fun n le => ⟨(watched.toLawful.later_moves _).finished _ ended, fine n le⟩) often
  exact List.countP_pos_iff.mpr ⟨a, logged, starts⟩

/-! ## The read loop around a stop -/

/-- In a run, the read loop is stopped and started again around the stops of the debugger. -/
structure Restored (restarts : Bool) (c : Chronicle) : Prop where
  /-- Every stop is on its course, and has come to its end when it returns. -/
  course : ∀ flow e event ds, c.annals.Did flow (.debuggerStopped .broker e event) ds →
    OnCourse restarts event (marks ds)
  returned : ∀ flow e event action ds, ⟨flow, .debuggerStopped .broker e event, action, ds⟩ ∈ c.returns →
    Completed restarts event (marks ds)
  /-- The loop is started by a request that has interrupted it, or by one who has waited for the end of a frame. -/
  starts : ∀ a ∈ c.log, a.action = .host .startLoop →
    (∃ q token, a.proc = .execute q token ∧ q.options.interrupt = true) ∨ ∃ frame, a.proc = .restartLoop frame
  /-- Who waits for that was started by a stop, which has found a loop active and pushed the frame. -/
  sent : ∀ flow frame ds, c.annals.Did flow (.restartLoop frame) ds → ∃ flow' e event ds',
    c.annals.Did flow' (.debuggerStopped .broker e event) ds' ∧ restarts = true ∧
      .found true ∈ marks ds' ∧ .pushed frame ∈ marks ds' ∧ .armed frame ∈ marks ds'
  /-- Whomever a stop has started is there. -/
  manned : ∀ flow proc ds frame, c.annals.Did flow proc ds → .armed frame ∈ marks ds →
    ∃ flow' ds', c.annals.Did flow' (.restartLoop frame) ds'
  once : ∀ i, c.log.countP (startsAfter i) ≤ 1
  timely : ∀ mv a frame, (c.move mv).log = a :: c.log → a.proc = .restartLoop frame → a.action = .host .startLoop →
    Timely c a.flow frame
  /-- Who is new, or waits for a frame that has not ended, has done nothing; -/
  waits : ∀ mv flow frame ds, (c.move mv).annals.Did flow (.restartLoop frame) ds →
    (∀ ds', ¬c.annals.Did flow (.restartLoop frame) ds') ∨ c.world.frames.isFinished frame.id = false →
      (c.move mv).tracks flow = [⟨.restartLoop frame, []⟩]
  /-- then he starts the loop, if he is given his turns and nothing prevents it. -/
  again : ∀ flow frame ns engines, c.tracks flow = [⟨.restartLoop frame, []⟩] →
    c.world.frames.isFinished frame.id = true → (∀ n ≤ ns.length, Fine engines (c.moves (ns.take n)).world) →
    8 ≤ ns.countP (Move.isStepOf flow) → (c.moves ns).log.countP (startsAfter frame.id) = 1

/-- Whatever happens next, nobody starts the loop a second time after a stop. -/
theorem once_moves (watched : Watched settings c) (once : ∀ i, c.log.countP (startsAfter i) ≤ 1) (ns : List Move) :
    Watched settings (c.moves ns) ∧ ∀ i, (c.moves ns).log.countP (startsAfter i) ≤ 1 := by
  refine Chronicle.moves_keep (P := fun c => Watched settings c ∧ ∀ i, c.log.countP (startsAfter i) ≤ 1) ?_
    ⟨watched, once⟩ ns
  rintro _ mv ⟨watched, once⟩
  exact ⟨watched.move mv, fun i => once_move watched (once i) mv⟩

theorem watched_new (settings : BrokerSettings) (endpoints : List (EngineName × Endpoint)) (main : EngineName)
    (host : Host) : Watched settings (.new settings endpoints main host) := by
  have nobody : ∀ flow proc ds, ¬(Chronicle.new settings endpoints main host).annals.Did flow proc ds := by
    rintro flow proc ds (here | ⟨x, here⟩) <;> cases here
  have ordered := Chronicle.ordered_new Chronicle.passage_settings settings endpoints main host []
  exact ⟨Demolition.kept_moves settings endpoints main host [], ⟨World.new settings endpoints main host, rfl, ordered⟩,
    ⟨by rintro _ ⟨⟩, by rintro _ ⟨⟩⟩, fun i => Nat.zero_le _, fun _ _ _ did => absurd did (nobody _ _ _),
    fun _ _ _ _ did => absurd did (nobody _ _ _), fun _ _ _ _ _ _ did => absurd did (nobody _ _ _),
    fun _ _ _ did => absurd did (nobody _ _ _), by rintro _ ⟨⟩⟩

/-- A stop that interrupts a read loop and is resumed: eight turns later the loop is started again. -/
example : ((Chronicle.new Stops.incurious Stops.stoppingEndpoints "main" .new).moves
    ([.arrive "set up" (.setUp "main" true)] ++ turns 0 20
      ++ [.arrive "read" (.idleStep (.setActive true))] ++ turns 1 10
      ++ [.arrive "stop" (.stop "main" Stops.outerStop)] ++ turns 2 20
      ++ [.arrive "resume" (.resume .stepOver false)] ++ turns 4 20 ++ turns 2 20
      ++ turns 3 8)).log.countP (startsAfter 1) = 1 := by
  decide +kernel

end Restarts

end SessionBroker
