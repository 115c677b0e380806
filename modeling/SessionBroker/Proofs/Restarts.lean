import SessionBroker.Proofs.Signals
import SessionBroker.Proofs.Stops
import SessionBroker.Proofs.Stories
import SessionBroker.Proofs.Calls
import SessionBroker.Proofs.Common
import SessionBroker.Proofs.Walks

/-!
# The read loop around a stop of the debugger

A stop that finds a read loop active stops it before it says so, and if the broker is set up for that it starts
somebody who starts the loop again. He waits until the frame of the stop is gone and the current session can be used,
and he starts nothing once the broker is disposed.
-/

namespace SessionBroker

namespace World

variable {w u : World} {flow : Nat} {pick : Bool} {action : Action} {r : action.Reply}

/-- A broker stays set up as it is. -/
theorem settings_perform (h : perform flow pick action w = some (r, u)) : u.settings = w.settings := by
  cases action with
  | engine name op =>
    simp only [perform, performEngine] at h
    split at h
    · cases h
    · obtain ⟨⟨reply, p⟩, -, h⟩ := Option.map_eq_some_iff.mp h
      cases op <;> cases h <;> rfl
  | frames op | host op =>
    obtain ⟨_, -, h⟩ := Option.map_eq_some_iff.mp h
    cases h
    rfl
  | sessions op =>
    cases op
    case pop =>
      simp only [perform, performSessions] at h
      split at h <;> cases h <;> rfl
    all_goals cases h; rfl
  | idle op =>
    cases op
    case setActive active =>
      cases h
      rw [discard_eq]
    case schedule work =>
      simp only [perform, performIdle] at h
      split at h <;> cases h <;> rfl
    all_goals cases h; rfl
  | broker op =>
    cases op
    case beginAbort debug =>
      obtain rfl : (w.beginAbort debug).2 = u := congrArg Prod.snd (Option.some.inj h)
      unfold beginAbort
      split <;> rfl
    case awaitResume | awaitAvailability | upgrade | awaitUnhold | awaitNews | nextPlan | awaitPromise =>
      simp only [perform, performBroker] at h
      split at h <;> cases h <;> rfl
    all_goals cases h; rfl

end World

namespace Chronicle

theorem passage_settings : Passage fun w u => u.settings = w.settings where
  refl _ := rfl
  trans _ _ _ uv vw := vw.trans uv
  act := World.settings_perform
  outside change w := by cases change <;> rfl

end Chronicle

namespace Restarts

variable {flow : Nat} {who : Proc} {event : StopEvent} {frame : FrameRef} {ds : List (Deed brokerInterface World)}

/-! ## The course of a stop -/

/-- What a stop does with the read loop in view. -/
inductive Mark where
  /-- It looks whether a read loop is active. -/
  | found (active : Bool)
  | stopped
  | started
  | pushed (frame : FrameRef)
  /-- Somebody is to start the loop again after the stop with a frame. -/
  | armed (frame : FrameRef)
  | announced (event : StopEvent)

def mark? : Deed brokerInterface World → Option Mark
  | .act ⟨_, _, .idle .isActive, active, _, _⟩ => some (.found active)
  | .act ⟨_, _, .host .stopLoop, _, _, _⟩ => some .stopped
  | .act ⟨_, _, .host .startLoop, _, _, _⟩ => some .started
  | .act ⟨_, _, .frames (.push ..), frame, _, _⟩ => some (.pushed frame)
  | .act ⟨_, _, .broker (.notify (.debuggerStop event)), _, _, _⟩ => some (.announced event)
  | .start (.restartLoop frame) => some (.armed frame)
  | _ => none

/-- What somebody has done with the read loop in view, the last thing first. -/
def marks (ds : List (Deed brokerInterface World)) : List Mark := ds.filterMap mark?

/-- The course of a stop, the last thing first: if it finds a read loop active, it stops it; it pushes its frame; if it
has stopped a loop and the broker is to start it again, it starts somebody who does; and it says that it has begun,
unless its frame has been told to exit. -/
def course (restarts : Bool) (event : StopEvent) (found : Bool) (frame : FrameRef) (told : Bool) : List Mark :=
  (if told then [.announced event] else []) ++ ((if found && restarts then [.armed frame] else []) ++
    .pushed frame :: ((if found then [.stopped] else []) ++ [.found found]))

/-- A stop is on its course. -/
def OnCourse (restarts : Bool) (event : StopEvent) (marks : List Mark) : Prop :=
  ∃ found frame told, marks <:+ course restarts event found frame told

/-- A stop has nobody to service it, or it has come to the end of its course. -/
def Completed (restarts : Bool) (event : StopEvent) (marks : List Mark) : Prop :=
  marks = [] ∨ ∃ found frame told, marks = course restarts event found frame told

/-- Acts that have to do with the course of a stop. -/
def counts : Action → Bool
  | .idle .isActive | .host .stopLoop | .host .startLoop | .frames (.push ..)
  | .broker (.notify (.debuggerStop _)) => true
  | _ => false

/-- What has nothing to do with the course of a stop. -/
def aside : Scope brokerInterface := ⟨fun a => counts a = false, fun _ => True, fun p => p.isThread⟩

@[local simp] theorem aside_acts {a : Action} : aside.acts a ↔ counts a = false := Iff.rfl
@[local simp] theorem aside_calls (p : Proc) : aside.calls p := trivial
@[local simp] theorem aside_starts {p : Proc} : aside.starts p ↔ p.isThread := Iff.rfl

attribute [local simp] counts

theorem mark?_of_aside (d : Deed brokerInterface World) (stays : d.Stays aside) : mark? d = none := by
  unfold mark?
  split
  case h_6 => cases stays
  case h_7 => rfl
  all_goals exact Bool.noConfusion (show true = false from stays)

section Aside

variable {e : EngineName}

theorem aside_pop (change : SessionChange) : (SessionChanges.pop change).Within aside := by
  unfold SessionChanges.pop
  repeat' with_reducible first
    | split
    | refine Program.within_bind ?_ fun _ => ?_
  all_goals simp

theorem aside_popFrame (id : Nat) : (Aborting.popFrame id).Within aside := by
  refine Program.within_bind (by simp) fun gone => ?_
  induction gone with
  | nil => simp [Aborting.tearDown]
  | cons i rest ih => simp [Aborting.tearDown, ih]

theorem aside_adjust (probed : Identity) (changes : List Adjustment) :
    (SessionChanges.adjust probed changes).Within aside := by
  induction changes with
  | nil => trivial
  | cons change rest ih =>
    cases change with
    | pop => exact Program.within_bind (aside_pop _) fun _ => ih
    | push origin location =>
      refine Program.within_bind (by simp) fun s => Program.within_bind ?_ fun _ => ih
      simp [SessionChanges.push]

theorem aside_probe : (SessionChanges.probe e true).Within aside := by
  refine Program.within_bind ?_ fun r => by simp
  unfold Engines.atPrompt
  repeat' with_reducible first
    | split
    | refine Program.within_bind ?_ fun _ => ?_
  all_goals simp

/-- To ask who answers at the debugger's prompt has nothing to do with the read loop. -/
theorem aside_refresh : (SessionChanges.refresh e true).Within aside := by
  refine Program.within_bind aside_probe fun answer => ?_
  split
  · trivial
  · exact Program.within_bind (by simp) fun _ => Program.within_bind (by simp) fun _ => aside_adjust ..

theorem aside_probeStop (session : Session) : (Debugging.probeStop frame session).Within aside := by
  refine Program.within_bind (by simp [Leases.acquire]) fun lease => ?_
  split
  · trivial
  · exact Program.within_bind aside_refresh fun _ => by simp [Leases.release]

theorem aside_leaveStop (action : ResumeAction) : (Debugging.leaveStop frame action).Within aside := by
  refine Program.within_bind (by simp) fun _ => Program.within_bind (by simp) fun _ => ?_
  split
  · refine Program.within_bind (by simp [SessionChanges.current]) fun session => ?_
    split
    · exact Program.within_bind (aside_pop _) fun _ => aside_popFrame _
    · exact aside_popFrame _
  · exact Program.within_bind (by simp) fun _ => aside_popFrame _

end Aside

section Course

variable {restarts found told : Bool} {settings : BrokerSettings} {new old : List Mark}

/-- What a stop has done before it pushes its frame. -/
def opening (found : Bool) : List Mark := (if found then [.stopped] else []) ++ [.found found]

/-- What a stop has done before it says that it has begun. -/
def outset (restarts found : Bool) (frame : FrameRef) : List Mark :=
  (if found && restarts then [.armed frame] else []) ++ .pushed frame :: opening found

theorem onCourse_outset {marks : List Mark} (part : marks <:+ outset restarts found frame) :
    OnCourse restarts event marks := ⟨found, frame, false, part⟩

theorem onCourse_opening {marks : List Mark} (found : Bool) (part : marks <:+ opening found) :
    OnCourse restarts event marks := by
  have more : marks <:+ outset restarts found ⟨0, .topLevel, false, false⟩ :=
    part.trans ((List.suffix_cons ..).trans (List.suffix_append ..))
  exact onCourse_outset more

/-- A stop that is serviced takes its course. -/
theorem marks_serviceStop : (Debugging.serviceStop event).Marks brokerMachine flow who
    (fun w => w.settings = settings) mark? (OnCourse settings.restartsLoop event)
    (fun marks _ => ∃ found frame told, marks = course settings.restartsLoop event found frame told) [] := by
  have begun : OnCourse settings.restartsLoop event [] := onCourse_opening false (List.nil_suffix ..)
  refine Program.marks_then (S := aside) (by simp) mark?_of_aside begun fun _ => ?_
  refine Program.marks_then (S := aside) (by simp) mark?_of_aside begun fun attached => ?_
  refine Program.marks_then (S := aside) (by simp) mark?_of_aside begun fun _ => ?_
  refine Program.marks_perform begun fun _ found w u _ _ => ?_
  refine Program.Marks.bind (R := fun marks _ => marks = opening found) ?stop ?_
  case stop =>
    have looked : OnCourse settings.restartsLoop event [.found found] :=
      onCourse_opening found (List.suffix_append ..)
    cases found with
    | false => exact ⟨looked, rfl⟩
    | true => exact ⟨looked, fun _ _ _ _ _ _ => ⟨onCourse_opening true List.suffix_rfl, rfl⟩⟩
  rintro _ _ rfl
  have opened : OnCourse settings.restartsLoop event (opening found) := onCourse_opening found List.suffix_rfl
  refine Program.marks_then (S := aside) (by simp [SessionChanges.current]) mark?_of_aside opened fun session => ?_
  refine Program.marks_perform opened fun pick frame w u _ pushes => ?_
  have boxed : FrameRef.hasMailbox frame = true := by
    have pushes : World.perform flow pick (.frames (.push .debug session.isOutOfProcess)) w = some (frame, u) := pushes
    exact (Serving.known_push pushes).2.2.2 (by simp)
  have part : .pushed frame :: opening found <:+ outset settings.restartsLoop found frame := List.suffix_append ..
  have pushed : OnCourse settings.restartsLoop event (.pushed frame :: opening found) := onCourse_outset part
  refine Program.marks_perform pushed fun _ now w u same asked => ?_
  obtain rfl : now = settings := by
    cases asked
    exact same
  have ready : OnCourse now.restartsLoop event (outset now.restartsLoop found frame) :=
    onCourse_outset List.suffix_rfl
  refine Program.Marks.bind (R := fun marks _ => marks = outset now.restartsLoop found frame) ?arm ?_
  case arm =>
    rw [boxed, Bool.true_and]
    unfold outset at ready ⊢
    generalize (found && now.restartsLoop) = both at ready ⊢
    cases both with
    | false => exact ⟨pushed, rfl⟩
    | true => exact ⟨pushed, fun _ _ _ _ _ _ => ⟨pushed, ready, rfl⟩⟩
  rintro _ _ rfl
  refine Program.marks_then (S := aside) (Program.within_onlyIf.mpr fun _ => aside_probeStop _) mark?_of_aside ready
    fun _ => ?_
  refine Program.marks_then (S := aside) (by simp) mark?_of_aside ready fun exited => ?_
  have whole : OnCourse now.restartsLoop event (course now.restartsLoop event found frame !exited) :=
    ⟨found, frame, !exited, List.suffix_rfl⟩
  refine Program.Marks.bind
    (R := fun marks _ => marks = course now.restartsLoop event found frame !exited) ?announce ?_
  case announce =>
    cases exited with
    | true => exact ⟨ready, rfl⟩
    | false => exact ⟨ready, fun _ _ _ _ _ _ => ⟨whole, rfl⟩⟩
  rintro _ _ rfl
  refine Program.marks_then (S := aside) (by simp) mark?_of_aside whole fun action => ?_
  refine Program.marks_then (S := aside) (aside_leaveStop action) mark?_of_aside whole fun _ => ?_
  exact ⟨whole, found, frame, !exited, rfl⟩

/-- A stop of the broker takes its course. -/
theorem marks_stopped (e : EngineName) : (Debugging.stopped .broker e event).Marks brokerMachine flow who
    (fun w => w.settings = settings) mark? (OnCourse settings.restartsLoop event)
    (fun marks _ => Completed settings.restartsLoop event marks) [] := by
  have begun : OnCourse settings.restartsLoop event [] := onCourse_opening false (List.nil_suffix ..)
  refine Program.marks_perform begun fun _ alive w u _ _ => ?_
  cases alive with
  | false => exact ⟨begun, .inl rfl⟩
  | true =>
    refine Program.Marks.bind marks_serviceStop ?_
    rintro _ action ⟨found, frame, told, rfl⟩
    have whole : OnCourse settings.restartsLoop event (course settings.restartsLoop event found frame told) :=
      ⟨found, frame, told, List.suffix_rfl⟩
    exact Program.marks_then (S := aside) (by simp) mark?_of_aside whole fun _ =>
      ⟨whole, .inr ⟨found, frame, told, rfl⟩⟩

/-- Who is to start a read loop again is started by a stop that has found one active and has pushed its frame. -/
theorem of_armed {marks : List Mark} (part : marks <:+ course restarts event found frame told) {f : FrameRef}
    (armed : .armed f ∈ marks) : restarts = true ∧ .found true ∈ marks ∧ .pushed f ∈ marks := by
  cases told <;> cases found <;> cases restarts <;>
    simp only [course, List.suffix_cons_iff, List.nil_append, List.cons_append, Bool.and_true, Bool.and_false,
      Bool.false_eq_true, if_true, if_false, List.suffix_nil] at part <;>
    grind

/-- No stop does that twice. -/
theorem armed_once {marks : List Mark} {f : FrameRef} (course : OnCourse restarts event (.armed f :: marks)) :
    .pushed f ∈ marks ∧ ∀ f', .armed f' ∉ marks := by
  obtain ⟨found, frame, told, part⟩ := course
  cases told <;> cases found <;> cases restarts <;>
    simp only [Restarts.course, List.suffix_cons_iff, List.nil_append, List.cons_append, Bool.and_true, Bool.and_false,
      Bool.false_eq_true, if_true, if_false, List.suffix_nil] at part <;>
    grind

end Course

/-! ## Who starts the loop again -/

section Watched

variable {c : Chronicle} {settings : BrokerSettings} {i : Nat}

/-- Whether an act pushes the frame with a number. -/
def pushes (i : Nat) (a : Act brokerInterface World) : Bool := a.pushed?.any (·.id = i)

theorem push_of_mark (pushed : .pushed frame ∈ marks ds) : ∃ a, .act a ∈ ds ∧ a.pushed? = some frame := by
  obtain ⟨d, hd, mark⟩ := List.mem_filterMap.mp pushed
  unfold mark? at mark
  split at mark <;> cases mark
  exact ⟨_, hd, rfl⟩

theorem armed_iff : .armed frame ∈ marks ds ↔ .start (.restartLoop frame) ∈ ds := by
  refine ⟨fun armed => ?_, fun start => List.mem_filterMap.mpr ⟨_, start, rfl⟩⟩
  obtain ⟨d, hd, mark⟩ := List.mem_filterMap.mp armed
  unfold mark? at mark
  split at mark <;> cases mark
  exact hd

/-- Whether an act starts the read loop again after the stop with a frame. -/
def startsAfter (i : Nat) : Act brokerInterface World → Bool
  | ⟨_, .restartLoop frame, .host .startLoop, _, _, _⟩ => frame.id = i
  | _ => false

theorem of_startsAfter {a : Act brokerInterface World} (starts : startsAfter i a = true) :
    ∃ frame, a.proc = .restartLoop frame ∧ a.action = .host .startLoop ∧ frame.id = i := by
  unfold startsAfter at starts
  split at starts
  · exact ⟨_, rfl, rfl, of_decide_eq_true starts⟩
  · cases starts

theorem known_of_pushed {a : Act brokerInterface World} {pick : Bool} (pushed : a.pushed? = some frame)
    (performed : World.perform a.flow pick a.action a.before = some (a.reply, a.after)) :
    Serving.Known a.after.frames frame ∧ frame.id = a.before.frames.frames.length := by
  unfold Act.pushed? at pushed
  split at pushed
  · next flow proc kind remote f w u =>
    obtain rfl : f = frame := Option.some.inj pushed
    obtain ⟨known, new, -⟩ := Serving.known_push performed
    exact ⟨known, new⟩
  · cases pushed

/-- What is true of stops and of those who start the loop again after them. -/
structure Watched (settings : BrokerSettings) (c : Chronicle) : Prop extends Demolition.Kept c where
  settled : ∃ first : World, first.settings = settings ∧ c.Ordered (fun w u => u.settings = w.settings) first
  walked : c.annals.Walked brokerMachine c.play.config
  pushed : ∀ i, c.log.countP (pushes i) ≤ 1
  /-- Whoever starts the loop again was started by a stop. -/
  sent : ∀ flow frame ds, c.annals.Did flow (.restartLoop frame) ds → ∃ flow' proc ds',
    c.annals.Did flow' proc ds' ∧ .start (.restartLoop frame) ∈ ds'
  /-- Whom a stop has started is on record. -/
  manned : ∀ flow proc ds frame, c.annals.Did flow proc ds → .start (.restartLoop frame) ∈ ds →
    ∃ flow' ds', c.annals.Did flow' (.restartLoop frame) ds'
  /-- There is only one for each frame. -/
  alone : ∀ flow flow' frame frame' ds ds', c.annals.Did flow (.restartLoop frame) ds →
    c.annals.Did flow' (.restartLoop frame') ds' → frame.id = frame'.id → flow = flow'
  /-- The frame was there before he began. -/
  known : ∀ flow frame ds, c.annals.Did flow (.restartLoop frame) ds →
    Serving.Known c.world.frames frame ∧ 0 < frame.id
  before : ∀ a ∈ c.log, ∀ frame ds, c.annals.Did a.flow (.restartLoop frame) ds → Serving.Known a.before.frames frame

namespace Watched

variable (watched : Watched settings c)

include watched

theorem marks_leads {e : EngineName} {q : Code ResumeAction} (logged : ∀ a, .act a ∈ ds → a ∈ c.log)
    (leads : (Debugging.stopped .broker e event).Leads brokerMachine flow (.debuggerStopped .broker e event) ds q) :
    q.Marks brokerMachine flow (.debuggerStopped .broker e event) (fun w => w.settings = settings) mark?
      (OnCourse settings.restartsLoop event) (fun ms _ => Completed settings.restartsLoop event ms) (marks ds) := by
  obtain ⟨first, same, ordered⟩ := watched.settled
  exact (marks_stopped e).leads leads fun a ha => (ordered.began a (logged a ha)).trans same

/-- Whoever has started somebody to start the loop again is a stop that found one active and pushed the frame. -/
theorem of_start {proc : Proc} (did : c.annals.Did flow proc ds) (start : .start (.restartLoop frame) ∈ ds) :
    (∃ e event, proc = .debuggerStopped .broker e event) ∧ settings.restartsLoop = true ∧ .found true ∈ marks ds ∧
      .pushed frame ∈ marks ds := by
  obtain ⟨q, leads⟩ := did.leads watched.fits
  obtain ⟨_, e, event, same, rfl⟩ := leads.stays (within_province proc) _ start (by simp [Proc.isThread])
  cases same
  obtain ⟨found, f, told, part⟩ := (watched.marks_leads (fun a ha => did.mem_log watched.fits ha) leads).fine
  exact ⟨⟨e, event, rfl⟩, of_armed part (armed_iff.mpr start)⟩

/-- Whoever is about to start somebody for a frame has pushed that frame, and nobody has been started for it yet. -/
theorem about_to_start {id : Nat} {proc : Proc} {next : Code proc.Result} {wait : Waiting brokerInterface proc}
    (here : c.play.config.find? id = some ⟨proc, .fork (.restartLoop frame) next, wait⟩) :
    (∃ a ∈ c.log, a.pushed? = some frame) ∧ ∀ flow frame' ds, c.annals.Did flow (.restartLoop frame') ds →
      frame'.id ≠ frame.id := by
  obtain ⟨early, lower, tracks, leads, -⟩ := watched.fits.tracked_of_find here
  have mine : c.annals.Did id proc early := .inl (tracks ▸ List.mem_cons_self)
  obtain ⟨_, e, event, same, rfl⟩ := (leads.within (within_province proc)).1 (by simp [Proc.isThread])
  cases same
  have marked := watched.marks_leads (fun a ha => mine.mem_log watched.fits ha) leads
  obtain ⟨pushed, fresh⟩ := armed_once marked.2.fine
  obtain ⟨a, ha, pushed⟩ := push_of_mark pushed
  refine ⟨⟨a, mine.mem_log watched.fits ha, pushed⟩, fun flow frame' ds did same => ?_⟩
  obtain ⟨flow', proc', ds', other, start⟩ := watched.sent flow frame' ds did
  obtain ⟨b, hb, pushed'⟩ := push_of_mark (watched.of_start other start).2.2.2
  -- one act pushed both frames, so the one who starts has started before
  obtain ⟨-, rfl⟩ := other.eq_of_countP_le_one watched.fits (watched.pushed frame.id) tracks ha
    (by simp [pushes, pushed]) hb (by simp [pushes, pushed', same])
  exact fresh frame' (armed_iff.mpr start)

/-- Whoever is on record for a frame after a move was so before, or a flow has just begun with him. -/
theorem recalled (mv : Move) (did : (c.move mv).annals.Did flow (.restartLoop frame) ds) :
    (∃ ds', c.annals.Did flow (.restartLoop frame) ds') ∨ ds = [] ∧ flow = c.play.config.next ∧
      ∃ id pick proc next wait, mv = .step id pick ∧
        c.play.config.find? id = some ⟨proc, .fork (.restartLoop frame) next, wait⟩ := by
  rcases Chronicle.did_of_move watched.toFaithful did with ⟨_, _, same, -⟩ | did | ⟨id, pick, rfl, recalled⟩
  · cases same
  · exact .inl ⟨ds, did⟩
  · cases recalled with
    | old past => exact .inl ⟨_, past⟩
    | more past => exact .inl ⟨_, past⟩
    | called here =>
      obtain ⟨early, lower, -, leads, -⟩ := watched.fits.tracked_of_find here
      obtain ⟨_, _, same, -⟩ := (leads.within (within_province _)).1 rfl
      cases same
    | started here new => exact .inr ⟨rfl, new, id, pick, _, _, _, rfl, here⟩

theorem move (mv : Move) : Watched settings (c.move mv) where
  toKept := watched.toKept.move mv
  settled := by
    obtain ⟨first, same, ordered⟩ := watched.settled
    exact ⟨first, same, ordered.move Chronicle.passage_settings mv⟩
  walked := Chronicle.walked_move watched.toFaithful watched.walked mv
  pushed i := by
    rcases c.log_move mv with ⟨log, -⟩ | ⟨a, pick, log, before, -, performed⟩
    · exact log ▸ watched.pushed i
    · rw [log, List.countP_cons]
      split
      · next push =>
        obtain ⟨frame, same, id⟩ := (Option.any_eq_true _ _).mp push
        have new := (known_of_pushed same performed).2
        -- frames that were pushed earlier have smaller numbers
        have none : c.log.countP (pushes i) = 0 := List.countP_eq_zero.mpr fun b hb push' => by
          obtain ⟨frame', same', id'⟩ := (Option.any_eq_true _ _).mp push'
          obtain ⟨pick', performed'⟩ := watched.toLawful.performed hb
          have known := (known_of_pushed same' performed').1.later (watched.toLawful.since hb)
          have below := known.1
          simp only [decide_eq_true_eq] at id id'
          rw [before] at new
          have : c.world.frames.frames.length = i := new.symm.trans id
          omega
        omega
      · simpa using watched.pushed i
  sent flow frame ds did := by
    rcases watched.recalled mv did with ⟨ds', did⟩ | ⟨-, -, id, pick, proc, next, wait, rfl, here⟩
    · obtain ⟨flow', proc, ds', starter, start⟩ := watched.sent flow frame ds' did
      obtain ⟨late, starter⟩ := Chronicle.did_move watched.toFaithful mv starter
      exact ⟨flow', proc, _, starter, List.mem_append_right late start⟩
    · obtain ⟨early, -, -, -, starter, -⟩ := Chronicle.did_start watched.toFaithful pick here
      exact ⟨id, proc, _, starter, List.mem_cons_self⟩
  manned flow proc ds frame did start := by
    have old : ∀ ds, c.annals.Did flow proc ds → .start (.restartLoop frame) ∈ ds →
        ∃ flow' ds', (c.move mv).annals.Did flow' (.restartLoop frame) ds' := fun ds did start => by
      obtain ⟨flow', ds', there⟩ := watched.manned flow proc ds frame did start
      obtain ⟨late, there⟩ := Chronicle.did_move watched.toFaithful mv there
      exact ⟨flow', _, there⟩
    rcases Chronicle.did_of_move watched.toFaithful did with ⟨_, _, -, rfl⟩ | did | ⟨id, pick, rfl, recalled⟩
    · cases start
    · exact old ds did start
    · cases recalled with
      | old past => exact old ds past start
      | more past fork =>
        rcases List.mem_cons.mp start with same | start
        · obtain ⟨next, wait, here⟩ := fork _ same.symm
          obtain ⟨-, -, -, -, -, flow', there⟩ := Chronicle.did_start watched.toFaithful pick here
          exact ⟨flow', [], there⟩
        · exact old _ past start
      | called | started => cases start
  alone flow flow' frame frame' ds ds' did did' same := by
    rcases watched.recalled mv did with ⟨ds, old⟩ | ⟨-, new, id, pick, proc, next, wait, rfl, here⟩
    · rcases watched.recalled mv did' with ⟨ds', old'⟩ | ⟨-, -, id, pick, proc, next, wait, rfl, here⟩
      · exact watched.alone _ _ _ _ _ _ old old' same
      · exact absurd same ((watched.about_to_start here).2 _ _ _ old)
    · rcases watched.recalled _ did' with ⟨ds', old'⟩ | ⟨-, new', -⟩
      · exact absurd same.symm ((watched.about_to_start here).2 _ _ _ old')
      · exact new.trans new'.symm
  known flow frame ds did := by
    have later := watched.toLawful.later_moves [mv]
    rcases watched.recalled mv did with ⟨ds', old⟩ | ⟨-, -, id, pick, proc, next, wait, rfl, here⟩
    · obtain ⟨known, pos⟩ := watched.known flow frame ds' old
      exact ⟨known.later later, pos⟩
    · obtain ⟨⟨a, ha, pushed⟩, -⟩ := watched.about_to_start here
      obtain ⟨pick', performed⟩ := watched.toLawful.performed ha
      obtain ⟨known, new⟩ := known_of_pushed pushed performed
      refine ⟨(known.later (watched.toLawful.since ha)).later later, new ▸ ?_⟩
      exact (watched.toLawful.sound_before ha).some
  before a logged frame ds did := by
    rcases watched.recalled mv did with ⟨ds', old⟩ | ⟨-, new, id, pick, proc, next, wait, rfl, here⟩
    · rcases c.log_move mv with ⟨log, -⟩ | ⟨b, pick, log, before, -⟩
      · exact watched.before a (log ▸ logged) frame ds' old
      · rcases List.mem_cons.mp (log ▸ logged) with rfl | past
        · exact before ▸ (watched.known a.flow frame ds' old).1
        · exact watched.before a past frame ds' old
    · -- nobody has acted yet in the flow that has just begun
      have old : a ∈ c.log := by simpa only [Chronicle.log, Chronicle.move, Annals.step, here] using logged
      exact absurd new (watched.walked.below a old).ne

end Watched

end Watched

end Restarts

end SessionBroker
