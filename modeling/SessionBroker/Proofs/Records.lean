import SessionBroker.Proofs.Stops

/-!
# The recorded stop

Whoever services a stop of the debugger records it before he does anything else, and withdraws the record when
the stop is over. There is one place for the record, and stops nest: the record is that of the innermost stop
as long as none has ended since that one began, and after that there is none, whoever is still stopped.
-/

namespace SessionBroker

/-- What an action writes into the record: a stop, or that there is none. -/
def Action.record? : Action → Option (Option StopEvent)
  | .broker (.setStopEvent e) => some e
  | _ => none

theorem Action.record?_eq_some {action : Action} {e : Option StopEvent} :
    action.record? = some e ↔ action = .broker (.setStopEvent e) := by
  constructor
  · intro writes
    unfold record? at writes
    split at writes
    · cases writes
      rfl
    · cases writes
  · rintro rfl
    rfl

/-- What an act writes into the record. -/
def Act.record? (a : Act brokerInterface World) : Option (Option StopEvent) := a.action.record?

theorem World.stopEvent_perform {w u : World} {flow : Nat} {pick : Bool} {action : Action} {r : action.Reply}
    (other : ∀ e, action ≠ .broker (.setStopEvent e)) (h : perform flow pick action w = some (r, u)) :
    u.stopEvent = w.stopEvent := by
  cases action with
  | engine e op =>
    simp only [perform, performEngine] at h
    split at h
    · cases h
    · obtain ⟨⟨reply, p⟩, -, h⟩ := Option.map_eq_some_iff.mp h
      cases op <;> cases h <;> rfl
  | frames op | host op =>
    obtain ⟨_, -, h⟩ := Option.map_eq_some_iff.mp h
    cases h
    rfl
  | sessions op =>
    cases op
    case pop =>
      simp only [perform, performSessions] at h
      split at h <;> cases h <;> rfl
    all_goals cases h; rfl
  | idle op =>
    cases op
    case setActive active =>
      cases h
      rw [discard_eq]
    case schedule work =>
      simp only [perform, performIdle] at h
      split at h <;> cases h <;> rfl
    all_goals cases h; rfl
  | broker op =>
    cases op
    case setStopEvent e => exact absurd rfl (other e)
    case beginAbort debug =>
      obtain rfl : (w.beginAbort debug).2 = u := congrArg Prod.snd (Option.some.inj h)
      unfold beginAbort
      split <;> rfl
    case awaitResume | awaitAvailability | upgrade | awaitUnhold | awaitNews | nextPlan | awaitPromise =>
      simp only [perform, performBroker] at h
      split at h <;> cases h <;> rfl
    all_goals cases h; rfl

theorem World.stopEvent_set {w u : World} {flow : Nat} {pick : Bool} {e : Option StopEvent} {r : Unit}
    (h : perform flow pick (.broker (.setStopEvent e)) w = some (r, u)) : u.stopEvent = e := by
  cases h
  rfl

theorem Outside.stopEvent_apply (change : Outside) (w : World) : (change.apply w).stopEvent = w.stopEvent := by
  cases change <;> rfl

namespace Records

variable {ds : List (Deed brokerInterface World)} {event : StopEvent} {flow : Nat} {proc : Proc}

/-- What somebody has written into the record, the last entry first. -/
def written (ds : List (Deed brokerInterface World)) : List (Option StopEvent) :=
  (ds.filterMap Deed.act?).filterMap Act.record?

/-- The stop that a procedure has recorded and not withdrawn. -/
def stop? (t : Track brokerInterface World) : Option StopEvent :=
  match written t.deeds with
  | [some e] => some e
  | _ => none

/-! ## Who writes what -/

/-- When one who services a stop may write into the record. -/
def may (event : StopEvent) : Action → List (Option StopEvent) → Prop
  | .broker (.setStopEvent (some e)), k => e = event ∧ k = []
  | .broker (.setStopEvent none), k => k = [some event]
  | _, _ => True

/-- One records a stop, and withdraws the record. -/
def lore (event : StopEvent) : Lore brokerInterface World (List (Option StopEvent)) where
  blank := []
  note action _ _ k := action.record?.toList ++ k
  acts := may event
  calls _ _ := True
  starts _ _ := True
  back _ k _ k' := k' = k

/-- Programs that do not touch the record. -/
def untouched : Scope brokerInterface :=
  ⟨fun a => ∀ e, a ≠ .broker (.setStopEvent e), fun _ => True, fun _ => True⟩

@[local simp] theorem untouched_acts {a : Action} : untouched.acts a ↔ ∀ e, a ≠ .broker (.setStopEvent e) := Iff.rfl
@[local simp] theorem untouched_calls (p : Proc) : untouched.calls p := trivial
@[local simp] theorem untouched_starts (p : Proc) : untouched.starts p := trivial

section Programs

variable {α β : Type} {p : Code α} {q : Code β} {f : β → Code α} {post : α → List (Option StopEvent) → Prop}
  {k : List (Option StopEvent)}

theorem untouched_of_discreet (h : p.Within discreetScope) : p.Within untouched := by
  refine Program.Within.mono (S := discreetScope) (fun a discreet => ?_) (fun _ _ => trivial) (fun _ _ => trivial) h
  rintro e rfl
  exact discreet

theorem minds_untouched (h : p.Within untouched) : p.Minds (lore event) brokerMachine (fun _ k' => k' = k) k := by
  refine h.minds (K := fun k' => k' = k) ?acts ?calls ?starts rfl
  case acts =>
    rintro action _ other rfl
    rcases action with _ | _ | _ | _ | _ | op
    case broker =>
      cases op
      case setStopEvent e => exact absurd rfl (other e)
      all_goals exact ⟨trivial, fun _ _ => rfl⟩
    all_goals exact ⟨trivial, fun _ _ => rfl⟩
  case calls => exact fun _ _ _ same => ⟨trivial, fun _ _ back => back.trans same⟩
  case starts => exact fun _ _ _ _ => trivial

theorem minds_then (h : q.Within untouched) (hf : ∀ b, (f b).Minds (lore event) brokerMachine post k) :
    (q >>= f).Minds (lore event) brokerMachine post k :=
  Program.Minds.bind (minds_untouched h) fun b _ same => same ▸ hf b

theorem minds_write {e : Option StopEvent} {f : Unit → Code α} (allowed : may event (.broker (.setStopEvent e)) k)
    (hf : (f ()).Minds (lore event) brokerMachine post (e :: k)) :
    ((Code.broker (.setStopEvent e) : Code Unit) >>= f).Minds (lore event) brokerMachine post k :=
  ⟨allowed, fun _ _ _ _ _ _ => hf⟩

end Programs

theorem minds_leaveStop (frame : FrameRef) (action : ResumeAction) : (Debugging.leaveStop frame action).Minds
    (lore event) brokerMachine (fun _ k => k = [none, some event]) [some event] := by
  have popped := untouched_of_discreet (Aborting.discreet_popFrame frame.id)
  refine minds_write rfl (minds_untouched (Program.within_bind (by simp) fun _ => ?_))
  split
  · refine Program.within_bind (untouched_of_discreet (discreet_of_steady (by simp))) fun session => ?_
    split
    · exact Program.within_bind (untouched_of_discreet (discreet_of_steady (by simp))) fun _ => popped
    · exact popped
  · exact Program.within_bind (by simp) fun _ => popped

theorem minds_serviceStop (event : StopEvent) : (Debugging.serviceStop event).Minds (lore event) brokerMachine
    (fun _ k => k = [none, some event]) [] := by
  have steady : ∀ {α : Type} {p : Code α}, p.Within steadyScope → p.Within untouched := fun h =>
    untouched_of_discreet (discreet_of_steady h)
  refine minds_write ⟨rfl, rfl⟩ ?_
  refine minds_then (by simp) fun attached => minds_then (by simp) fun _ => ?_
  refine minds_then (by simp) fun interrupted => minds_then (by simp) fun _ => ?_
  refine minds_then (steady (by simp)) fun session => minds_then (by simp) fun frame => ?_
  refine minds_then (by simp) fun settings => minds_then (steady (by simp)) fun _ => ?_
  refine minds_then (steady (by simp)) fun _ => minds_then (by simp) fun exited => ?_
  refine minds_then (by simp) fun _ => minds_then (by simp) fun action => ?_
  exact Program.Minds.bind (minds_leaveStop frame action) fun _ _ same => same

theorem minds_stopped (e : EngineName) (event : StopEvent) :
    (Debugging.stopped .broker e event).Minds (lore event) brokerMachine (fun _ k => k ≠ [some event]) [] := by
  refine minds_then (by simp) fun alive => ?_
  split
  · exact nofun
  · refine Program.Minds.bind (minds_serviceStop event) fun action k same => ?_
    subst same
    exact minds_then (by simp) fun _ => nofun

theorem written_cons (a : Act brokerInterface World) (ds : List (Deed brokerInterface World)) :
    written (.act a :: ds) = a.record?.toList ++ written ds := by
  simp only [written, List.filterMap_cons, Deed.act?]
  cases a.record? <;> rfl

theorem recall_eq (ds : List (Deed brokerInterface World)) : (lore event).remembered (fun _ _ k => k) ds [] = written ds := by
  induction ds with
  | nil => rfl
  | cons d ds ih =>
    cases d with
    | act a => exact (congrArg (a.record?.toList ++ ·) ih).trans (written_cons a ds).symm
    | call | start => exact ih

/-- Of a stop one knows what it has written, and when it writes something. -/
structure Writes (proc : Proc) (ds : List (Deed brokerInterface World)) (q : Code proc.Result) : Prop where
  stops : ∀ e, stop? ⟨proc, ds⟩ = some e → ∃ name, proc = .debuggerStopped .broker name e
  done : ∀ r, q = .done r → stop? ⟨proc, ds⟩ = none
  records : ∀ action next e, q = .act action next → action.record? = some (some e) → written ds = []
  withdraws : ∀ action next, q = .act action next → action.record? = some none → ∃ e, written ds = [some e]

theorem written_of_followed (followed : (lore event).Followed (fun _ _ k => k) ds []) :
    written ds = [] ∨ written ds = [some event] ∨ written ds = [none, some event] := by
  induction ds with
  | nil => exact .inl rfl
  | cons d ds ih =>
    cases d with
    | act a =>
      obtain ⟨allowed, before⟩ := followed
      rw [recall_eq] at allowed
      rcases writes : a.record? with _ | e
      · rw [written_cons, writes]
        exact ih before
      · rw [written_cons, writes]
        rw [Action.record?_eq_some.mp writes] at allowed
        cases e with
        | none => exact .inr (.inr (congrArg (none :: ·) allowed))
        | some e =>
          obtain ⟨rfl, none⟩ := allowed
          exact .inr (.inl (congrArg (some e :: ·) none))
    | call | start => exact ih followed.2

/-- Who does not service a stop writes nothing. -/
theorem written_of_discreet {q : Code proc.Result} (leads : (body proc).Leads brokerMachine flow proc ds q)
    (discreet : (body proc).Within discreetScope) : written ds = [] := by
  refine List.filterMap_eq_nil_iff.mpr fun a ha => ?_
  rcases writes : a.record? with _ | e
  · rfl
  · obtain ⟨d, hd, same⟩ := List.mem_filterMap.mp ha
    have allowed : a.action.IsDiscreet := leads.acts_within discreet (Deed.act?_eq_some.mp same ▸ hd)
    rw [Action.record?_eq_some.mp writes] at allowed
    exact allowed.elim

theorem writes_of_leads {q : Code proc.Result} (earnest : proc.IsEarnest)
    (leads : (body proc).Leads brokerMachine flow proc ds q) : Writes proc ds q := by
  by_cases servicing : proc.IsStop
  · cases proc
    case debuggerStopped hooks name event =>
      cases hooks with
      | plans => exact servicing.elim
      | broker =>
        obtain ⟨minds, followed⟩ : q.Minds (lore event) brokerMachine (fun _ k => k ≠ [some event])
            ((lore event).remembered (fun _ _ k => k) ds []) ∧ (lore event).Followed (fun _ _ k => k) ds [] :=
          Lore.minds_leads (fun _ _ _ => rfl) (minds_stopped name event) leads
        rw [recall_eq] at minds
        refine ⟨fun e recorded => ?_, fun r same => ?_, fun action next e same records => ?_,
          fun action next same withdraws => ?_⟩
        · rcases written_of_followed followed with shape | shape | shape <;> simp only [stop?, shape] at recorded
          · cases recorded
          · cases recorded
            exact ⟨name, rfl⟩
          · cases recorded
        · subst same
          have past : written ds ≠ [some event] := minds
          rcases written_of_followed followed with shape | shape | shape
          · simp only [stop?, shape]
          · exact absurd shape past
          · simp only [stop?, shape]
        · obtain rfl := Action.record?_eq_some.mp records
          subst same
          exact minds.1.2
        · obtain rfl := Action.record?_eq_some.mp withdraws
          subst same
          exact ⟨event, minds.1⟩
    all_goals exact servicing.elim
  · have discreet := discreet_body earnest servicing
    have nothing := written_of_discreet leads discreet
    have none : stop? ⟨proc, ds⟩ = none := by simp only [stop?, nothing]
    refine ⟨fun e recorded => ?_, fun _ _ => none, fun _ _ _ _ _ => nothing, fun action next same withdraws => ?_⟩
    · cases none.symm.trans recorded
    · obtain rfl := Action.record?_eq_some.mp withdraws
      subst same
      exact (leads.within discreet).1.elim

/-! ## The stops in service -/

/-- The stops that were recorded and not withdrawn, with the flows that service them, the innermost one
first. -/
def inService : List (Act brokerInterface World) → List (Nat × StopEvent)
  | [] => []
  | a :: log =>
    match a.record? with
    | some (some e) => (a.flow, e) :: inService log
    | some none => (inService log).eraseP (·.1 = a.flow)
    | none => inService log

/-- Whether the last thing that was written into the record is that there is no stop. -/
def withdrawn (log : List (Act brokerInterface World)) : Bool := (log.filterMap Act.record?).head? = some none

/-- The record after some acts. -/
def record (log : List (Act brokerInterface World)) : Option StopEvent := ((log.filterMap Act.record?).head?).join

section InService

variable {l : List (Nat × StopEvent)} {other : Nat}

theorem filter_eraseP_self : (l.eraseP (·.1 = flow)).filter (·.1 = flow) = (l.filter (·.1 = flow)).tail := by
  induction l with
  | nil => rfl
  | cons p l ih =>
    by_cases mine : p.1 = flow
    · simp [mine]
    · simpa [mine] using ih

theorem filter_eraseP_of_ne (ne : other ≠ flow) :
    (l.eraseP (·.1 = flow)).filter (·.1 = other) = l.filter (·.1 = other) := by
  induction l with
  | nil => rfl
  | cons p l ih =>
    by_cases mine : p.1 = flow
    · simp [mine, ne.symm]
    · by_cases his : p.1 = other
      · simpa [his, ne] using ih
      · simpa [mine, his] using ih

end InService

/-- The stops in service are those that the procedures under way have recorded and not withdrawn. -/
def Linked (log : List (Act brokerInterface World)) (tracks : Nat → List (Track brokerInterface World)) : Prop :=
  ∀ flow, ((inService log).filter (·.1 = flow)).map (·.2) = (tracks flow).filterMap stop?

section Link

variable {log : List (Act brokerInterface World)} {tracks : Nat → List (Track brokerInterface World)}
  {ts lower : List (Track brokerInterface World)}

theorem Linked.update (linked : Linked log tracks) (same : ts.filterMap stop? = (tracks flow).filterMap stop?) :
    Linked log (Function.update tracks flow ts) := by
  intro other
  by_cases mine : other = flow
  · subst mine
    rw [Function.update_self, same]
    exact linked other
  · rw [Function.update_of_ne mine]
    exact linked other

theorem filterMap_modifyHead {d : Deed brokerInterface World} (silent : d.act? = none) :
    (ts.modifyHead (·.note d)).filterMap stop? = ts.filterMap stop? := by
  cases ts with
  | nil => rfl
  | cons t ts =>
    have same : stop? (t.note d) = stop? t := by
      simp only [stop?, written, Track.note, List.filterMap_cons_none silent]
    simp only [List.modifyHead_cons, List.filterMap_cons, same]

theorem stop?_cons {a : Act brokerInterface World} (silent : a.record? = none) :
    stop? ⟨proc, .act a :: ds⟩ = stop? ⟨proc, ds⟩ := by
  simp only [stop?, written_cons, silent, Option.toList_none, List.nil_append]

/-- Whatever one does who records a stop and withdraws the record, the stops in service are those recorded. -/
theorem Linked.act {a : Act brokerInterface World} {q : Code a.proc.Result} (linked : Linked log tracks)
    (here : tracks a.flow = ⟨a.proc, ds⟩ :: lower) (writes : Writes a.proc ds q)
    (next : ∃ f, q = .act a.action f) :
    Linked (a :: log) (Function.update tracks a.flow (⟨a.proc, .act a :: ds⟩ :: lower)) := by
  obtain ⟨f, rfl⟩ := next
  have before := linked a.flow
  rw [here] at before
  intro other
  by_cases mine : other = a.flow
  · subst mine
    rw [Function.update_self]
    rcases record : a.record? with _ | _ | e
    · rw [List.filterMap_cons, stop?_cons record, ← List.filterMap_cons, ← before]
      simp only [inService, record]
    · obtain ⟨e, recorded⟩ := writes.withdraws a.action f rfl record
      have was : stop? ⟨a.proc, ds⟩ = some e := by simp only [stop?, recorded]
      have now : stop? ⟨a.proc, .act a :: ds⟩ = none := by simp [stop?, written_cons, record, recorded]
      rw [List.filterMap_cons_some was] at before
      rw [List.filterMap_cons_none now]
      simp only [inService, record]
      rw [filter_eraseP_self, List.map_tail, before, List.tail_cons]
    · have none := writes.records a.action f e rfl record
      have was : stop? ⟨a.proc, ds⟩ = Option.none := by simp only [stop?, none]
      have now : stop? ⟨a.proc, .act a :: ds⟩ = some e := by simp [stop?, written_cons, record, none]
      rw [List.filterMap_cons_none was] at before
      rw [List.filterMap_cons_some now, ← before]
      simp [inService, record]
  · rw [Function.update_of_ne mine, ← linked other]
    simp only [inService]
    split
    · rw [List.filter_cons_of_neg (by simpa using Ne.symm mine)]
    · rw [filter_eraseP_of_ne mine]
    · rfl

end Link

variable {c : Chronicle}

theorem linked_step (faithful : c.Faithful) (all : c.annals.All Proc.IsEarnest) (linked : Linked c.log c.tracks)
    (flow : Nat) (pick : Bool) :
    Linked (c.move (.step flow pick)).log (c.move (.step flow pick)).tracks := by
  have tracks : (c.move (.step flow pick)).tracks =
      (c.annals.step brokerMachine c.play.config flow pick).tracks := rfl
  have log : (c.move (.step flow pick)).log = (c.annals.step brokerMachine c.play.config flow pick).log := rfl
  rw [tracks, log, Annals.step]
  rcases hf : c.play.config.find? flow with _ | ⟨proc, code, wait⟩
  · exact linked
  · obtain ⟨ds, lower, here, leads, -⟩ := faithful.fits.tracked_of_find hf
    have here : c.tracks flow = ⟨proc, ds⟩ :: lower := here
    have earnest : proc.IsEarnest := all.1 flow ⟨proc, ds⟩ (by rw [show c.annals.tracks flow = _ from here]; simp)
    have writes := writes_of_leads earnest leads
    cases code with
    | done r =>
      have left : (c.annals.tracks flow).tail = lower := congrArg List.tail here
      refine linked.update ?_
      rw [filterMap_modifyHead rfl, left]
      exact ((congrArg (List.filterMap stop?) here).trans (List.filterMap_cons_none (writes.done r rfl))).symm
    | call callee next => exact linked.update rfl
    | fork other next =>
      have noted : Linked c.log (Function.update c.tracks flow ((c.tracks flow).modifyHead (·.note (.start other)))) :=
        linked.update (filterMap_modifyHead rfl)
      refine noted.update ?_
      by_cases own : c.play.config.next = flow
      · rw [own, Function.update_self, filterMap_modifyHead rfl, ← own, Demolition.tracks_next faithful]
        rfl
      · rw [Function.update_of_ne own, Demolition.tracks_next faithful]
        rfl
    | act action next =>
      simp only
      split
      · exact linked
      · next r u performed =>
        have noted : (c.annals.tracks flow).modifyHead (·.note (.act ⟨flow, proc, action, r, c.play.config.shared, u⟩)) =
            ⟨proc, .act ⟨flow, proc, action, r, c.play.config.shared, u⟩ :: ds⟩ :: lower :=
          congrArg (List.modifyHead (·.note (.act ⟨flow, proc, action, r, c.play.config.shared, u⟩))) here
        rw [noted]
        exact linked.act here writes ⟨next, rfl⟩

theorem linked_move (faithful : c.Faithful) (all : c.annals.All Proc.IsEarnest) (linked : Linked c.log c.tracks)
    (m : Move) : Linked (c.move m).log (c.move m).tracks := by
  cases m with
  | arrive name request =>
    refine linked.update ?_
    rw [Demolition.tracks_next faithful]
    rfl
  | outside change => exact linked
  | step flow pick => exact linked_step faithful all linked flow pick

theorem record_cons (a : Act brokerInterface World) (log : List (Act brokerInterface World)) :
    record (a :: log) = (a.record?.getD (record log)) := by
  unfold record
  rcases writes : a.record? with _ | e
  · rw [List.filterMap_cons_none writes, Option.getD_none]
  · rw [List.filterMap_cons_some writes]
    rfl

/-- The record is what was written last. -/
theorem stopEvent_move (recorded : c.world.stopEvent = record c.log) (m : Move) :
    (c.move m).world.stopEvent = record (c.move m).log := by
  rcases c.log_move m with ⟨log, same | ⟨change, world⟩⟩ | ⟨a, pick, log, before, after, performed⟩
  · rw [log, same, recorded]
  · rw [log, world, change.stopEvent_apply, recorded]
  · rw [log, record_cons, ← recorded, ← before, ← after]
    obtain ⟨flow, proc, action, r, w, u⟩ := a
    rcases writes : Act.record? ⟨flow, proc, action, r, w, u⟩ with _ | e
    · refine World.stopEvent_perform ?_ performed
      rintro e rfl
      cases writes
    · obtain rfl : action = .broker (.setStopEvent e) := Action.record?_eq_some.mp writes
      exact World.stopEvent_set performed

/-- The record is the innermost stop in service, unless something was withdrawn last. -/
theorem record_eq (log : List (Act brokerInterface World)) :
    record log = if withdrawn log then none else (inService log).head?.map (·.2) := by
  induction log with
  | nil => rfl
  | cons a log ih =>
    rw [record_cons]
    rcases writes : a.record? with _ | _ | e
    · simpa [withdrawn, inService, writes, List.filterMap_cons_none writes] using ih
    · simp [withdrawn, List.filterMap_cons_some writes]
    · simp [withdrawn, inService, writes, List.filterMap_cons_some writes]

/-- Each time a record was withdrawn, it was that of the last stop in service. -/
inductive OneByOne : List (Act brokerInterface World) → Prop where
  | nil : OneByOne []
  | cons {a : Act brokerInterface World} {log : List (Act brokerInterface World)} :
      (a.record? = some none → inService (a :: log) = []) → OneByOne log → OneByOne (a :: log)

instance decidableOneByOne : (log : List (Act brokerInterface World)) → Decidable (OneByOne log)
  | [] => .isTrue .nil
  | a :: log =>
    have := decidableOneByOne log
    decidable_of_iff ((a.record? = some none → inService (a :: log) = []) ∧ OneByOne log)
      ⟨fun ⟨here, before⟩ => .cons here before, fun | .cons here before => ⟨here, before⟩⟩

theorem record_of_oneByOne {log : List (Act brokerInterface World)} (oneByOne : OneByOne log) :
    record log = (inService log).head?.map (·.2) := by
  induction oneByOne with
  | nil => rfl
  | @cons a log here _ ih =>
    rw [record_cons]
    rcases writes : a.record? with _ | _ | e
    · simpa only [inService, writes, Option.getD_none] using ih
    · rw [here writes]
      rfl
    · simp only [inService, writes]
      rfl

/-- What the record says of the stops in service. -/
structure Recorded (c : Chronicle) : Prop where
  /-- The stops in service are those that someone has recorded and not withdrawn himself. -/
  inService : ∀ flow, ((inService c.log).filter (·.1 = flow)).map (·.2) = (c.tracks flow).filterMap stop?
  /-- Someone who services this stop. -/
  stops : ∀ flow, ∀ t ∈ c.tracks flow, ∀ e, stop? t = some e → ∃ name, t.proc = .debuggerStopped .broker name e
  /-- The record is that of the innermost one, unless a stop was the last to be withdrawn. -/
  recorded : c.world.stopEvent = if withdrawn c.log then none else (Records.inService c.log).head?.map (·.2)
  /-- What is recorded is in service. -/
  sound : ∀ e, c.world.stopEvent = some e → ∃ flow, ∃ t ∈ c.tracks flow, stop? t = some e
  /-- If stops have ended one by one, the record is that of the innermost one. -/
  complete : OneByOne c.log → c.world.stopEvent = (Records.inService c.log).head?.map (·.2) ∧
    (c.world.stopEvent.isSome ↔ ∃ flow, ∃ t ∈ c.tracks flow, (stop? t).isSome)

/-- What is in service is serviced by someone. -/
theorem mem_inService {log : List (Act brokerInterface World)} {tracks : Nat → List (Track brokerInterface World)}
    (linked : Linked log tracks) {flow : Nat} {e : StopEvent} :
    (flow, e) ∈ inService log ↔ ∃ t ∈ tracks flow, stop? t = some e := by
  have same : e ∈ ((inService log).filter (·.1 = flow)).map (·.2) ↔ e ∈ (tracks flow).filterMap stop? := by
    rw [linked flow]
  simpa using same

/-- What the record says, whatever has happened. -/
theorem recorded_stop (settings : BrokerSettings) (endpoints : List (EngineName × Endpoint))
    (main : EngineName) (host : Host) (ms : List Move) :
    Recorded ((Chronicle.new settings endpoints main host).moves ms) := by
  have kept := Demolition.kept_moves settings endpoints main host ms
  obtain ⟨-, -, linked, written⟩ := Chronicle.moves_keep
    (P := fun c => c.Faithful ∧ c.annals.All Proc.IsEarnest ∧ Linked c.log c.tracks ∧ c.world.stopEvent = record c.log)
    (fun c m ⟨faithful, all, linked, written⟩ => ⟨faithful.move m, Demolition.earnest_move faithful all m,
      linked_move faithful all linked m, stopEvent_move written m⟩)
    ⟨Chronicle.faithful_new .., Demolition.earnest_moves settings endpoints main host [], fun _ => rfl, rfl⟩ ms
  generalize (Chronicle.new settings endpoints main host).moves ms = c at kept linked written
  have recorded := written.trans (record_eq c.log)
  refine ⟨linked, fun flow t here e serviced => ?_, recorded, fun e now => ?_, fun oneByOne => ?_⟩
  · obtain ⟨q, leads⟩ := kept.fits.leads here
    exact (writes_of_leads (kept.all.1 flow t here) leads).stops e serviced
  · rw [recorded] at now
    split at now
    · cases now
    · obtain ⟨⟨flow, _⟩, first, rfl⟩ := Option.map_eq_some_iff.mp now
      exact ⟨flow, (mem_inService linked).mp (List.mem_of_head? first)⟩
  · have now := written.trans (record_of_oneByOne oneByOne)
    refine ⟨now, ?_⟩
    rw [now]
    constructor
    · intro some
      obtain ⟨e, some⟩ := Option.isSome_iff_exists.mp some
      obtain ⟨⟨flow, _⟩, first, rfl⟩ := Option.map_eq_some_iff.mp some
      obtain ⟨t, here, serviced⟩ := (mem_inService linked).mp (List.mem_of_head? first)
      exact ⟨flow, t, here, serviced ▸ rfl⟩
    · rintro ⟨flow, t, here, serviced⟩
      obtain ⟨e, serviced⟩ := Option.isSome_iff_exists.mp serviced
      have inside := (mem_inService linked).mpr ⟨t, here, serviced⟩
      rw [Option.isSome_map, List.isSome_head?]
      simpa using List.ne_nil_of_mem inside

/-! ### A stop within a stop -/

/-- A stop ends, and then there is another one. -/
def stopAfterStop : List Move :=
  [.arrive "set up" (.setUp "main" true)] ++ turns 0 20
    ++ [.arrive "outer" (.execute (.script "outer") .standard none)] ++ turns 1 60
    ++ [.arrive "resume" (.resume .stepOver false)] ++ turns 2 20 ++ turns 1 60
    ++ [.arrive "inner" (.execute (.script "inner") .standard none)] ++ turns 3 80

theorem recorded_stop_after_stop :
    OneByOne ((Chronicle.new Stops.incurious Stops.stoppingEndpoints "main" .new).moves stopAfterStop).log ∧
    ((Chronicle.new Stops.incurious Stops.stoppingEndpoints "main" .new).moves stopAfterStop).world.stopEvent.isSome ∧
    ∃ flow, ∃ t ∈ ((Chronicle.new Stops.incurious Stops.stoppingEndpoints "main" .new).moves stopAfterStop).tracks flow,
      (stop? t).isSome := by
  have oneByOne : OneByOne ((Chronicle.new Stops.incurious Stops.stoppingEndpoints "main" .new).moves
      stopAfterStop).log := by decide +kernel
  have stopped : ((Chronicle.new Stops.incurious Stops.stoppingEndpoints "main" .new).moves
      stopAfterStop).world.stopEvent.isSome := by decide +kernel
  have recorded := recorded_stop Stops.incurious Stops.stoppingEndpoints "main" .new stopAfterStop
  exact ⟨oneByOne, stopped, (recorded.complete oneByOne).2.mp stopped⟩

/-- A command stops, and one that is run at the debugger's prompt stops, too; that one is resumed. -/
def stopInStop : List Move :=
  [.arrive "set up" (.setUp "main" true)] ++ turns 0 20
    ++ [.arrive "outer" (.execute (.script "outer") .standard none)] ++ turns 1 60
    ++ [.arrive "inner" (.execute (.script "inner") .standard none)] ++ turns 2 80 ++ turns 1 80 ++ turns 2 80
    ++ [.arrive "resume" (.resume .stepOver false)] ++ turns 3 20 ++ turns 2 60 ++ turns 1 60

/-- Whether somebody has served a frame and has been told what to exit with. -/
def looped (ds : List (Deed brokerInterface World)) : Bool :=
  ds.any fun
    | .call (.messageLoop _) _ => true
    | _ => false

/-- It is not so that a stop is recorded as long as it is serviced: the outer one is still serviced, its loop has not
returned, and there is no record. -/
theorem record_lost :
    ((Chronicle.new Stops.incurious Stops.stoppingEndpoints "main" .new).moves stopInStop).world.stopEvent = none ∧
    ∃ t ∈ ((Chronicle.new Stops.incurious Stops.stoppingEndpoints "main" .new).moves stopInStop).tracks 1,
      stop? t = some Stops.outerStop ∧ looped t.deeds = false := by
  have found : ((Chronicle.new Stops.incurious Stops.stoppingEndpoints "main" .new).moves stopInStop).tracks 1 |>.any
      fun t => stop? t = some Stops.outerStop && !looped t.deeds := by decide +kernel
  obtain ⟨t, here, serviced⟩ := List.any_eq_true.mp found
  simp only [Bool.and_eq_true, decide_eq_true_eq, Bool.not_eq_true'] at serviced
  exact ⟨by decide +kernel, t, here, serviced⟩

end Records

end SessionBroker
