import SessionBroker.Proofs.Demolition
import SessionBroker.Proofs.Signals
import SessionBroker.Proofs.Ways

/-!
# Flags for sections

Some procedures have a section during which a flag of the broker is to be up: they raise it when the section
begins and take it down when it ends. There is one flag, and sections of several procedures may be in progress,
nested or side by side. So the flag says what was done to it last: it is up from the beginning of a section until
the next section ends, whichever that is. It is never up when no section is in progress, but while one is, the end
of another one takes it down.
-/

namespace SessionBroker

/-- A flag, and the procedures that have sections for which it is raised. -/
structure Flag where
  /-- What an action makes of the flag, if anything. -/
  sets : Action → Option Bool
  isUp : World → Bool
  hasSection : Proc → Bool
  /-- To do something to the flag is a signal. -/
  signals : ∀ {action b}, sets action = some b → action.isSignal

namespace Flag

variable (F : Flag)

/-- Acts on the flag by procedures with sections. -/
def mark (a : Act brokerInterface World) : Option Bool := if F.hasSection a.proc then F.sets a.action else none

/-- What a procedure has done to the flag, the last thing first. -/
def marks (ds : List (Deed brokerInterface World)) : List Bool :=
  (ds.filterMap Deed.act?).filterMap fun a => F.sets a.action

/-- A procedure is in its section: it has raised the flag and not taken it down. -/
def isInside (t : Track brokerInterface World) : Bool := F.hasSection t.proc && F.marks t.deeds = [true]

/-- The flows with sections that have begun and not ended, the last one first. -/
def inside : List (Act brokerInterface World) → List Nat
  | [] => []
  | a :: log =>
    match F.mark a with
    | some true => a.flow :: inside log
    | some false => (inside log).erase a.flow
    | none => inside log

/-- What was done to the flag last. -/
def last (log : List (Act brokerInterface World)) : Bool :=
  ((log.filterMap fun a => F.sets a.action).head?).getD false

/-- When a section last ended, no other one was left, or the flag has been raised since. -/
def endedAlone : List (Act brokerInterface World) → Bool
  | [] => true
  | a :: log =>
    match F.sets a.action with
    | some true => true
    | some false => (F.inside (a :: log)).isEmpty
    | none => endedAlone log

/-- Nobody has touched the flag but those who have sections. -/
def IsReserved (log : List (Act brokerInterface World)) : Prop :=
  ∀ a ∈ log, (F.sets a.action).isSome → F.hasSection a.proc

/-- One raises the flag and takes it down, once. -/
def lore : Lore brokerInterface World (List Bool) where
  blank := []
  note action _ _ k := (F.sets action).toList ++ k
  acts action k := (F.sets action = some true → k = []) ∧ (F.sets action = some false → k = [true])
  calls _ _ := True
  starts _ _ := True
  back _ k _ k' := k' = k

/-- What a flag has to be for all this. -/
structure IsLawful : Prop where
  perform : ∀ {flow pick action w r u}, World.perform flow pick action w = some (r, u) →
    F.isUp u = (F.sets action).getD (F.isUp w)
  apply : ∀ (change : Outside) w, F.isUp (change.apply w) = F.isUp w
  new : ∀ settings endpoints main host, F.isUp (.new settings endpoints main host) = false
  bodies : ∀ proc, F.hasSection proc → (body proc).Minds F.lore brokerMachine (fun _ k => k ≠ [true]) []

variable {F}

section Programs

variable {α β : Type} {q : Code β} {f : β → Code α} {post : α → List Bool → Prop} {k : List Bool}

/-- Programs that leave the flag alone. -/
theorem minds_silent (h : q.Gives fun a => F.sets a = none) :
    q.Minds F.lore brokerMachine (fun _ k' => k' = k) k := by
  refine Program.Within.minds (K := fun k' => k' = k) ?acts ?calls ?starts h rfl
  case acts =>
    rintro action _ allowed rfl
    have none : F.sets action = none := by
      rcases sets : F.sets action with _ | b
      · rfl
      · exact sets.symm.trans (allowed (F.signals sets))
    exact ⟨⟨by simp [none], by simp [none]⟩, fun _ _ => by simp [lore, none]⟩
  case calls => exact fun _ _ _ same => ⟨trivial, fun _ _ back => back.trans same⟩
  case starts => exact fun _ _ _ _ => trivial

theorem minds_then (h : q.Gives fun a => F.sets a = none)
    (hf : ∀ b, (f b).Minds F.lore brokerMachine post k) : (q >>= f).Minds F.lore brokerMachine post k :=
  Program.Minds.bind (minds_silent h) fun b _ same => same ▸ hf b

end Programs

/-! ## What procedures do to the flag -/

section Marks

variable {ds : List (Deed brokerInterface World)} {proc : Proc} {flow : Nat}

theorem marks_cons (a : Act brokerInterface World) (ds : List (Deed brokerInterface World)) :
    F.marks (.act a :: ds) = (F.sets a.action).toList ++ F.marks ds := by
  simp only [marks, List.filterMap_cons, Deed.act?]
  cases F.sets a.action <;> rfl

theorem marks_append (late early : List (Deed brokerInterface World)) :
    F.marks (late ++ early) = F.marks late ++ F.marks early := by
  simp only [marks, List.filterMap_append]

theorem mem_marks {b : Bool} : b ∈ F.marks ds ↔ ∃ a, .act a ∈ ds ∧ F.sets a.action = some b := by
  simp [marks, List.mem_filterMap, Deed.act?_eq_some]

/-- Programs that leave the flag alone leave no marks. -/
theorem marks_of_silent {α : Type} {p q : Code α} (silent : p.Gives fun a => F.sets a = none)
    (leads : p.Leads brokerMachine flow proc ds q) : F.marks ds = [] := by
  refine List.filterMap_eq_nil_iff.mpr fun a here => ?_
  obtain ⟨d, there, same⟩ := List.mem_filterMap.mp here
  cases Deed.act?_eq_some.mp same
  by_cases signal : a.action.isSignal
  · exact leads.acts_within silent there signal
  · exact Option.eq_none_iff_forall_ne_some.mpr fun b sets => signal (F.signals sets)

theorem remembered_eq (ds : List (Deed brokerInterface World)) :
    F.lore.remembered (fun _ _ k => k) ds [] = F.marks ds := by
  induction ds with
  | nil => rfl
  | cons d ds ih =>
    cases d with
    | act a => exact (congrArg ((F.sets a.action).toList ++ ·) ih).trans (marks_cons a ds).symm
    | call | start => exact ih

/-- Whoever has a section raises the flag first, and takes it down before he returns. -/
theorem minds_of_leads (lawful : F.IsLawful) (has : F.hasSection proc) {q : Code proc.Result}
    (leads : (body proc).Leads brokerMachine flow proc ds q) :
    q.Minds F.lore brokerMachine (fun _ k => k ≠ [true]) (F.marks ds) := by
  have minds := (Lore.minds_leads (fun _ _ _ => rfl) (lawful.bodies proc has) leads).1
  rwa [remembered_eq] at minds

theorem isInside_of_done (lawful : F.IsLawful) {r : proc.Result}
    (leads : (body proc).Leads brokerMachine flow proc ds (.done r)) : F.isInside ⟨proc, ds⟩ = false := by
  cases has : F.hasSection proc with
  | false => simp [isInside, has]
  | true =>
    have ended : F.marks ds ≠ [true] := minds_of_leads lawful has leads
    simp [isInside, ended]

end Marks

/-! ## Programs with a section -/

section Bracket

variable {α β : Type} {raise lower : Action} {work : Code α} {rest : α → Code β} {flow : Nat} {proc : Proc}
  {ds : List (Deed brokerInterface World)}

/-- Raises a flag, works, takes the flag down and goes on. -/
def bracket (raise lower : Action) (work : Code α) (rest : α → Code β) : Code β := do
  let _ ← Program.perform (I := brokerInterface) raise
  let x ← work
  let _ ← Program.perform (I := brokerInterface) lower
  rest x

/-- Somebody has raised the flag, and what he has done since was the work of the section, all of it at most. -/
def During (raise : Action) (work : Code α) (flow : Nat) (proc : Proc)
    (ds : List (Deed brokerInterface World)) : Prop :=
  ∃ begun during q, ds = during ++ [.act begun] ∧ begun.action = raise ∧ work.Leads brokerMachine flow proc during q

variable (raises : F.sets raise = some true) (lowers : F.sets lower = some false)
  (silent : work.Gives fun a => F.sets a = none)

include raises lowers silent in
theorem minds_bracket (after : ∀ x, (rest x).Gives fun a => F.sets a = none) :
    (bracket raise lower work rest).Minds F.lore brokerMachine (fun _ k => k ≠ [true]) [] := by
  refine ⟨⟨fun _ => rfl, fun other => by simp [raises] at other⟩, fun _ _ _ _ _ _ => ?_⟩
  have raised : F.lore.note raise = fun _ _ k => true :: k := by simp [lore, raises]
  rw [raised]
  refine minds_then (q := work) silent fun x => ?_
  refine ⟨⟨fun other => by simp [lowers] at other, fun _ => rfl⟩, fun _ _ _ _ _ _ => ?_⟩
  have lowered : F.lore.note lower = fun _ _ k => false :: k := by simp [lore, lowers]
  rw [lowered]
  refine (minds_silent (after x)).imp fun _ k same => ?_
  rw [same]
  exact nofun

include raises silent in
theorem During.marks (during : During raise work flow proc ds) : F.marks ds = [true] := by
  obtain ⟨begun, done, q, rfl, raised, leads⟩ := during
  rw [marks_append, marks_of_silent silent leads, marks_cons, raised, raises]
  rfl

include raises lowers silent in
/-- Whoever has raised the flag and not taken it down is at his work. -/
theorem marks_iff {q : Code β} (leads : (bracket raise lower work rest).Leads brokerMachine flow proc ds q) :
    F.marks ds = [true] ↔ During raise work flow proc ds := by
  refine ⟨fun marked => ?_, During.marks raises silent⟩
  rcases leads.of_perform with rfl | ⟨_, _, _, since, rfl, begun⟩
  · cases marked
  rcases Program.Leads.of_bind (q := work) begun with ⟨q', inside, -⟩ | ⟨done, late, _, rfl, through, went⟩
  · exact ⟨_, since, q', rfl, rfl, inside⟩
  rcases Program.Leads.of_perform went with rfl | ⟨_, _, _, late, rfl, -⟩
  · exact ⟨_, done, _, rfl, rfl, through⟩
  · -- He has raised the flag and taken it down: two marks.
    have twice := congrArg List.length marked
    simp only [marks_append, marks_cons, raises, lowers, Option.toList_some, List.length_append,
      List.length_singleton] at twice
    omega

end Bracket

/-! ## The sections in progress -/

/-- The sections in progress are those of the procedures under way. -/
def Linked (F : Flag) (log : List (Act brokerInterface World)) (tracks : Nat → List (Track brokerInterface World)) :
    Prop := ∀ flow, (F.inside log).count flow = (tracks flow).countP F.isInside

section Linked

variable {log : List (Act brokerInterface World)} {tracks : Nat → List (Track brokerInterface World)} {flow : Nat}
  {ts lower : List (Track brokerInterface World)} {ds : List (Deed brokerInterface World)}

theorem Linked.update (linked : F.Linked log tracks) (same : ts.countP F.isInside = (tracks flow).countP F.isInside) :
    F.Linked log (Function.update tracks flow ts) := by
  intro other
  by_cases mine : other = flow
  · subst mine
    rw [Function.update_self, same]
    exact linked other
  · rw [Function.update_of_ne mine]
    exact linked other

theorem countP_modifyHead {d : Deed brokerInterface World} (silent : d.act? = none) :
    (ts.modifyHead (·.note d)).countP F.isInside = ts.countP F.isInside := by
  cases ts with
  | nil => rfl
  | cons t ts =>
    have same : F.marks (t.note d).deeds = F.marks t.deeds := by
      simp only [marks, Track.note, List.filterMap_cons_none silent]
    simp only [List.modifyHead_cons, List.countP_cons, isInside, same]
    rfl

/-- Whoever acts begins his section, or ends it, or stays where he is. -/
theorem Linked.act (lawful : F.IsLawful) {a : Act brokerInterface World} {f : a.action.Reply → Code a.proc.Result}
    (linked : F.Linked log tracks) (here : tracks a.flow = ⟨a.proc, ds⟩ :: lower)
    (leads : (body a.proc).Leads brokerMachine a.flow a.proc ds (.act a.action f)) :
    F.Linked (a :: log) (Function.update tracks a.flow (⟨a.proc, .act a :: ds⟩ :: lower)) := by
  have before := linked a.flow
  rw [here, List.countP_cons] at before
  intro other
  by_cases mine : other = a.flow
  · subst mine
    rw [Function.update_self, List.countP_cons]
    -- He minds the lore: he begins a section only if he has not begun one, and ends one only if he is in it.
    rcases marked : F.mark a with _ | _ | _
    · have same : F.isInside ⟨a.proc, .act a :: ds⟩ = F.isInside ⟨a.proc, ds⟩ := by
        unfold mark at marked
        split at marked
        · simp [isInside, marks_cons, marked]
        · next away => simp [isInside, away]
      simp only [inside, marked, same, before]
    · obtain ⟨has, sets⟩ : F.hasSection a.proc = true ∧ F.sets a.action = some false := by
        simpa [mark] using marked
      have was : F.marks ds = [true] := (minds_of_leads lawful has leads).1.2 sets
      simp only [isInside, has, was, Bool.true_and, decide_true, if_true] at before
      have now : F.isInside ⟨a.proc, .act a :: ds⟩ = false := by simp [isInside, marks_cons, sets, was]
      simp only [inside, marked, List.count_erase_self, before, now]
      simp
    · obtain ⟨has, sets⟩ : F.hasSection a.proc = true ∧ F.sets a.action = some true := by
        simpa [mark] using marked
      have was : F.marks ds = [] := (minds_of_leads lawful has leads).1.1 sets
      have now : F.isInside ⟨a.proc, .act a :: ds⟩ = true := by simp [isInside, has, marks_cons, sets, was]
      simp only [inside, marked, List.count_cons_self, before, now]
      simp [isInside, was]
  · rw [Function.update_of_ne mine, ← linked other]
    simp only [inside]
    split
    · rw [List.count_cons_of_ne (Ne.symm mine)]
    · rw [List.count_erase_of_ne mine]
    · rfl

variable {c : Chronicle}

theorem linked_step (lawful : F.IsLawful) (faithful : c.Faithful) (linked : F.Linked c.log c.tracks) (flow : Nat)
    (pick : Bool) : F.Linked (c.move (.step flow pick)).log (c.move (.step flow pick)).tracks := by
  have tracks : (c.move (.step flow pick)).tracks =
      (c.annals.step brokerMachine c.play.config flow pick).tracks := rfl
  have log : (c.move (.step flow pick)).log = (c.annals.step brokerMachine c.play.config flow pick).log := rfl
  rw [tracks, log, Annals.step]
  rcases hf : c.play.config.find? flow with _ | ⟨proc, code, wait⟩
  · exact linked
  · obtain ⟨ds, lower, here, leads, -⟩ := faithful.fits.tracked_of_find hf
    cases code with
    | done r =>
      refine linked.update ?_
      rw [countP_modifyHead rfl, show c.tracks flow = _ from here, List.countP_cons,
        isInside_of_done lawful leads, show c.annals.tracks flow = _ from here]
      rfl
    | call callee next =>
      refine linked.update ?_
      rw [List.countP_cons]
      simp [isInside, marks]
      rfl
    | fork other next =>
      have noted : F.Linked c.log
          (Function.update c.tracks flow ((c.tracks flow).modifyHead (·.note (.start other)))) :=
        linked.update (countP_modifyHead rfl)
      refine noted.update ?_
      by_cases own : c.play.config.next = flow
      · rw [own, Function.update_self, countP_modifyHead rfl, ← own, Demolition.tracks_next faithful]
        simp [isInside, marks]
      · rw [Function.update_of_ne own, Demolition.tracks_next faithful]
        simp [isInside, marks]
    | act action next =>
      simp only
      split
      · exact linked
      · next r u performed =>
        rw [here]
        exact linked.act lawful (a := ⟨flow, proc, action, r, c.play.config.shared, u⟩) here leads

theorem linked_move (lawful : F.IsLawful) (faithful : c.Faithful) (linked : F.Linked c.log c.tracks) (m : Move) :
    F.Linked (c.move m).log (c.move m).tracks := by
  cases m with
  | arrive name request =>
    refine linked.update ?_
    rw [Demolition.tracks_next faithful]
    simp [isInside, marks]
  | outside change => exact linked
  | step flow pick => exact linked_step lawful faithful linked flow pick

end Linked

/-! ## What the flag says -/

section Last

variable {log : List (Act brokerInterface World)}

theorem last_cons (a : Act brokerInterface World) (log : List (Act brokerInterface World)) :
    F.last (a :: log) = (F.sets a.action).getD (F.last log) := by
  unfold last
  rcases sets : F.sets a.action with _ | b
  · simp [sets]
  · simp [sets]

/-- The flag says what was done to it last. -/
theorem isUp_move (lawful : F.IsLawful) {c : Chronicle} (said : F.isUp c.world = F.last c.log) (m : Move) :
    F.isUp (c.move m).world = F.last (c.move m).log := by
  rcases c.log_move m with ⟨log, same | ⟨change, world⟩⟩ | ⟨a, pick, log, before, after, performed⟩
  · rw [log, same, said]
  · rw [log, world, lawful.apply, said]
  · rw [log, last_cons, ← said, ← before, ← after]
    exact lawful.perform performed

theorem IsReserved.mark {a : Act brokerInterface World} (reserved : F.IsReserved (a :: log)) :
    F.mark a = F.sets a.action := by
  rcases sets : F.sets a.action with _ | b
  · simp [Flag.mark, sets]
  · simp [Flag.mark, reserved a List.mem_cons_self (by simp [sets]), sets]

theorem IsReserved.tail {a : Act brokerInterface World} (reserved : F.IsReserved (a :: log)) : F.IsReserved log :=
  fun b here => reserved b (List.mem_cons_of_mem a here)

/-- If the flag is up, a section is in progress. -/
theorem inside_of_last (reserved : F.IsReserved log) (up : F.last log = true) : F.inside log ≠ [] := by
  induction log with
  | nil => cases up
  | cons a log ih =>
    rw [last_cons] at up
    simp only [inside, reserved.mark]
    rcases sets : F.sets a.action with _ | _ | _
    · rw [sets] at up
      exact ih reserved.tail up
    · rw [sets] at up
      cases up
    · exact List.cons_ne_nil _ _

/-- While a section is in progress, the flag is up unless another one has ended last. -/
theorem last_eq_endedAlone (reserved : F.IsReserved log) (some : F.inside log ≠ []) :
    F.last log = F.endedAlone log := by
  induction log with
  | nil => exact absurd rfl some
  | cons a log ih =>
    rw [last_cons, endedAlone]
    rcases sets : F.sets a.action with _ | _ | _
    · refine ih reserved.tail ?_
      simpa only [inside, reserved.mark, sets] using some
    · simp [some]
    · rfl

/-- If the flag is down, some section has ended since any other one began. -/
theorem ended_of_last {b : Act brokerInterface World} (down : F.last log = false) (here : b ∈ log)
    (raised : F.sets b.action = some true) : ∃ late a early, log = late ++ a :: early ∧
      F.sets a.action = some false ∧ (∀ x ∈ late, F.sets x.action = none) ∧ b ∈ early := by
  induction log with
  | nil => cases here
  | cons a log ih =>
    rw [last_cons] at down
    rcases sets : F.sets a.action with _ | _ | _
    · rw [sets] at down
      have older : b ∈ log := List.mem_of_ne_of_mem (by rintro rfl; simp [raised] at sets) here
      obtain ⟨late, ended, early, rfl, lowers, silent, begun⟩ := ih down older
      exact ⟨a :: late, ended, early, rfl, lowers, List.forall_mem_cons.mpr ⟨sets, silent⟩, begun⟩
    · have older : b ∈ log := List.mem_of_ne_of_mem (by rintro rfl; simp [raised] at sets) here
      exact ⟨[], a, log, rfl, sets, by simp, older⟩
    · simp [sets] at down

end Last

/-- What a flag says of the sections in progress. -/
structure Stands (F : Flag) (c : Chronicle) : Prop where
  /-- The sections that have begun and not ended are those of the procedures under way. -/
  linked : F.Linked c.log c.tracks
  /-- The flag says what was done to it last. -/
  last : F.isUp c.world = F.last c.log

/-- Some procedure under way is in its section. -/
def IsBusy (F : Flag) (c : Chronicle) : Prop := ∃ flow, ∃ t ∈ c.tracks flow, F.isInside t

namespace Stands

variable {c : Chronicle}

theorem inside_ne_nil (stands : F.Stands c) : F.inside c.log ≠ [] ↔ F.IsBusy c := by
  have one : ∀ flow, flow ∈ F.inside c.log ↔ ∃ t ∈ c.tracks flow, F.isInside t := by
    intro flow
    rw [← List.count_pos_iff, stands.linked flow, List.countP_pos_iff]
  constructor
  · intro some
    obtain ⟨flow, here⟩ := List.exists_mem_of_ne_nil _ some
    exact ⟨flow, (one flow).mp here⟩
  · rintro ⟨flow, busy⟩
    exact List.ne_nil_of_mem ((one flow).mpr busy)

/-- As long as nobody is in a section, the flag is down. -/
theorem isBusy (stands : F.Stands c) (reserved : F.IsReserved c.log) (up : F.isUp c.world = true) : F.IsBusy c :=
  stands.inside_ne_nil.mp (inside_of_last reserved (stands.last ▸ up))

/-- While somebody is in a section, the flag is up just if no other section has ended last. -/
theorem isUp_of_isBusy (stands : F.Stands c) (reserved : F.IsReserved c.log) (busy : F.IsBusy c) :
    F.isUp c.world = F.endedAlone c.log :=
  stands.last.trans (last_eq_endedAlone reserved (stands.inside_ne_nil.mpr busy))

/-- If the flag is down while somebody is in his section, somebody else's has ended since his began. -/
theorem hidden (stands : F.Stands c) (faithful : c.Faithful) (down : F.isUp c.world = false) {flow : Nat}
    {t : Track brokerInterface World} (here : t ∈ c.tracks flow) (inside : F.isInside t) :
    ∃ late ended early, c.log = late ++ ended :: early ∧ F.sets ended.action = some false ∧ .act ended ∉ t.deeds ∧
      ∃ begun ∈ early, .act begun ∈ t.deeds ∧ F.sets begun.action = some true := by
  have marked : F.marks t.deeds = [true] := of_decide_eq_true (Bool.and_eq_true_iff.mp inside).2
  obtain ⟨begun, did, raises⟩ := mem_marks.mp (marked ▸ List.mem_singleton_self true)
  have logged : begun ∈ c.log := faithful.fits.mem_log_of_track here did
  obtain ⟨late, ended, early, log, lowers, -, older⟩ := ended_of_last (stands.last ▸ down) logged raises
  refine ⟨late, ended, early, log, lowers, fun own => ?_, begun, older, did, raises⟩
  have marks : false ∈ F.marks t.deeds := mem_marks.mpr ⟨ended, own, lowers⟩
  simp [marked] at marks

end Stands

/-- Whatever happens, a flag says what was done to it last. -/
theorem stands_moves (lawful : F.IsLawful) (settings : BrokerSettings) (endpoints : List (EngineName × Endpoint))
    (main : EngineName) (host : Host) (ms : List Move) :
    F.Stands ((Chronicle.new settings endpoints main host).moves ms) := by
  have begins : F.Stands (Chronicle.new settings endpoints main host) :=
    ⟨fun _ => rfl, lawful.new settings endpoints main host⟩
  refine (Chronicle.moves_keep (P := fun c => c.Faithful ∧ F.Stands c) (fun c m keeps => ?_)
    ⟨Chronicle.faithful_new settings endpoints main host, begins⟩ ms).2
  obtain ⟨faithful, stands⟩ := keeps
  exact ⟨faithful.move m, linked_move lawful faithful stands.linked m, isUp_move lawful stands.last m⟩

end Flag

end SessionBroker
