import SessionBroker.Proofs.Chronicle
import SessionBroker.Proofs.Endings

/-!
# Who ended what

Of all the acts of a play at most one sets the exit of a frame, and the frame exits with what that one
says. Without one it exits only when it is torn down, and goes on then.
-/

namespace SessionBroker

/-- The frame whose exit an act sets, and the exit. -/
def Act.sets? : Act brokerInterface World → Option (Nat × ResumeAction)
  | ⟨_, _, .frames (.tryExit i action), true, _, _⟩ => some (i, action)
  | _ => none

theorem Act.sets?_eq_some {a : Act brokerInterface World} {i : Nat} {action : ResumeAction} :
    a.sets? = some (i, action) ↔ ∃ flow proc before after,
      a = ⟨flow, proc, .frames (.tryExit i action), true, before, after⟩ := by
  constructor
  · intro sets
    unfold sets? at sets
    split at sets
    · cases sets
      exact ⟨_, _, _, _, rfl⟩
    · cases sets
  · rintro ⟨flow, proc, before, after, rfl⟩
    rfl

/-- Whether an act sets the exit of a frame. -/
def Act.sets (i : Nat) (a : Act brokerInterface World) : Bool := a.sets?.any (·.1 = i)

theorem Act.sets_iff {a : Act brokerInterface World} {i : Nat} :
    a.sets i = true ↔ ∃ action, a.sets? = some (i, action) := by
  simp [sets, Option.any_eq_true]

/-- What an act sets the exit of a frame to. -/
def Act.exitOf? (i : Nat) (a : Act brokerInterface World) : Option ResumeAction :=
  a.sets?.bind fun p => if p.1 = i then some p.2 else none

namespace Chronicle

/-- All that the exit of a frame was ever set to. -/
def exitsOf (c : Chronicle) (i : Nat) : List ResumeAction := c.log.filterMap (Act.exitOf? i)

variable {c : Chronicle} {a : Act brokerInterface World} {i : Nat} {action : ResumeAction}

/-- What is on record is what happened, and at any time the frames are sound and later than before. -/
structure Lawful (c : Chronicle) : Prop extends c.Faithful where
  ordered : ∃ first, first.frames.Sound ∧ c.Ordered World.FramesLater first
  exits : ∀ i action, c.world.frames.exit? i = some action →
    action = .continue ∨ ∃ a ∈ c.log, a.sets? = some (i, action)

theorem passage_framesLater : Passage World.FramesLater where
  refl w sound := ⟨sound, .refl sound.toRegular⟩
  trans u v w uv vw sound := by
    obtain ⟨sound', later⟩ := uv sound
    obtain ⟨sound'', later'⟩ := vw sound'
    exact ⟨sound'', later.trans later'⟩
  act := World.framesLater_perform
  outside := Outside.framesLater_apply

theorem lawful_new (settings : BrokerSettings) (endpoints : List (EngineName × Endpoint))
    (main : EngineName) (host : Host) : (new settings endpoints main host).Lawful where
  toFaithful := faithful_new ..
  ordered := ⟨_, FrameStack.sound_new, ordered_new passage_framesLater settings endpoints main host []⟩
  exits i action exit := by
    have none : FrameStack.new.exit? i = none := by rcases i with _ | i <;> rfl
    have exit : FrameStack.new.exit? i = some action := exit
    simp [none] at exit

/-- An exit is set by an act, or when a frame is torn down without one. -/
theorem exits_move (sound : c.world.frames.Sound) (m : Move)
    (before : c.world.frames.exit? i = some action →
      action = .continue ∨ ∃ a ∈ c.log, a.sets? = some (i, action))
    (exit : (c.move m).world.frames.exit? i = some action) :
    action = .continue ∨ ∃ a ∈ (c.move m).log, a.sets? = some (i, action) := by
  rcases c.log_move m with ⟨log, same | ⟨change, world⟩⟩ | ⟨a, pick, log, began, ended, performed⟩
  · exact log ▸ before (same ▸ exit)
  · obtain ⟨-, -, -, stands, -⟩ := change.frames_apply c.world
    rw [world, FrameStack.exit?_eq, stands, ← FrameStack.exit?_eq] at exit
    exact log ▸ before exit
  · have old : c.world.frames.exit? i = some action →
        action = .continue ∨ ∃ a ∈ (c.move m).log, a.sets? = some (i, action) := fun exit =>
      (before exit).imp_right fun ⟨b, logged, sets⟩ => ⟨b, log ▸ List.mem_cons_of_mem a logged, sets⟩
    rw [began, ended] at performed
    by_cases frames : ∀ op, a.action ≠ .frames op
    · exact old (World.frames_perform frames performed ▸ exit)
    · obtain ⟨flow, proc, _, reply, _, _⟩ := a
      obtain ⟨op, rfl⟩ : ∃ op, _ = Action.frames op := by simpa using frames
      have performed := World.frames_step performed
      by_cases tryExit : ∀ j x, op ≠ .tryExit j x
      · exact (FrameStack.exit?_perform sound tryExit performed exit).elim old .inl
      · obtain ⟨j, x, rfl⟩ : ∃ j x, op = .tryExit j x := by simpa using tryExit
        obtain ⟨-, same⟩ | ⟨won, -, stands, -⟩ := FrameStack.tryExit_perform performed
        · exact old (same ▸ exit)
        · rw [FrameStack.exit?_eq, stands] at exit
          by_cases mine : i = j
          · subst mine
            rw [Function.update_self] at exit
            obtain ⟨_, here, set⟩ := Option.bind_eq_some_iff.mp exit
            obtain ⟨e, -, rfl⟩ := Option.map_eq_some_iff.mp here
            obtain rfl : x = action := Option.some.inj set
            obtain rfl : reply = true := won
            exact .inr ⟨_, log ▸ List.mem_cons_self, rfl⟩
          · rw [Function.update_of_ne mine, ← FrameStack.exit?_eq] at exit
            exact old exit

/-- With every move the frames become later. -/
theorem later_move (sound : c.world.frames.Sound) (m : Move) : c.world.frames.Later (c.move m).world.frames := by
  rcases c.log_move m with ⟨-, same | ⟨change, world⟩⟩ | ⟨a, pick, -, began, ended, performed⟩
  · rw [same]
    exact .refl sound.toRegular
  · exact world ▸ (change.framesLater_apply c.world sound).2
  · exact ended ▸ began ▸ (World.framesLater_perform performed (began ▸ sound)).2

theorem Lawful.move (lawful : c.Lawful) (m : Move) : (c.move m).Lawful := by
  obtain ⟨faithful, ⟨first, sound, ordered⟩, exits⟩ := lawful
  exact ⟨faithful.move m, ⟨first, sound, ordered.move passage_framesLater m⟩,
    fun i action => exits_move (ordered.now sound).1 m (exits i action)⟩

theorem lawful_moves (settings : BrokerSettings) (endpoints : List (EngineName × Endpoint))
    (main : EngineName) (host : Host) (ms : List Move) :
    ((new settings endpoints main host).moves ms).Lawful :=
  moves_keep (fun _ m lawful => lawful.move m) (lawful_new ..) ms

namespace Lawful

variable (lawful : c.Lawful)
include lawful

theorem sound : c.world.frames.Sound := by
  obtain ⟨-, ⟨first, sound, ordered⟩, -⟩ := lawful
  exact (ordered.now sound).1

theorem sound_before (logged : a ∈ c.log) : a.before.frames.Sound := by
  obtain ⟨-, ⟨first, sound, ordered⟩, -⟩ := lawful
  exact (ordered.began a logged sound).1

theorem performed (logged : a ∈ c.log) :
    ∃ pick, World.perform a.flow pick a.action a.before = some (a.reply, a.after) :=
  lawful.fits.performed logged

theorem sound_after (logged : a ∈ c.log) : a.after.frames.Sound := by
  obtain ⟨pick, performed⟩ := lawful.performed logged
  exact (World.framesLater_perform performed (lawful.sound_before logged)).1

/-- The frames are later now than they were after an act. -/
theorem since (logged : a ∈ c.log) : a.after.frames.Later c.world.frames := by
  have sound := lawful.sound_after logged
  obtain ⟨-, ⟨first, -, ordered⟩, -⟩ := lawful
  exact (ordered.since a logged sound).2

theorem since_before (logged : a ∈ c.log) : a.before.frames.Later c.world.frames := by
  obtain ⟨pick, performed⟩ := lawful.performed logged
  exact (World.framesLater_perform performed (lawful.sound_before logged)).2.trans (lawful.since logged)

/-- Of two acts one comes before the other. -/
theorem between : c.log.Pairwise fun late early => early.after.frames.Later late.before.frames := by
  have sound : ∀ a ∈ c.log, a.after.frames.Sound := fun a => lawful.sound_after
  obtain ⟨-, ⟨first, -, ordered⟩, -⟩ := lawful
  exact ordered.between.imp_of_mem fun _ early later => (later (sound _ early)).2

/-! ## Exits -/

/-- Who sets an exit finds none. -/
theorem exit_sets (logged : a ∈ c.log) (sets : a.sets? = some (i, action)) :
    a.before.frames.exit? i = none ∧ a.after.frames.exit? i = some action := by
  obtain ⟨pick, performed⟩ := lawful.performed logged
  obtain ⟨flow, proc, before, after, rfl⟩ := Act.sets?_eq_some.mp sets
  obtain ⟨lost, -⟩ | ⟨-, free, stands, known⟩ := FrameStack.tryExit_perform (World.frames_step performed)
  · cases lost
  · refine ⟨free, ?_⟩
    obtain ⟨e, here⟩ := Option.isSome_iff_exists.mp known
    rw [FrameStack.exit?_eq, stands, Function.update_self, here]
    rfl

/-- The exit that was set is the one that the frame has. -/
theorem exit_of_sets (logged : a ∈ c.log) (sets : a.sets? = some (i, action)) :
    c.world.frames.exit? i = some action :=
  (lawful.since logged).exits i action (lawful.exit_sets logged sets).2

/-- At most one act sets the exit of a frame. -/
theorem countP_sets_le (i : Nat) : c.log.countP (Act.sets i) ≤ 1 := by
  have apart : (c.log.filter (Act.sets i)).Pairwise fun _ _ => False := by
    refine (lawful.between.filter _).imp_of_mem fun {late early} hl he later => ?_
    obtain ⟨hl, late_sets⟩ := List.mem_filter.mp hl
    obtain ⟨he, early_sets⟩ := List.mem_filter.mp he
    obtain ⟨x, late_sets⟩ := Act.sets_iff.mp late_sets
    obtain ⟨y, early_sets⟩ := Act.sets_iff.mp early_sets
    have already := later.exits i y (lawful.exit_sets he early_sets).2
    rw [(lawful.exit_sets hl late_sets).1] at already
    cases already
  rw [List.countP_eq_length_filter]
  generalize c.log.filter (Act.sets i) = both at apart
  rcases both with _ | ⟨a, _ | ⟨b, rest⟩⟩
  · simp
  · simp
  · exact False.elim ((List.pairwise_cons.mp apart).1 b List.mem_cons_self)

/-- The exit of a frame is the one that was set, or to go on if none was. -/
theorem exit_cases (exit : c.world.frames.exit? i = some action) :
    (∃ a ∈ c.log, a.sets? = some (i, action)) ∨ action = .continue ∧ ∀ a ∈ c.log, a.sets i = false := by
  by_cases won : ∃ a ∈ c.log, a.sets i = true
  · obtain ⟨a, logged, sets⟩ := won
    obtain ⟨x, sets⟩ := Act.sets_iff.mp sets
    obtain rfl : x = action := Option.some.inj ((lawful.exit_of_sets logged sets).symm.trans exit)
    exact .inl ⟨a, logged, sets⟩
  · have none : ∀ a ∈ c.log, a.sets i = false := by simpa using won
    rcases lawful.exits i action exit with continues | ⟨a, logged, sets⟩
    · exact .inr ⟨continues, none⟩
    · cases (none a logged).symm.trans (Act.sets_iff.mpr ⟨action, sets⟩)

/-- Whoever set the exit of a frame is the only one, and the frame has that exit; if nobody did it goes on. -/
theorem exits_of_exit (exit : c.world.frames.exit? i = some action) :
    c.exitsOf i = [action] ∨ c.exitsOf i = [] ∧ action = .continue := by
  have few : (c.exitsOf i).length ≤ 1 := by
    refine le_trans (le_of_eq ?_) (lawful.countP_sets_le i)
    rw [exitsOf, ← List.countP_true, List.countP_filterMap]
    refine List.countP_congr fun a _ => ?_
    rcases sets : a.sets? with _ | ⟨j, x⟩
    · simp [Act.exitOf?, Act.sets, sets]
    · by_cases same : j = i <;> simp [Act.exitOf?, Act.sets, sets, same]
  rcases lawful.exit_cases exit with ⟨a, logged, sets⟩ | ⟨continues, none⟩
  · have here : action ∈ c.exitsOf i := List.mem_filterMap.mpr ⟨a, logged, by simp [Act.exitOf?, sets]⟩
    generalize c.exitsOf i = exits at here few
    rcases exits with _ | ⟨x, _ | ⟨y, rest⟩⟩
    · cases here
    · rw [List.mem_singleton.mp here]
      exact .inl rfl
    · simp at few
  · refine .inr ⟨List.filterMap_eq_nil_iff.mpr fun a logged => ?_, continues⟩
    rcases sets : a.sets? with _ | ⟨j, x⟩
    · simp [Act.exitOf?, sets]
    · have other := none a logged
      simp only [Act.sets, sets, Option.any_some, decide_eq_false_iff_not] at other
      simp [Act.exitOf?, sets, other]

end Lawful

/-- The frames are later than they were at any moment before. -/
theorem Lawful.later_moves (lawful : c.Lawful) (ms : List Move) :
    c.world.frames.Later (c.moves ms).world.frames := by
  induction ms generalizing c with
  | nil => exact .refl lawful.sound.toRegular
  | cons m ms ih => exact (later_move lawful.sound m).trans (ih (lawful.move m))

/-! ## One's own deeds -/

/-- What somebody does, he does one after the other. -/
def InTurn (ds : List (Deed brokerInterface World)) : Prop :=
  (ds.filterMap Deed.act?).Pairwise fun late early => early.after.frames.Later late.before.frames

/-- Everybody does one thing after the other. -/
structure Orderly (c : Chronicle) : Prop where
  tracks : ∀ flow, ∀ t ∈ c.tracks flow, InTurn t.deeds
  returns : ∀ r ∈ c.returns, InTurn r.deeds

theorem inTurn_modifyHead {d : Deed brokerInterface World} {ts : List (Track brokerInterface World)}
    (all : ∀ t ∈ ts, InTurn t.deeds) (late : ∀ t ∈ ts, InTurn (d :: t.deeds)) :
    ∀ t ∈ ts.modifyHead (·.note d), InTurn t.deeds := by
  cases ts with
  | nil => exact all
  | cons t ts => exact List.forall_mem_cons.mpr ⟨late t List.mem_cons_self, (List.forall_mem_cons.mp all).2⟩

theorem inTurn_of_silent {d : Deed brokerInterface World} {ds : List (Deed brokerInterface World)}
    (silent : d.act? = none) (inTurn : InTurn ds) : InTurn (d :: ds) := by
  unfold InTurn
  rwa [List.filterMap_cons_none silent]

theorem Orderly.update (orderly : c.Orderly) {flow : Nat} {ts : List (Track brokerInterface World)}
    (mine : ∀ t ∈ ts, InTurn t.deeds) :
    ∀ other, ∀ t ∈ Function.update c.tracks flow ts other, InTurn t.deeds := by
  intro other t ht
  by_cases own : other = flow
  · subst own
    exact mine t (by simpa using ht)
  · exact orderly.tracks other t (by simpa [Function.update_of_ne own] using ht)

/-- What is done now is done after all that was done before. -/
theorem Lawful.inTurn_act (lawful : c.Lawful) {t : Track brokerInterface World} {flow : Nat}
    (here : t ∈ c.tracks flow) (inTurn : InTurn t.deeds) (before : a.before = c.world) :
    InTurn (.act a :: t.deeds) := by
  refine List.pairwise_cons.mpr ⟨fun early done => ?_, inTurn⟩
  rw [before]
  exact lawful.since (lawful.fits.mem_log_of_track here (Track.mem_acts.mp done))

theorem Orderly.move (orderly : c.Orderly) (lawful : c.Lawful) (m : Move) : (c.move m).Orderly := by
  cases m with
  | arrive name request => exact ⟨orderly.update (List.forall_mem_singleton.mpr .nil), orderly.returns⟩
  | outside change => exact ⟨orderly.tracks, orderly.returns⟩
  | step flow pick =>
    have all := orderly.tracks flow
    have tracks : (c.move (.step flow pick)).tracks =
        (c.annals.step brokerMachine c.play.config flow pick).tracks := rfl
    have returns : (c.move (.step flow pick)).returns =
        (c.annals.step brokerMachine c.play.config flow pick).returns := rfl
    constructor
    · rw [tracks, Annals.step]
      rcases hf : c.play.config.find? flow with _ | ⟨proc, code, wait⟩
      · exact orderly.tracks
      · cases code with
        | done r =>
          have lower : ∀ t ∈ (c.tracks flow).tail, InTurn t.deeds := fun t ht => all t (List.mem_of_mem_tail ht)
          exact orderly.update (inTurn_modifyHead lower fun t ht => inTurn_of_silent rfl (lower t ht))
        | call callee next => exact orderly.update (List.forall_mem_cons.mpr ⟨.nil, all⟩)
        | fork other next =>
          have noted : Orderly { c with annals := { c.annals with
              tracks := Function.update c.tracks flow ((c.tracks flow).modifyHead (·.note (.start other))) } } :=
            ⟨orderly.update (inTurn_modifyHead all fun t ht => inTurn_of_silent rfl (all t ht)), orderly.returns⟩
          exact noted.update (List.forall_mem_singleton.mpr .nil)
        | act action next =>
          simp only
          split
          · exact orderly.tracks
          · exact orderly.update (inTurn_modifyHead all fun t ht => lawful.inTurn_act ht (all t ht) rfl)
    · rw [returns, Annals.step]
      rcases hf : c.play.config.find? flow with _ | ⟨proc, code, wait⟩
      · exact orderly.returns
      · cases code with
        | done r =>
          refine List.forall_mem_cons.mpr ⟨?_, orderly.returns⟩
          have head : ∀ t ∈ (c.tracks flow).head?, InTurn t.deeds := fun t ht => all t (List.mem_of_mem_head? ht)
          show InTurn ((c.tracks flow).headD ⟨proc, []⟩).deeds
          cases here : c.tracks flow with
          | nil => exact .nil
          | cons t lower => exact head t (by simp [here])
        | call | fork => exact orderly.returns
        | act action next =>
          simp only
          split <;> exact orderly.returns

theorem orderly_moves (settings : BrokerSettings) (endpoints : List (EngineName × Endpoint))
    (main : EngineName) (host : Host) (ms : List Move) :
    ((new settings endpoints main host).moves ms).Orderly := by
  refine (moves_keep (P := fun c => c.Lawful ∧ c.Orderly) (fun c m keeps => ?_)
    ⟨lawful_new .., by rintro _ _ ⟨⟩, by rintro _ ⟨⟩⟩ ms).2
  exact ⟨keeps.1.move m, keeps.2.move keeps.1 m⟩

end Chronicle

end SessionBroker
