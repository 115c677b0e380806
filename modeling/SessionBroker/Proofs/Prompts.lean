import SessionBroker.Proofs.Stops

/-!
# Nested prompts that are left

One who leaves the current nested prompt tells it to go on and waits until it is torn down. If somebody else has
told it before, he waits for the same prompt, and then both say that they have left one. So the prompts that were
left are as many as those who have told one to go on themselves.
-/

namespace SessionBroker

namespace Prompts

variable {ds new : List (Deed brokerInterface World)} {flow : Nat} {who : Proc} {α β : Type} {i : Nat} {c : Chronicle}

/-- Who says that something is so. -/
def affirms : Act brokerInterface World → Bool
  | ⟨_, _, .broker (.report _ (.truth b)), _, _, _⟩ => b
  | _ => false

/-- Whether a request to leave the current nested prompt was granted. -/
def leaves : Return brokerInterface World → Bool
  | ⟨_, .serveClient _ .exitNestedPrompt, _, ds⟩ => (ds.filterMap Deed.act?).any affirms
  | _ => false

/-- Whether an act tells a nested prompt to exit that was not told before. -/
def endsPrompt (s : FrameStack) (a : Act brokerInterface World) : Bool :=
  a.sets?.any fun p => s.kind p.1 = .nestedPrompt

/-- Whether a request to leave the current nested prompt was granted, and has told a prompt itself. -/
def leavesItself (s : FrameStack) (r : Return brokerInterface World) : Bool := leaves r && r.acts.any (endsPrompt s)

/-- All nested prompts that there ever were. -/
def entered (s : FrameStack) : List Nat := (List.range s.frames.length).filter (s.kind · = .nestedPrompt)

/-! ## Who leaves a prompt -/

/-- Somebody has seen a frame on top of the stack and has waited for its end; he has told no other one to exit. -/
structure Left (ds : List (Deed brokerInterface World)) (i : Nat) : Prop where
  told : ∀ a, .act a ∈ ds → ∀ j y, a.sets? = some (j, y) → j = i
  awaited : ∃ last older, .act last :: older <:+ ds ∧ last.action = .frames (.awaitFinish i) ∧
    ∃ flow who frame w u, .act ⟨flow, who, .frames .current, frame, w, u⟩ ∈ older ∧ frame.id = i ∧
      frame.hasMailbox = true

/-- Programs that tell nobody to exit and affirm nothing. -/
def reserved : Scope brokerInterface :=
  ⟨fun a => (∀ i y, a ≠ .frames (.tryExit i y)) ∧ ∀ name r, a ≠ .broker (.report name r), fun _ => True, fun _ => True⟩

@[local simp] theorem reserved_acts {a : Action} : reserved.acts a ↔
    (∀ i y, a ≠ .frames (.tryExit i y)) ∧ ∀ name r, a ≠ .broker (.report name r) := Iff.rfl
@[local simp] theorem reserved_calls (p : Proc) : reserved.calls p := trivial
@[local simp] theorem reserved_starts (p : Proc) : reserved.starts p := trivial

/-- So far nobody was told to exit but perhaps one frame, and nothing was affirmed. -/
structure Quiet (only : Nat → Prop) (ds : List (Deed brokerInterface World)) : Prop where
  told : ∀ a, .act a ∈ ds → ∀ j y, a.sets? = some (j, y) → only j
  silent : ∀ a, .act a ∈ ds → affirms a = false

theorem quiet_of_reserved {a : Act brokerInterface World} (stays : Deed.Stays reserved (.act a)) :
    a.sets? = none ∧ affirms a = false := by
  constructor
  · rcases sets : a.sets? with _ | ⟨i, y⟩
    · rfl
    · obtain ⟨flow, proc, before, after, rfl⟩ := Act.sets?_eq_some.mp sets
      exact absurd rfl (stays.1 i y)
  · unfold affirms
    split
    · exact absurd rfl (stays.2 _ _)
    · rfl

theorem Quiet.grow {only : Nat → Prop} (quiet : Quiet only ds) (stays : ∀ d ∈ new, Deed.Stays reserved d) :
    Quiet only (new ++ ds) := by
  refine ⟨fun a ha j y sets => ?_, fun a ha => ?_⟩ <;> rcases List.mem_append.mp ha with ha | ha
  · cases (quiet_of_reserved (stays _ ha)).1.symm.trans sets
  · exact quiet.told a ha j y sets
  · exact (quiet_of_reserved (stays _ ha)).2
  · exact quiet.silent a ha

theorem Quiet.cons {only : Nat → Prop} (quiet : Quiet only ds) {d : Deed brokerInterface World}
    (stays : d.Stays reserved) : Quiet only (d :: ds) :=
  Quiet.grow quiet (List.forall_mem_singleton.mpr stays)

/-- What follows a program that tells nobody to exit and affirms nothing. -/
theorem Quiet.next {only : Nat → Prop} (quiet : Quiet only ds) {post : List (Deed brokerInterface World) → α → Prop}
    {q : Code β} {f : β → Code α} (h : q.Within reserved)
    (hf : ∀ b all, Quiet only all → (∀ d ∈ ds, d ∈ all) → (f b).Comes brokerMachine flow who post all) :
    (q >>= f).Comes brokerMachine flow who post ds :=
  Program.comes_then h fun new b stays =>
    hf b _ (quiet.grow stays) fun _ hd => List.mem_append_right new hd

theorem Left.grow (left : Left ds i) (silent : ∀ a, .act a ∈ new → a.sets? = none) : Left (new ++ ds) i := by
  obtain ⟨told, last, older, suffix, awaited⟩ := left
  refine ⟨fun a ha j y sets => ?_, last, older, suffix.trans (List.suffix_append new ds), awaited⟩
  rcases List.mem_append.mp ha with ha | ha
  · cases (silent a ha).symm.trans sets
  · exact told a ha j y sets

theorem Left.cons (left : Left ds i) {a : Act brokerInterface World} (silent : a.sets? = none) :
    Left (.act a :: ds) i := by
  have only : ∀ b, .act b ∈ [Deed.act a] → b.sets? = none := fun b hb => by
    cases List.mem_singleton.mp hb
    exact silent
  exact Left.grow left only

theorem comes_exitPrompt (quiet : Quiet (fun _ => False) ds) : Debugging.exitPrompt.Comes brokerMachine flow who
    (fun all b => (∀ a, .act a ∈ all → affirms a = false) ∧ (b = true → ∃ i, Left all i)) ds := by
  refine quiet.next (by simp) fun first d1 quiet _ => ?_
  split
  · exact ⟨quiet.silent, by simp⟩
  · refine quiet.next (by simp [SessionChanges.currentEngine, SessionChanges.current]) fun e d2 quiet _ => ?_
    refine Program.comes_perform fun pick frame w u _ => ?_
    have seen : Quiet (fun _ => False) (.act ⟨flow, who, .frames .current, frame, w, u⟩ :: d2) :=
      quiet.cons (by simp [Deed.Stays])
    split
    · exact ⟨seen.silent, by simp⟩
    · next boxed =>
      refine seen.next (by simp) fun _ d3 quiet more => ?_
      refine Program.comes_perform fun _ won v v' _ => ?_
      have told : Quiet (· = frame.id) (.act ⟨flow, who, .frames (.tryExit frame.id .continue), won, v, v'⟩ :: d3) := by
        refine ⟨fun a ha j y sets => ?_, fun a ha => ?_⟩ <;> rcases List.mem_cons.mp ha with same | ha
        · cases same
          obtain ⟨_, _, _, _, told⟩ := Act.sets?_eq_some.mp sets
          cases told
          rfl
        · exact (quiet.told a ha j y sets).elim
        · cases same
          rfl
        · exact quiet.silent a ha
      refine told.next (by simp) fun _ d4 quiet older => ?_
      refine Program.comes_perform fun _ r x x' _ => ?_
      have waited : Quiet (· = frame.id) (.act ⟨flow, who, .frames (.awaitFinish frame.id), r, x, x'⟩ :: d4) :=
        quiet.cons (by simp [Deed.Stays])
      refine ⟨waited.silent, fun _ => ⟨frame.id, waited.told, _, d4, List.suffix_rfl, rfl, flow, who, frame, w, u, ?_,
        rfl, by simpa using boxed⟩⟩
      exact older _ (List.mem_cons_of_mem _ (more _ List.mem_cons_self))

/-- Of a request that was granted one knows the frame. -/
theorem comes_serve (name : String) : (Clients.serve name .exitNestedPrompt).Comes brokerMachine flow who
    (fun all _ => (∃ a, .act a ∈ all ∧ affirms a = true) → ∃ i, Left all i) [] := by
  have start : Quiet (fun _ => False) [] := ⟨by rintro _ ⟨⟩, by rintro _ ⟨⟩⟩
  refine start.next (by simp) fun _ d1 quiet _ => ?_
  have handled : (Clients.handle .exitNestedPrompt).Comes brokerMachine flow who
      (fun all r => ∃ b, r = .truth b ∧ (∀ a, .act a ∈ all → affirms a = false) ∧ (b = true → ∃ i, Left all i)) d1 :=
    Program.Comes.bind (comes_exitPrompt quiet) fun all b h => ⟨b, rfl, h⟩
  refine Program.Comes.bind handled ?_
  rintro all _ ⟨b, rfl, silent, left⟩
  refine Program.comes_then (S := reserved) (by simp) fun new _ stays => ?_
  rintro _ _ w u _ ⟨a, ha, yes⟩
  obtain rfl : b = true := by
    rcases List.mem_cons.mp ha with same | ha
    · cases same
      exact yes
    · rcases List.mem_append.mp ha with recent | old
      · cases (quiet_of_reserved (stays _ recent)).2.symm.trans yes
      · cases (silent a old).symm.trans yes
  obtain ⟨i, left⟩ := left rfl
  have grown := left.grow fun a ha => (quiet_of_reserved (stays _ ha)).1
  exact ⟨i, grown.cons rfl⟩

/-! ## Those who have returned -/

theorem left_of_leaves (lawful : c.Lawful) {r : Return brokerInterface World} (here : r ∈ c.returns)
    (granted : leaves r = true) : ∃ i, Left r.deeds i := by
  unfold leaves at granted
  split at granted
  · next flow name result ds =>
    obtain ⟨a, ha, yes⟩ := List.any_eq_true.mp granted
    have done : .act a ∈ ds := by
      obtain ⟨d, hd, same⟩ := List.mem_filterMap.mp ha
      exact Deed.act?_eq_some.mp same ▸ hd
    exact (comes_serve name).leads (lawful.fits.returned _ here) ⟨a, done, yes⟩
  · cases granted

/-- A frame that one has seen on top of the stack is there, if it has a mailbox. -/
theorem above_of_current (lawful : c.Lawful) {frame : FrameRef} {w u : World}
    (logged : ⟨flow, who, .frames .current, frame, w, u⟩ ∈ c.log) (boxed : frame.hasMailbox = true) :
    frame.id ∈ w.frames.above := by
  obtain ⟨pick, performed⟩ := lawful.performed logged
  obtain rfl : w.frames.ref w.frames.currentId = frame :=
    congrArg Prod.fst (Option.some.inj (World.frames_step performed))
  have regular := (lawful.sound_before logged).toRegular
  rw [regular.ids]
  unfold FrameStack.currentId at boxed ⊢
  cases stack : w.frames.above with
  | nil =>
    rw [stack, List.headD_nil, regular.bottom] at boxed
    cases boxed
  | cons i rest => exact List.mem_cons_self

/-- A frame that one has left is gone. -/
theorem gone_of_left (kept : Demolition.Kept c) (orderly : c.Orderly) {r : Return brokerInterface World}
    (here : r ∈ c.returns) (left : Left r.deeds i) :
    0 < i ∧ i < c.world.frames.frames.length ∧ c.IsGone i := by
  have lawful := kept.toLawful
  obtain ⟨-, last, older, suffix, awaits, flow, who, frame, w, u, saw, rfl, boxed⟩ := left
  have logged : ∀ a, .act a ∈ r.deeds → a ∈ c.log := fun a ha => lawful.fits.mem_log_of_return here ha
  have sawLogged := logged _ (suffix.subset (List.mem_cons_of_mem _ saw))
  have lastLogged := logged last (suffix.subset List.mem_cons_self)
  have above := above_of_current lawful sawLogged boxed
  obtain ⟨pos, known⟩ := (lawful.sound_before sawLogged).range frame.id above
  -- the frame was known when one waited for its end
  have earlier : w.frames.Later last.before.frames := by
    obtain ⟨pick, performed⟩ := lawful.performed sawLogged
    have acts := (orderly.returns r here).sublist (suffix.sublist.filterMap Deed.act?)
    have after := (List.pairwise_cons.mp acts).1 _ (List.mem_filterMap.mpr ⟨_, saw, rfl⟩)
    exact (World.framesLater_perform performed (lawful.sound_before sawLogged)).2.trans after
  have known := known.trans_le earlier.length
  have off := kept.off_of_awaits lastLogged awaits (kept.boxed_before lastLogged pos known)
  have later := lawful.since_before lastLogged
  exact ⟨pos, known.trans_le later.length, kept.isGone pos (known.trans_le later.length) (later.off known off)⟩

/-! ## How many -/

/-- The frames that were told what to exit with. -/
def endedFrames (c : Chronicle) : List Nat := (c.log.filterMap Act.sets?).map (·.1)

/-- No frame is told twice. -/
theorem nodup_endedFrames (lawful : c.Lawful) : (endedFrames c).Nodup := by
  refine List.nodup_iff_count_le_one.mpr fun i => ?_
  refine le_trans (le_of_eq ?_) (lawful.countP_sets_le i)
  rw [endedFrames, List.count, List.countP_map, List.countP_filterMap]
  refine List.countP_congr fun a _ => ?_
  rcases sets : a.sets? with _ | ⟨j, x⟩ <;> simp [Act.sets, sets]

/-- No more acts than there are frames with a property tell such frames to exit. -/
theorem countP_sets_le_filter (lawful : c.Lawful) (p : Nat → Bool) :
    c.log.countP (fun a => a.sets?.any fun s => p s.1) ≤ ((List.range c.world.frames.frames.length).filter p).length := by
  have counted : c.log.countP (fun a => a.sets?.any fun s => p s.1) = ((endedFrames c).filter p).length := by
    rw [← List.countP_eq_length_filter, endedFrames, List.countP_map, List.countP_filterMap]
    refine List.countP_congr fun a _ => ?_
    rcases a.sets? with _ | ⟨j, x⟩ <;> simp
  rw [counted]
  refine ((nodup_endedFrames lawful).filter p).length_le_of_subset fun i hi => ?_
  obtain ⟨told, good⟩ := List.mem_filter.mp hi
  obtain ⟨⟨_, x⟩, pair, rfl⟩ := List.mem_map.mp told
  obtain ⟨a, logged, sets⟩ := List.mem_filterMap.mp pair
  exact List.mem_filter.mpr ⟨List.mem_range.mpr (FrameStack.exit?_lt (lawful.exit_of_sets logged sets)), good⟩

/-- The nested prompts on the stack are among those that there ever were. -/
theorem nestedPromptLevel_le {s : FrameStack} (regular : s.Regular) :
    s.nestedPromptLevel ≤ ((entered s).filter (· ∈ s.above)).length := by
  have bottom : s.kind 0 ≠ .nestedPrompt := by
    rw [← FrameStack.ref_kind, regular.bottom]
    simp
  have level : s.nestedPromptLevel = (s.above.filter fun i => s.kind i = FrameKind.nestedPrompt).length := by
    rw [← List.countP_eq_length_filter, FrameStack.nestedPromptLevel, FrameStack.live, List.countP_append]
    simp [bottom]
  rw [level]
  refine (regular.nodup.filter _).length_le_of_subset fun i hi => ?_
  obtain ⟨above, prompt⟩ := List.mem_filter.mp hi
  have known := List.mem_range.mpr (regular.range i above).2
  exact List.mem_filter.mpr ⟨List.mem_filter.mpr ⟨known, prompt⟩, by simpa using above⟩

/-- What those have come to who have left nested prompts. -/
structure Balance (c : Chronicle) : Prop where
  /-- Whoever has left a prompt has waited for a frame that he had seen on top of the stack, and it is gone. -/
  gone : ∀ r ∈ c.returns, leaves r = true → ∃ i, Left r.deeds i ∧ 0 < i ∧ c.IsGone i
  /-- At most one of them has told the frame to go on himself. -/
  own : ∀ i, c.returns.countP (fun r => leaves r && r.acts.any (Act.sets i)) ≤ 1
  /-- Those who have told a nested prompt themselves, and the prompts that are left, are no more than were entered. -/
  count : c.returns.countP (leavesItself c.world.frames) + c.world.frames.nestedPromptLevel ≤
    (entered c.world.frames).length
  /-- If everybody has told a prompt himself and they are as many as were entered, then all prompts are gone, -/
  balanced : (∀ r ∈ c.returns, leaves r = true → leavesItself c.world.frames r = true) →
    c.returns.countP leaves = (entered c.world.frames).length →
    c.world.frames.nestedPromptLevel = 0 ∧ (∀ i ∈ entered c.world.frames, c.IsGone i) ∧
      ((∀ i, 0 < i → i < c.world.frames.frames.length → i ∈ entered c.world.frames) → c.world.frames.depth = 1)
  /-- and torn down when nobody is under way. -/
  tornDown : c.play.config.flows = [] → ∀ i, c.IsGone i → c.world.frames.isTornDown i = true

/-- Those who have told a nested prompt themselves are no more than the prompts off the stack. -/
theorem countP_leavesItself_le (kept : Demolition.Kept c) (orderly : c.Orderly) :
    c.returns.countP (leavesItself c.world.frames) ≤
      ((entered c.world.frames).filter (· ∉ c.world.frames.above)).length := by
  have lawful := kept.toLawful
  let off : Nat → Bool := fun i => i ∉ c.world.frames.above && c.world.frames.kind i = .nestedPrompt
  have acts : c.returns.countP (leavesItself c.world.frames) ≤ c.log.countP fun a => a.sets?.any fun s => off s.1 := by
    refine lawful.fits.countP_returns_le fun r here itself => ?_
    obtain ⟨granted, own⟩ := (Bool.and_eq_true _ _).mp itself
    obtain ⟨a, ha, tells⟩ := List.any_eq_true.mp own
    obtain ⟨⟨j, y⟩, sets, prompt⟩ := (Option.any_eq_true _ _).mp tells
    obtain ⟨i, left⟩ := left_of_leaves lawful here granted
    have done := Return.mem_acts.mp ha
    obtain rfl := left.told a done j y sets
    obtain ⟨-, -, gone⟩ := gone_of_left kept orderly here left
    exact ⟨a, done, (Option.any_eq_true _ _).mpr ⟨_, sets, by simpa [off, gone.1] using prompt⟩⟩
  refine acts.trans ((countP_sets_le_filter lawful off).trans (le_of_eq ?_))
  rw [entered, List.filter_filter]

theorem count_leavesItself (kept : Demolition.Kept c) (orderly : c.Orderly) :
    c.returns.countP (leavesItself c.world.frames) + c.world.frames.nestedPromptLevel ≤
      (entered c.world.frames).length := by
  have off := countP_leavesItself_le kept orderly
  have still := nestedPromptLevel_le kept.toLawful.sound.toRegular
  have parts := List.length_eq_length_filter_add (l := entered c.world.frames) (· ∈ c.world.frames.above)
  have same : (entered c.world.frames).filter (· ∉ c.world.frames.above) =
      (entered c.world.frames).filter fun i => !decide (i ∈ c.world.frames.above) :=
    List.filter_congr fun i _ => decide_not
  rw [same] at off
  omega

/-- What has become of nested prompts, whatever else has happened. -/
theorem prompts_balance (settings : BrokerSettings) (endpoints : List (EngineName × Endpoint))
    (main : EngineName) (host : Host) (ms : List Move) :
    Balance ((Chronicle.new settings endpoints main host).moves ms) := by
  have kept := Demolition.kept_moves settings endpoints main host ms
  have orderly := Chronicle.orderly_moves settings endpoints main host ms
  generalize (Chronicle.new settings endpoints main host).moves ms = c at kept orderly
  have lawful := kept.toLawful
  have regular := lawful.sound.toRegular
  have count := count_leavesItself kept orderly
  refine ⟨fun r here granted => ?_, fun i => ?_, count, fun itself many => ?_, fun rest i gone => ?_⟩
  · obtain ⟨i, left⟩ := left_of_leaves lawful here granted
    obtain ⟨pos, -, gone⟩ := gone_of_left kept orderly here left
    exact ⟨i, left, pos, gone⟩
  · refine (lawful.fits.countP_returns_le fun r _ granted => ?_).trans (lawful.countP_sets_le i)
    obtain ⟨a, ha, sets⟩ := List.any_eq_true.mp ((Bool.and_eq_true _ _).mp granted).2
    exact ⟨a, Return.mem_acts.mp ha, sets⟩
  · have all : c.returns.countP leaves ≤ c.returns.countP (leavesItself c.world.frames) :=
      List.countP_mono_left fun r here granted => itself r here granted
    have none : c.world.frames.nestedPromptLevel = 0 := by omega
    have off : ∀ i ∈ entered c.world.frames, i ∉ c.world.frames.above := fun i prompt above => by
      have live : i ∈ c.world.frames.live := List.mem_append_left _ above
      have away := List.countP_eq_zero.mp none i live
      exact away (List.mem_filter.mp prompt).2
    refine ⟨none, fun i prompt => ?_, fun only => ?_⟩
    · obtain ⟨known, kind⟩ := List.mem_filter.mp prompt
      have pos : 0 < i := by
        refine Nat.pos_of_ne_zero fun zero => ?_
        subst zero
        rw [← FrameStack.ref_kind, regular.bottom] at kind
        cases kind
      exact kept.isGone pos (List.mem_range.mp known) (off i prompt)
    · have empty : c.world.frames.above = [] := List.eq_nil_iff_forall_not_mem.mpr fun i above =>
        off i (only i (regular.range i above).1 (regular.range i above).2) above
      rw [FrameStack.depth, empty]
      rfl
  · rcases gone.2 with down | ⟨flow, -, t, ht, -⟩
    · exact down
    · have none : c.tracks flow = [] := lawful.fits.gone flow (by simp [rest])
      rw [none] at ht
      cases ht

/-! ### Two nested prompts -/

/-- An engine on which a command can be held. -/
def holdingEndpoints : List (EngineName × Endpoint) :=
  [("main", ⟨.new ⟨5, 1⟩ ⟨1, "localhost", "host"⟩ [("hold", .hold)], false, none, none⟩)]

def twoPrompts : List Move :=
  [.arrive "set up" (.setUp "main" true)] ++ turns 0 20
    ++ [.arrive "first" .enterNestedPrompt] ++ turns 1 20 ++ turns 2 20
    ++ [.arrive "second" .enterNestedPrompt] ++ turns 3 20 ++ turns 4 20

/-- They are left one after the other. -/
def leftInTurn : List Move :=
  twoPrompts ++ [.arrive "leave" .exitNestedPrompt] ++ turns 5 20 ++ turns 4 20 ++ turns 5 20 ++ turns 3 20
    ++ [.arrive "leave too" .exitNestedPrompt] ++ turns 6 20 ++ turns 2 20 ++ turns 6 20 ++ turns 1 20

theorem prompts_balance_in_turn :
    ((Chronicle.new Stops.incurious holdingEndpoints "main" .new).moves leftInTurn).returns.countP leaves = 2 ∧
    entered ((Chronicle.new Stops.incurious holdingEndpoints "main" .new).moves leftInTurn).world.frames = [1, 2] ∧
    ((Chronicle.new Stops.incurious holdingEndpoints "main" .new).moves leftInTurn).world.frames.depth = 1 ∧
    ∀ i ∈ [1, 2],
      ((Chronicle.new Stops.incurious holdingEndpoints "main" .new).moves leftInTurn).world.frames.isTornDown i = true := by
  have counts : ((Chronicle.new Stops.incurious holdingEndpoints "main" .new).moves leftInTurn).returns.countP leaves = 2 ∧
    entered ((Chronicle.new Stops.incurious holdingEndpoints "main" .new).moves leftInTurn).world.frames = [1, 2] ∧
    ((Chronicle.new Stops.incurious holdingEndpoints "main" .new).moves leftInTurn).world.frames.frames.length = 3 ∧
    ((Chronicle.new Stops.incurious holdingEndpoints "main" .new).moves leftInTurn).play.config.flows.length = 0 := by
    decide +kernel
  have itself : ((Chronicle.new Stops.incurious holdingEndpoints "main" .new).moves leftInTurn).returns.all (fun r =>
      !leaves r || leavesItself
        ((Chronicle.new Stops.incurious holdingEndpoints "main" .new).moves leftInTurn).world.frames r) = true := by
    decide +kernel
  have balance := prompts_balance Stops.incurious holdingEndpoints "main" .new leftInTurn
  -- from here on nothing need be computed any more
  generalize (Chronicle.new Stops.incurious holdingEndpoints "main" .new).moves leftInTurn = c at counts itself balance ⊢
  obtain ⟨left, prompts, frames, rest⟩ := counts
  have itself : ∀ r ∈ c.returns, leaves r = true → leavesItself c.world.frames r = true := fun r here granted => by
    simpa [granted] using List.all_eq_true.mp itself r here
  obtain ⟨-, gone, depth⟩ := balance.balanced itself (by rw [left, prompts]; rfl)
  rw [prompts] at gone depth
  refine ⟨left, prompts, depth fun i pos known => ?_, fun i prompt => ?_⟩
  · rw [frames] at known
    have few : i = 1 ∨ i = 2 := by omega
    simpa using few
  · exact balance.tornDown (List.length_eq_zero_iff.mp rest) i (gone i prompt)

/-- While a command is held at the second one, two requests to leave it arrive. -/
def leftTwice : List Move :=
  twoPrompts ++ [.arrive "held" (.execute (.script "hold") .standard none)] ++ turns 5 30 ++ turns 4 40
    ++ [.arrive "leave" .exitNestedPrompt] ++ turns 6 20 ++ [.arrive "leave too" .exitNestedPrompt] ++ turns 7 20
    ++ [.arrive "release" (.engineStep "main" .release)] ++ turns 8 20 ++ turns 4 60 ++ turns 5 20 ++ turns 6 20
    ++ turns 7 20 ++ turns 3 20

/-- It is not so that everybody who has left a prompt has left one of his own: of two prompts, for which there were two
requests that were granted, the first one is still there. -/
theorem prompt_left_twice :
    ((Chronicle.new Stops.incurious holdingEndpoints "main" .new).moves leftTwice).returns.countP leaves = 2 ∧
    entered ((Chronicle.new Stops.incurious holdingEndpoints "main" .new).moves leftTwice).world.frames = [1, 2] ∧
    ((Chronicle.new Stops.incurious holdingEndpoints "main" .new).moves leftTwice).world.frames.above = [1] ∧
    ((Chronicle.new Stops.incurious holdingEndpoints "main" .new).moves leftTwice).world.frames.nestedPromptLevel = 1 ∧
    ((Chronicle.new Stops.incurious holdingEndpoints "main" .new).moves leftTwice).world.frames.isTornDown 1 = false := by
  decide +kernel

end Prompts

end SessionBroker
