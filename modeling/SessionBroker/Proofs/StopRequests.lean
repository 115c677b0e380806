import SessionBroker.Proofs.Bookkeeping

/-!
# Requests to stop

An engine that is asked to stop remembers that until an invocation finds it idle. So a command that waits to be
stopped goes on when the engine was asked to stop while it waited, or before, if the engine has not been idle since
then.
-/

namespace SessionBroker

open Engines

variable {e : EngineName} {m : Machine brokerInterface World}
  {told : EngineName → Hooks → Availability → Code Unit}

/-! ## What is pending -/

namespace Act

/-- An engine is asked to stop. -/
def stops (e : EngineName) (a : Act brokerInterface World) : Bool :=
  match a.action with
  | .engine name op => name = e && op.isStop
  | _ => false

/-- An invocation on an engine begins. -/
def begins (e : EngineName) (a : Act brokerInterface World) : Bool :=
  a.action.leaves e = some .away && (a.action.reaches e a.reply).isSome

/-- An invocation begins that finds the engine idle. -/
def opens (e : EngineName) (a : Act brokerInterface World) : Bool :=
  a.begins e && (a.before.counts? e).any (· .active = 0)

end Act

/-- An engine has been asked to stop, and no invocation has found it idle since. -/
def isPending (e : EngineName) : List (Act brokerInterface World) → Bool
  | [] => false
  | a :: log => a.stops e || (!a.opens e && isPending e log)

theorem Endpoint.stopRequested_perform {p q : Endpoint} {op : EngineOp} {r : op.Reply}
    (h : p.perform op = some (r, q)) : q.engine.stopRequested = (op.isStop || (p.engine.stopRequested &&
      !(decide (op.leaves = some .away) && (op.reaches r).isSome && decide (p.engine.active = 0)))) := by
  cases op
  case enter =>
    simp only [perform, Engine.enter] at h
    split at h
    · next ok =>
      split at ok <;> cases ok
      cases h
      cases p.engine.stopRequested <;> simp [EngineOp.isStop, EngineOp.leaves, EngineOp.reaches]
    · cases h
      simp [EngineOp.isStop, EngineOp.reaches]
  case endBlock | endHold =>
    obtain ⟨g, hg, h⟩ := Option.map_eq_some_iff.mp h
    cases h
    simp only [Engine.endBlock?, Engine.endHold?] at hg
    split at hg <;> cases hg
    simp [EngineOp.isStop, EngineOp.leaves]
  case unregister =>
    cases h
    rcases hooks : p.engine.hooks with _ | hooks <;>
      simp [map, Engine.unregister, hooks, EngineOp.isStop, EngineOp.leaves]
  case wish wish =>
    cases h
    split
    · simp [EngineOp.isStop, EngineOp.leaves]
    · cases wish <;> simp [map, Engine.note, EngineOp.isStop, EngineOp.leaves]
  all_goals
    cases h
    simp [map, Engine.stop, Engine.leave, Engine.beginWait, Engine.remember, Engine.register, Engine.close,
      Engine.setScript, EngineOp.isStop, EngineOp.leaves]

theorem Act.stopRequested_after {a : Act brokerInterface World} {pick : Bool}
    (performed : World.perform a.flow pick a.action a.before = some (a.reply, a.after)) {q : Endpoint}
    (after : a.after.endpoint? e = some q) : ∃ p, a.before.endpoint? e = some p ∧
      q.engine.stopRequested = (a.stops e || (!a.opens e && p.engine.stopRequested)) := by
  obtain ⟨flow, proc, action, r, w, u⟩ := a
  rcases World.endpoint?_perform performed e with ⟨op, -, -, -, rfl, -⟩ | ⟨other, same⟩
  · obtain ⟨p, q', hp, hq, hu⟩ := World.perform_engine performed
    cases hu.symm.trans after
    refine ⟨p, hp, ?_⟩
    rw [Endpoint.stopRequested_perform hq, Bool.and_comm p.engine.stopRequested]
    simp [stops, opens, begins, Action.leaves, Action.reaches, World.counts?_of_endpoint hp, Engine.counts]
    rfl
  · refine ⟨q, same.symm.trans after, ?_⟩
    have away : ∀ op, action = .engine e op → False := fun op same => other op same
    cases action with
    | engine name op =>
      have ne : name ≠ e := fun same => other op (by rw [same])
      simp [stops, opens, begins, Action.leaves, ne]
    | _ => simp [stops, opens, begins, Action.leaves]

/-- What is pending has been asked for since the engine was last found idle. -/
theorem isPending_iff {log : List (Act brokerInterface World)} : isPending e log ↔
    ∃ since stop older, log = since ++ stop :: older ∧ stop.stops e ∧ ∀ a ∈ since, a.opens e = false := by
  induction log with
  | nil => simp [isPending]
  | cons a log ih =>
    simp only [isPending, Bool.or_eq_true, Bool.and_eq_true, Bool.not_eq_true', ih]
    constructor
    · rintro (now | ⟨busy, since, stop, older, rfl, asked, none⟩)
      · exact ⟨[], a, log, rfl, now, by simp⟩
      · exact ⟨a :: since, stop, older, rfl, asked, List.forall_mem_cons.mpr ⟨busy, none⟩⟩
    · rintro ⟨since, stop, older, split, asked, none⟩
      cases since with
      | nil =>
        cases split
        exact .inl asked
      | cons b since =>
        cases split
        obtain ⟨busy, none⟩ := List.forall_mem_cons.mp none
        exact .inr ⟨busy, since, stop, older, rfl, asked, none⟩

/-- What is pending some time after an invocation began, if the engine has not been found idle since. -/
theorem isPending_since {since older : List (Act brokerInterface World)} {began : Act brokerInterface World}
    (begins : began.begins e) (pending : isPending e (since ++ began :: older)) :
    (∃ a ∈ since, a.stops e) ∨ began.opens e = false ∧ isPending e older := by
  induction since with
  | nil =>
    have noStop : began.stops e = false := by
      obtain ⟨flow, proc, action, r, w, u⟩ := began
      cases action with
      | engine name op => cases op <;> simp_all [Act.stops, Act.begins, Action.leaves, EngineOp.leaves, EngineOp.isStop]
      | _ => rfl
    simpa [isPending, noStop] using pending
  | cons a since ih =>
    simp only [List.cons_append, isPending, Bool.or_eq_true, Bool.and_eq_true] at pending
    rcases pending with now | ⟨-, before⟩
    · exact .inl ⟨a, List.mem_cons_self, now⟩
    · refine (ih before).imp_left ?_
      rintro ⟨b, hb, asked⟩
      exact ⟨b, List.mem_cons_of_mem a hb, asked⟩

/-! ## Invocations that wait to be stopped -/

/-- One of some acts began an invocation on an engine, and since then nobody has found the engine idle. -/
def Began (e : EngineName) (acts log : List (Act brokerInterface World)) : Prop :=
  ∃ began ∈ acts, began.begins e ∧ ∃ since older, log = since ++ began :: older ∧ ∀ a ∈ since, a.opens e = false

/-- Whenever one of some acts ended a wait to be stopped, that was pending, and the engine had not been idle since an
invocation began. -/
def Ended (e : EngineName) (acts log : List (Act brokerInterface World)) : Prop :=
  ∀ ended ∈ acts, ended.action = .engine e .endBlock →
    ∃ late before, log = late ++ ended :: before ∧ Began e acts before ∧ isPending e before

section Marks

variable {acts log : List (Act brokerInterface World)} {a : Act brokerInterface World}

theorem Began.later (began : Began e acts log) (busy : a.opens e = false) : Began e acts (a :: log) := by
  obtain ⟨b, hb, begins, since, older, rfl, none⟩ := began
  exact ⟨b, hb, begins, a :: since, older, rfl, List.forall_mem_cons.mpr ⟨busy, none⟩⟩

theorem Began.more (began : Began e acts log) : Began e (a :: acts) log := by
  obtain ⟨b, hb, rest⟩ := began
  exact ⟨b, List.mem_cons_of_mem a hb, rest⟩

theorem Ended.later (ended : Ended e acts log) : Ended e acts (a :: log) := fun b hb ends => by
  obtain ⟨late, before, rfl, rest⟩ := ended b hb ends
  exact ⟨a :: late, before, rfl, rest⟩

end Marks

/-- What an invocation on an engine has to do with requests to stop. -/
def Awaits (e : EngineName) (t : Track brokerInterface World) (log : List (Act brokerInterface World)) : Prop :=
  t.proc.isInvocationOn e → (station e t.deeds ≠ .away → Began e t.acts log) ∧ Ended e t.acts log

/-! ## Commands that wait to be stopped -/

/-- The text of a command turns out to stand for a wait until the engine is stopped. -/
def Act.findsBlock (e : EngineName) (a : Act brokerInterface World) : Bool :=
  match a with
  | ⟨_, _, .engine name (.script _), some .block, _, _⟩ => name = e
  | _ => false

/-- A command whose text stands for a wait ends that wait and comes back as stopped. -/
def Waited (e : EngineName) (ds : List (Deed brokerInterface World)) (r : Except EngineFailure Invocation) : Prop :=
  (∃ a, .act a ∈ ds ∧ a.findsBlock e) → r = .error .stopped ∧ ∃ ended, .act ended ∈ ds ∧ ended.action = .engine e .endBlock

namespace Engines

variable {α β : Type} {p : Code α} {f : α → Code β} {hooks : Hooks → Availability → Code Unit} {flow : Nat} {who : Proc}
  {ds : List (Deed brokerInterface World)} {c : Command}

/-- Programs that look nothing up. -/
def blind : Scope brokerInterface := ⟨fun a => a.isLookup = false, fun _ => True, fun _ => True⟩

/-- Nobody has found out that a command stands for a wait. -/
def Unread (e : EngineName) (ds : List (Deed brokerInterface World)) : Prop := ∀ a, .act a ∈ ds → a.findsBlock e = false

theorem unread_of_stays {new : List (Deed brokerInterface World)} (stay : ∀ d ∈ new, d.Stays blind)
    (unread : Unread e ds) : Unread e (new ++ ds) := by
  intro a here
  rcases List.mem_append.mp here with now | old
  · have allowed : a.action.isLookup = false := stay _ now
    obtain ⟨flow, proc, action, r, w, u⟩ := a
    cases action with
    | engine name op => cases op <;> first | rfl | cases allowed
    | _ => rfl
  · exact unread a old

theorem waited_of_unread (unread : Unread e ds) (r : Except EngineFailure Invocation) : Waited e ds r := by
  rintro ⟨a, here, finds⟩
  exact absurd finds (by simp [unread a here])

theorem comes_blind {p : Code (Except EngineFailure Invocation)} (h : p.Within blind) (unread : Unread e ds) :
    p.Comes m flow who (Waited e) ds :=
  h.comes fun _ r stay => waited_of_unread (unread_of_stays stay unread) r

theorem blind_of_discreet (h : p.Within discreet) : p.Within blind :=
  h.mono (fun a (quiet : discreet.acts a) => quiet.2) (fun _ _ => trivial) fun _ _ => trivial

theorem blind_runScriptTelling (discreetly : ∀ h a, (hooks h a).Within discreet) (s : Script) :
    (runScriptTelling hooks e s).Within blind := by
  cases s with
  | output | fail | throw | fatal => trivial
  | block | hold => exact ⟨rfl, fun _ => ⟨rfl, fun _ => trivial⟩⟩
  | switchIdentity => exact ⟨rfl, fun _ => trivial⟩
  | «break» event =>
    refine ⟨rfl, fun found => ?_⟩
    cases found with
    | none => trivial
    | some h => exact ⟨rfl, fun _ => ⟨trivial, fun _ => ⟨rfl, fun _ => trivial⟩⟩⟩
  | nestedPrompt =>
    refine ⟨rfl, fun found => ?_⟩
    cases found with
    | none => trivial
    | some h => exact ⟨trivial, fun _ => trivial⟩
  | unavailable =>
    refine ⟨rfl, fun found => ?_⟩
    cases found with
    | none => trivial
    | some h =>
      exact Program.within_bind (p := hooks h .unavailable) (blind_of_discreet (discreetly h _)) fun _ => trivial

theorem comes_runTelling (discreetly : ∀ h a, (hooks h a).Within discreet) (unread : Unread e ds) :
    (runTelling hooks e c).Comes m flow who (Waited e) ds := by
  unfold runTelling
  split
  · next asked =>
    refine comes_blind ?_ unread
    rw [run, if_pos asked]
    refine ⟨rfl, fun held => ?_⟩
    cases held
    · exact ⟨rfl, fun _ => trivial⟩
    · exact ⟨rfl, fun _ => ⟨rfl, fun _ => ⟨rfl, fun _ => trivial⟩⟩⟩
  · refine Program.comes_perform fun pick found w u looked => ?_
    have rest : ∀ {a : Act brokerInterface World}, a.findsBlock e = false → Unread e (.act a :: ds) := by
      intro a misses b here
      rcases List.mem_cons.mp here with same | old
      · cases same
        exact misses
      · exact unread b old
    cases found with
    | none => exact waited_of_unread (rest rfl) _
    | some s =>
      cases s
      case block =>
        refine Program.comes_perform fun _ _ _ _ _ => Program.comes_perform fun _ _ _ _ _ => ?_
        exact fun _ => ⟨rfl, _, List.mem_cons_self, rfl⟩
      all_goals exact comes_blind (blind_runScriptTelling discreetly _) (rest rfl)

/-- A command whose text stands for a wait comes back as stopped, once the wait has ended. -/
theorem comes_invokeTelling (discreetly : ∀ h a, (hooks h a).Within discreet) (merge : Bool) :
    (invokeTelling hooks e c merge).Comes m flow who (Waited e) [] := by
  refine Program.comes_perform fun pick entered w u performed => ?_
  have unread : Unread e [.act ⟨flow, who, .engine e .enter, entered, w, u⟩] := by
    intro a here
    cases List.mem_singleton.mp here
    rfl
  cases entered with
  | error f => exact waited_of_unread unread _
  | ok _ =>
    refine Program.Comes.bind (comes_runTelling discreetly unread) fun ds r waited => ?_
    refine Program.comes_perform fun _ _ _ _ _ => ?_
    rintro ⟨a, here, finds⟩
    obtain ⟨stopped, ended, there, ends⟩ := waited ⟨a, List.mem_of_ne_of_mem (by rintro ⟨⟩; cases finds) here, finds⟩
    refine ⟨?_, ended, List.mem_cons_of_mem _ there, ends⟩
    cases merge <;> simp [stopped, Except.map]

end Engines

namespace Story

variable {s : Story}

/-- An engine remembers that it was asked to stop. -/
def Remembers (e : EngineName) (s : Story) : Prop :=
  ∀ p, s.world.endpoint? e = some p → p.engine.stopRequested = isPending e s.log

theorem Remembers.move (runs : RunsEngines m told) (remembers : s.Remembers e) (mv : Move) :
    (s.move m mv).Remembers e := by
  intro q now
  rcases log_move (m := m) s mv with ⟨log, same⟩ | ⟨a, performed⟩
  · rw [log]
    have engines : ((s.move m mv).world.endpoint? e).map (·.engine) = (s.world.endpoint? e).map (·.engine) := by
      rcases same with same | ⟨change, same⟩
      · rw [same]
      · rw [same, Aborts.endpoint?_apply]
    rw [now, Option.map_some] at engines
    obtain ⟨p, hp, same⟩ := Option.map_eq_some_iff.mp engines.symm
    rw [← same, remembers p hp]
  · obtain ⟨pick, done⟩ := performed.performed
    rw [runs.perform] at done
    obtain ⟨p, before, flag⟩ := Act.stopRequested_after done (performed.after ▸ now)
    rw [performed.log, isPending, flag, remembers p (performed.before ▸ before)]

/-- While an invocation is under way, nobody finds its engine idle. -/
theorem opens_of_under_way (runs : RunsEngines m told) {w : World} (faithful : s.Faithful m) (booked : s.Booked e w)
    {next : Story} {a : Act brokerInterface World} (performed : Performed m s next a) {flow : Nat}
    {t : Track brokerInterface World} (here : t ∈ s.tracks flow) (invocation : t.proc.isInvocationOn e)
    (under : station e t.deeds ≠ .away) : a.opens e = false := by
  have contributes : load e .active t = 1 := by
    rw [load, if_pos invocation]
    cases stands : station e t.deeds <;> simp_all [Station.count]
  have some_ := load_le (e := e) (k := .active) runs faithful here
  rcases first : w.counts? e with _ | c₀
  · simp [Act.opens, performed.before, booked.unknown first]
  · obtain ⟨c, now, sums⟩ := booked.known c₀ first
    have active := sums .active
    have busy : c .active ≠ 0 := by omega
    simp [Act.opens, performed.before, now, busy]

/-- Who stops waiting to be stopped does so because that is pending. -/
theorem isPending_of_endBlock (runs : RunsEngines m told) (remembers : s.Remembers e) {next : Story}
    {a : Act brokerInterface World} (performed : Performed m s next a) (ends : a.action = .engine e .endBlock) :
    isPending e s.log := by
  obtain ⟨pick, done⟩ := performed.performed
  rw [runs.perform] at done
  obtain ⟨flow, proc, action, r, w, u⟩ := a
  cases ends
  obtain ⟨p, q, hp, hq, -⟩ := World.perform_engine done
  obtain ⟨g, hg, -⟩ := Option.map_eq_some_iff.mp hq
  rw [← remembers p (performed.before ▸ hp)]
  unfold Engine.endBlock? at hg
  split at hg
  · assumption
  · cases hg

theorem awaits_own (runs : RunsEngines m told) {w : World} (faithful : s.Faithful m) (booked : s.Booked e w)
    (remembers : s.Remembers e) {next : Story} {a : Act brokerInterface World} (performed : Performed m s next a)
    {t : Track brokerInterface World} (here : t ∈ (s.tracks a.flow).head?) (awaits : Awaits e t s.log) :
    Awaits e (t.note (.act a)) (a :: s.log) := by
  intro invocation
  obtain ⟨began, ended⟩ := awaits invocation
  obtain ⟨next, wait, hf⟩ := performed.about
  obtain ⟨ds, lower, tracks, leads, -⟩ := faithful.fits.tracked_of_find hf
  have under := opens_of_under_way runs faithful booked performed (List.mem_of_mem_head? here) invocation
  obtain rfl : t = ⟨a.proc, ds⟩ := by
    rw [show s.tracks a.flow = _ from tracks] at here
    exact (Option.some.inj here).symm
  have from_ : ∀ st, a.action.leaves e = some st → station e ds = st := (runs.minds_of_leads invocation leads).1.1.1
  have acts : ((⟨a.proc, ds⟩ : Track brokerInterface World).note (.act a)).acts = a :: Track.acts ⟨a.proc, ds⟩ := rfl
  have now : station e (.act a :: ds) = (a.action.reaches e a.reply).getD (station e ds) := rfl
  rw [acts]
  refine ⟨fun there => ?_, fun b hb ends => ?_⟩
  · by_cases begins : a.begins e
    · exact ⟨a, List.mem_cons_self, begins, [], s.log, rfl, by simp⟩
    · have stood : station e ds ≠ .away := fun away => there <| now.trans <| by
        rcases leaves : a.action.leaves e with _ | st
        · simp [Action.reaches_eq_none leaves, away]
        · have first : st = .away := (from_ st leaves).symm.trans away
          rcases reaches : a.action.reaches e a.reply with _ | st'
          · simpa using away
          · simp [Act.begins, leaves, first, reaches] at begins
      exact ((began stood).later (under stood)).more
  · rcases List.mem_cons.mp hb with rfl | old
    · have leaves : Action.leaves e b.action = some .waiting := (congrArg (Action.leaves e) ends).trans (Action.leaves_engine _)
      have stands : station e ds = .waiting := from_ .waiting leaves
      exact ⟨[], s.log, rfl, (began (by simp [stands])).more, isPending_of_endBlock runs remembers performed ends⟩
    · obtain ⟨late, before, split, began, pending⟩ := ended.later (a := a) b old ends
      exact ⟨late, before, split, began.more, pending⟩

/-- Whatever happens, invocations end their waits because a stop is pending. -/
theorem awaits_moves (runs : RunsEngines m told) {w : World} {p₀ : Endpoint} (first : w.endpoint? e = some p₀)
    (calm : p₀.engine.stopRequested = false) (ms : List Move) :
    ((Story.new w).moves m ms).annals.Recorded (Awaits e) := by
  refine (moves_keep (P := fun s => (s.Faithful m ∧ s.Booked e w ∧ s.Remembers e) ∧ s.annals.Recorded (Awaits e))
    (fun s mv ⟨⟨faithful, booked, remembers⟩, recorded⟩ =>
      ⟨⟨faithful.move mv, booked.move runs faithful mv, remembers.move runs mv⟩, ?_⟩) ?_ ms).2
  · refine recorded_move faithful mv recorded (fun _ _ => ⟨fun under => absurd rfl under, fun _ none => absurd none List.not_mem_nil⟩)
      (fun t d silent awaits invocation => ?_)
      (fun a performed t here => awaits_own runs faithful booked remembers performed here)
      fun a performed => ⟨fun flow t here awaits invocation => ?_, fun x here awaits invocation => ?_⟩
    · have same : (t.note d).acts = t.acts := by simp [Track.note, Track.acts, silent]
      have stands : station e (t.note d).deeds = station e t.deeds := by
        cases d with
        | act a => cases silent
        | call | start => rfl
      rw [same, stands]
      exact awaits invocation
    · obtain ⟨began, ended⟩ := awaits invocation
      exact ⟨fun under => (began under).later (opens_of_under_way runs faithful booked performed here invocation under),
        ended.later⟩
    · have past : station e x.deeds = .away := (runs.minds_of_leads invocation (faithful.fits.returned x here)).1
      exact ⟨fun under => absurd past under, (awaits invocation).2.later⟩
  · refine ⟨⟨faithful_new w, booked_moves runs e w [], fun p now => ?_⟩, by rintro _ _ ⟨⟩, by rintro _ ⟨⟩⟩
    cases first.symm.trans now
    exact calm

/-- **Stopped commands.** Whatever happens on an engine that nobody has asked to stop yet: a command that waits to be
stopped comes back as stopped. Either the engine was asked to stop while the command ran, or the command began on an
engine that was busy, had been asked to stop before, and had not been found idle since. -/
theorem stopped_by_request (runs : RunsEngines m told) {w : World} {p₀ : Endpoint} (first : w.endpoint? e = some p₀)
    (calm : p₀.engine.stopRequested = false) (ms : List Move) {s : Story} (reached : s = (Story.new w).moves m ms)
    {flow : Nat} {c : Command} {merge nested : Bool} {r : Except EngineFailure Invocation}
    {ds : List (Deed brokerInterface World)} (returned : ⟨flow, .invoke e c merge nested, r, ds⟩ ∈ s.returns)
    {found : Act brokerInterface World} (here : .act found ∈ ds) (finds : found.findsBlock e) :
    r = .error .stopped ∧ ∃ began ended late since older, .act began ∈ ds ∧ .act ended ∈ ds ∧ began.begins e ∧
      ended.action = .engine e .endBlock ∧ s.log = late ++ ended :: since ++ began :: older ∧
      (∀ a ∈ since, a.opens e = false) ∧ ((∃ stop ∈ since, stop.stops e) ∨
        began.opens e = false ∧ ∃ recent stop past, older = recent ++ stop :: past ∧ stop.stops e ∧
          ∀ a ∈ recent, a.opens e = false) := by
  subst reached
  have faithful := faithful_moves (m := m) (faithful_new w) ms
  have leads := faithful.fits.returned _ returned
  rw [runs.invoke] at leads
  obtain ⟨stopped, ended, there, ends⟩ := (comes_invokeTelling (runs.told e) merge).leads leads ⟨found, here, finds⟩
  have awaits := (awaits_moves runs first calm ms).returns _ returned (by simp [Proc.isInvocationOn])
  obtain ⟨late, before, split, ⟨began, within, begins, since, older, rfl, busy⟩, pending⟩ :=
    awaits.2 ended (Track.mem_acts.mpr there) ends
  refine ⟨stopped, began, ended, late, since, older, Track.mem_acts.mp within, there, begins, ends, ?_, busy, ?_⟩
  · exact split.trans (by simp)
  · refine (isPending_since begins pending).imp_right ?_
    rintro ⟨late, asked⟩
    exact ⟨late, isPending_iff.mp asked⟩

end Story

/-! ## Stopped before it began -/

namespace StopRequests

open Aborts (stops)
open Stops (incurious outerStop)

/-- An engine on which one command stops the debugger and another one waits to be stopped. -/
def endpoints : List (EngineName × Endpoint) :=
  [("main", ⟨.new ⟨5, 1⟩ ⟨1, "localhost", "host"⟩ [("outer", .break outerStop), ("wait", .block)], false, none, none⟩)]

/-- A command stops the debugger, and the engine is asked to stop. Then a command is run at the debugger's prompt that
waits to be stopped. -/
def stopThenWait : List Move :=
  [.arrive "set up" (.setUp "main" true)] ++ turns 0 20
    ++ [.arrive "outer" (.execute (.script "outer") .standard none)] ++ turns 1 60
    ++ [.arrive "stop" (.engineStep "main" .stop)] ++ turns 2 10
    ++ [.arrive "wait" (.execute (.script "wait") .standard none)] ++ turns 3 40 ++ turns 1 100

/-- An invocation has come back as stopped whose command waited for that. -/
def hasWaited (r : Return brokerInterface World) : Bool :=
  match r with
  | ⟨_, .invoke name _ _ _, .error .stopped, ds⟩ => name = "main" && (ds.filterMap Deed.act?).any (·.findsBlock "main")
  | _ => false

theorem eq_of_hasWaited {r : Return brokerInterface World} (waited : hasWaited r) :
    ∃ flow c merge nested ds found, r = ⟨flow, .invoke "main" c merge nested, .error .stopped, ds⟩ ∧
      .act found ∈ ds ∧ found.findsBlock "main" := by
  unfold hasWaited at waited
  split at waited
  · next flow name c merge nested ds =>
    obtain ⟨same, finds⟩ := (Bool.and_eq_true ..).mp waited
    cases of_decide_eq_true same
    obtain ⟨found, here, finds⟩ := List.any_eq_true.mp finds
    obtain ⟨d, there, act⟩ := List.mem_filterMap.mp here
    cases Deed.act?_eq_some.mp act
    exact ⟨flow, c, merge, nested, ds, found, rfl, there, finds⟩
  · cases waited

theorem stopped_by_request_before : ∃ flow c merge nested ds,
    ⟨flow, .invoke "main" c merge nested, .error .stopped, ds⟩ ∈
        ((Story.new (.new incurious endpoints "main" .new)).moves brokerMachine stopThenWait).returns ∧
      ∃ began ended, .act began ∈ ds ∧ .act ended ∈ ds ∧ began.begins "main" ∧ ended.action = .engine "main" .endBlock := by
  have waited : ((Story.new (.new incurious endpoints "main" .new)).moves brokerMachine stopThenWait).returns.any
      hasWaited = true := by decide +kernel
  obtain ⟨r, returned, waited⟩ := List.any_eq_true.mp waited
  obtain ⟨flow, c, merge, nested, ds, found, rfl, here, finds⟩ := eq_of_hasWaited waited
  obtain ⟨-, began, ended, -, -, -, first, last, begins, ends, -⟩ :=
    Story.stopped_by_request runsEngines_broker (w := .new incurious endpoints "main" .new) rfl rfl stopThenWait rfl
      returned here finds
  exact ⟨flow, c, merge, nested, ds, returned, began, ended, first, last, begins, ends⟩

/-! ### A stop that came first -/

/-- What somebody who began on the engine saw of the number of requests to stop. -/
def sawAll (c : Chronicle) (r : Return brokerInterface World) : Bool :=
  (r.deeds.filterMap Deed.act?).all fun a => !a.begins "main" || stops "main" a.after = stops "main" c.world

theorem stops_of_stop {e : EngineName} {a : Act brokerInterface World} {pick : Bool}
    (performed : World.perform a.flow pick a.action a.before = some (a.reply, a.after)) (asked : a.stops e) :
    stops e a.before < stops e a.after := by
  obtain ⟨flow, proc, action, r, w, u⟩ := a
  cases action with
  | engine name op =>
    obtain ⟨same, stop⟩ := (Bool.and_eq_true ..).mp asked
    cases of_decide_eq_true same
    obtain ⟨p, q, hp, hq, hu⟩ := World.perform_engine performed
    have counted := (Endpoint.counted_perform hq).stops
    simp only [stops, hp, hu, Option.map_some, Option.getD_some, counted, stop]
    exact Nat.lt_succ_self _
  | _ => cases asked

theorem passage_stops (e : EngineName) : Chronicle.Passage fun w u => stops e w ≤ stops e u where
  refl _ := le_rfl
  trans _ _ _ := le_trans
  act := Aborts.stops_perform
  outside change w := by
    have engines := congrArg (Option.map fun g : Engine => g.tally.stops) (Aborts.endpoint?_apply change w e)
    simp only [Option.map_map] at engines
    exact le_of_eq (congrArg (·.getD 0) engines.symm)

/-- A command comes back as stopped although nobody has asked the engine to stop since it began. -/
theorem stopped_before_it_began : ∃ flow c merge nested ds found,
    ⟨flow, .invoke "main" c merge nested, .error .stopped, ds⟩ ∈
        ((Chronicle.new incurious endpoints "main" .new).moves stopThenWait).returns ∧
      .act found ∈ ds ∧ found.findsBlock "main" ∧
      ∀ began late older, .act began ∈ ds → began.begins "main" →
        ((Chronicle.new incurious endpoints "main" .new).moves stopThenWait).log = late ++ began :: older →
        ∀ a ∈ late, a.stops "main" = false := by
  have waited : ((Chronicle.new incurious endpoints "main" .new).moves stopThenWait).returns.any
      (fun r => hasWaited r && sawAll ((Chronicle.new incurious endpoints "main" .new).moves stopThenWait) r) = true := by
    decide +kernel
  obtain ⟨r, returned, waited⟩ := List.any_eq_true.mp waited
  obtain ⟨waited, saw⟩ := (Bool.and_eq_true ..).mp waited
  obtain ⟨flow, c, merge, nested, ds, found, rfl, here, finds⟩ := eq_of_hasWaited waited
  refine ⟨flow, c, merge, nested, ds, found, returned, here, finds, fun began late older within begins split a ha => ?_⟩
  have ordered := Chronicle.ordered_new (passage_stops "main") incurious endpoints "main" .new stopThenWait
  have faithful := Chronicle.faithful_moves (Chronicle.faithful_new incurious endpoints "main" .new) stopThenWait
  have logged : a ∈ ((Chronicle.new incurious endpoints "main" .new).moves stopThenWait).log :=
    split ▸ List.mem_append_left _ ha
  rw [Bool.eq_false_iff]
  intro asked
  obtain ⟨pick, performed⟩ := faithful.fits.performed logged
  have more := stops_of_stop performed asked
  have since := ordered.since a logged
  have between := (List.pairwise_append.mp (split ▸ ordered.between)).2.2 a ha began List.mem_cons_self
  have last := List.all_eq_true.mp saw began (List.mem_filterMap.mpr ⟨_, within, rfl⟩)
  have same := of_decide_eq_true (((Bool.or_eq_true ..).mp last).resolve_left (by simp [begins]))
  omega

end StopRequests

end SessionBroker
