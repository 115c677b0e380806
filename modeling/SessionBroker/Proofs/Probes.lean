import Mathlib.Data.List.DropRight
import Mathlib.Data.List.TakeWhile
import Mathlib.Logic.Relation
import SessionBroker.Proofs.Registration

/-!
# Following who answers

A probe says who answers now. Sessions that came about by a change of context and answer to somebody
else go, from the top down to the first one that still holds; then at most one session comes. A second
probe with the same answer finds nothing left to do, and sessions of this kind do not pile up.

Two probes at once are NOT covered: each may plan before the other one pushes.
-/

namespace SessionBroker

namespace Identity

variable {a b : Identity}

theorem sameMachine_comm : a.sameMachine b = b.sameMachine a := by
  simp only [sameMachine, eq_comm]

@[simp] theorem isSame_self : a.isSame a := by
  simp [isSame, sameMachine]

theorem isSame_comm : a.isSame b = b.isSame a := by
  simp only [isSame, sameMachine_comm, eq_comm]

theorem isSame_trans {c : Identity} (h : a.isSame b) (h' : b.isSame c) : a.isSame c := by
  simp only [isSame, sameMachine, Bool.and_eq_true, decide_eq_true_eq] at h h' ⊢
  exact ⟨⟨h.1.1.trans h'.1.1, h.1.2.trans h'.1.2⟩, h.2.trans h'.2⟩

end Identity

/-- Another process on the machine of a session answers. -/
def Session.IsLeft (s : Session) (probed : Identity) : Prop :=
  s.identity.process ≠ probed.process ∧ s.identity.sameMachine probed

instance (s : Session) (probed : Identity) : Decidable (s.IsLeft probed) := by
  unfold Session.IsLeft
  infer_instance

theorem Session.IsLeft.differs {s : Session} {probed : Identity} (left : s.IsLeft probed) :
    ¬s.identity.isSame probed := by
  intro same
  simp only [Identity.isSame, Bool.and_eq_true, decide_eq_true_eq] at same
  exact left.1 same.1.1

/-! ## The plan -/

namespace SessionStack

variable {t : SessionStack} {probed : Identity} {stopped : Bool} {s : Session}

theorem isStale_iff : isStale probed s ↔ s.origin ≠ .host ∧ ¬s.identity.isSame probed := by
  simp [isStale]

/-- The sessions on top that no longer hold. -/
def stale (t : SessionStack) (probed : Identity) : List Session := t.above.takeWhile (isStale probed)

/-- What is left without them. -/
def pruned (t : SessionStack) (probed : Identity) : SessionStack :=
  { t with above := t.above.dropWhile (isStale probed) }

theorem stale_append_pruned : t.stale probed ++ (t.pruned probed).above = t.above :=
  List.takeWhile_append_dropWhile

theorem drop_length_stale : t.above.drop (t.stale probed).length = (t.pruned probed).above := by
  have above : t.stale probed ++ (t.pruned probed).above = t.above := stale_append_pruned
  conv_lhs => rw [← above]
  exact List.drop_left

theorem isStale_of_stale (here : s ∈ t.stale probed) : isStale probed s :=
  List.mem_takeWhile_imp here

theorem not_isStale_of_pruned (top : s ∈ (t.pruned probed).above.head?) : ¬isStale probed s := by
  intro stale
  have off := List.head?_dropWhile_not (isStale probed) t.above
  rw [show (t.above.dropWhile (isStale probed)).head? = some s from top] at off
  simp [stale] at off

theorem adjustments_eq_pops : t.adjustments probed stopped =
    List.replicate (t.stale probed).length .pop ++ t.missing (t.pruned probed).current probed stopped := by
  show List.replicate (t.stale probed).length .pop ++
    t.missing ((t.above.drop (t.stale probed).length).headD t.bottom) probed stopped = _
  rw [drop_length_stale]
  rfl

/-- Where the current session holds there is nothing to take off. -/
theorem adjustments_of_isSame (same : t.current.identity.isSame probed) :
    t.adjustments probed stopped = [] := by
  have none : t.stale probed = [] := by
    obtain ⟨above, bottom⟩ := t
    cases above with
    | nil => rfl
    | cons s rest =>
      have holds : s.identity.isSame probed := same
      simp [stale, isStale, holds]
  have all : t.pruned probed = t := by
    have above : t.stale probed ++ (t.pruned probed).above = t.above := stale_append_pruned
    rw [none, List.nil_append] at above
    obtain ⟨_, _⟩ := t
    simp only [pruned] at above ⊢
    rw [above]
  rw [adjustments_eq_pops, none, all]
  simp [missing, same]

/-- What is left after the stale sessions have gone is stale no more. -/
theorem pruned_pruned : (t.pruned probed).pruned probed = t.pruned probed := by
  simp only [pruned, List.dropWhile_idempotent]

theorem stale_pruned : (t.pruned probed).stale probed = [] := by
  have above : (t.pruned probed).stale probed ++ ((t.pruned probed).pruned probed).above =
      (t.pruned probed).above := stale_append_pruned
  rw [pruned_pruned] at above
  exact List.append_left_eq_self.mp above

/-- Only a session of the host may answer to somebody else and stay. -/
theorem host_of_pruned (bottom : t.bottom.origin = .host)
    (differs : ¬(t.pruned probed).current.identity.isSame probed) :
    (t.pruned probed).current.origin = .host := by
  rcases top : (t.pruned probed).above with _ | ⟨s, rest⟩
  · rw [current, top]
    exact bottom
  · have here : (t.pruned probed).current = s := by rw [current, top, List.headD_cons]
    have holds : ¬isStale probed s := not_isStale_of_pruned (by rw [top]; rfl)
    rw [isStale_iff] at holds
    rw [here] at differs ⊢
    by_contra derived
    exact holds ⟨derived, differs⟩

/-- What comes onto a stack where `top` is current and answers to somebody else than was found. -/
structure Brings (probed : Identity) (stopped : Bool) (bottom top : Session) (come : List Session) :
    Prop where
  single : come.length ≤ 1
  identity : ∀ s ∈ come, s.identity = probed
  origin : ∀ s ∈ come, s.origin ≠ .host
  entered : (∃ s ∈ come, s.origin = .enteredProcess) ↔ top.IsLeft probed
  enteredAt : ∀ s ∈ come, s.origin = .enteredProcess → s.location = top.location
  debugged : (∃ s ∈ come, s.origin = .debugged) ↔
    ¬top.IsLeft probed ∧ stopped ∧ ¬top.identity.isSame probed
  debuggedAt : ∀ s ∈ come, s.origin = .debugged →
    (s.location = .remote ↔ ¬bottom.identity.sameMachine probed)

/-- A process is entered, or a debugged session is, or nothing comes. -/
theorem missing_cases (t : SessionStack) (probed : Identity) (stopped : Bool) (top : Session) :
    t.missing top probed stopped = [] ∧ ¬top.IsLeft probed ∧ (stopped → top.identity.isSame probed) ∨
      t.missing top probed stopped = [.push .enteredProcess top.location] ∧ top.IsLeft probed ∨
      t.missing top probed stopped =
          [.push .debugged (if t.bottom.identity.sameMachine probed then .near else .remote)] ∧
        ¬top.IsLeft probed ∧ stopped ∧ ¬top.identity.isSame probed := by
  have entering : (probed.process ≠ top.identity.process && top.identity.sameMachine probed) =
      decide (top.IsLeft probed) := by
    rw [Bool.eq_iff_iff, decide_eq_true_eq]
    simp only [Bool.and_eq_true, decide_eq_true_eq, Session.IsLeft, @ne_comm _ probed.process]
  unfold missing
  rw [entering]
  by_cases same : top.identity.isSame probed
  · refine .inl ⟨if_pos same, fun left => left.differs same, fun _ => same⟩
  · rw [if_neg same]
    by_cases left : top.IsLeft probed
    · exact .inr (.inl ⟨if_pos (by simpa using left), left⟩)
    · rw [if_neg (by simpa using left)]
      cases stopped with
      | false => exact .inl ⟨rfl, left, by simp⟩
      | true => exact .inr (.inr ⟨rfl, left, rfl, same⟩)

/-- Whatever the probe says, the plan brings what it should. -/
theorem brings_missing {top : Session} {come : List Session}
    (identity : ∀ s ∈ come, s.identity = probed)
    (planned : t.missing top probed stopped = come.map fun s => .push s.origin s.location) :
    Brings probed stopped t.bottom top come := by
  rcases t.missing_cases probed stopped top with ⟨none, stays, same⟩ | ⟨one, left⟩ | ⟨one, stays, halted, differs⟩
  · obtain rfl : come = [] := by
      rw [none] at planned
      exact List.map_eq_nil_iff.mp planned.symm
    refine ⟨by simp, by simp, by simp, by simp [stays], by simp, ?_, by simp⟩
    simpa [stays] using same
  · rw [one] at planned
    obtain ⟨s, rfl, pushed⟩ := List.map_eq_singleton_iff.mp planned.symm
    obtain ⟨origin, location⟩ : s.origin = .enteredProcess ∧ s.location = top.location := by
      simpa using pushed
    constructor <;> simp [origin, location, left, identity s]
  · rw [one] at planned
    obtain ⟨s, rfl, pushed⟩ := List.map_eq_singleton_iff.mp planned.symm
    obtain ⟨origin, location⟩ : s.origin = .debugged ∧
        s.location = if t.bottom.identity.sameMachine probed then .near else .remote := by
      simpa using pushed
    constructor <;> simp [origin, location, stays, halted, differs, identity s]

/-- A stack follows a probe: of its sessions above the bottom one those in `gone` go, those in `kept`
stay, and it becomes `now`. -/
structure Follows (t : SessionStack) (probed : Identity) (stopped : Bool) (gone kept : List Session)
    (now : SessionStack) : Prop where
  split : t.above = gone ++ kept
  stale : ∀ s ∈ gone, s.origin ≠ .host ∧ ¬s.identity.isSame probed
  holds : ∀ s ∈ kept.head?, s.origin = .host ∨ s.identity.isSame probed
  comes : ∃ come, Brings probed stopped t.bottom (kept.headD t.bottom) come ∧
    t.adjustments probed stopped =
      List.replicate gone.length .pop ++ come.map (fun s => .push s.origin s.location) ∧
    now = ⟨come ++ kept, t.bottom⟩ ∧
    (now.current.identity.isSame probed ∨
      come = [] ∧ ¬(kept.headD t.bottom).IsLeft probed ∧ ¬stopped)
  settled : now.adjustments probed stopped = []

theorem Brings.answers {bottom top : Session} {come kept : List Session}
    (brings : Brings probed stopped bottom top come) (under : kept.headD bottom = top) :
    (SessionStack.current ⟨come ++ kept, bottom⟩).identity.isSame probed ∨
      come = [] ∧ ¬top.IsLeft probed ∧ ¬stopped := by
  cases come with
  | cons s rest =>
    left
    have here : s.identity = probed := brings.identity s List.mem_cons_self
    simp [current, here]
  | nil =>
    by_cases same : top.identity.isSame probed
    · left
      show (kept.headD bottom).identity.isSame probed
      rwa [under]
    · right
      have stays : ¬top.IsLeft probed := by simpa using brings.entered
      have debugged := brings.debugged
      simp only [List.not_mem_nil, false_and, exists_false, false_iff] at debugged
      exact ⟨rfl, stays, fun halted => debugged ⟨stays, halted, same⟩⟩

/-- Where no session is stale and no process was entered, a probe outside a stop changes nothing. -/
theorem adjustments_pruned (stays : ¬(t.pruned probed).current.IsLeft probed) :
    (t.pruned probed).adjustments probed false = [] := by
  rw [adjustments_eq_pops, stale_pruned, pruned_pruned]
  rcases (t.pruned probed).missing_cases probed false (t.pruned probed).current with
    ⟨none, -⟩ | ⟨-, left⟩ | ⟨-, -, halted, -⟩
  · rw [none]
    rfl
  · exact absurd left stays
  · cases halted

theorem follows_of_brings {now : SessionStack} {come : List Session}
    (brings : Brings probed stopped t.bottom (t.pruned probed).current come)
    (planned : t.adjustments probed stopped = List.replicate (t.stale probed).length .pop ++
      come.map (fun s => .push s.origin s.location))
    (after : now = ⟨come ++ (t.pruned probed).above, t.bottom⟩) :
    t.Follows probed stopped (t.stale probed) (t.pruned probed).above now where
  split := t.stale_append_pruned.symm
  stale s here := isStale_iff.mp (isStale_of_stale here)
  holds s top := by
    have holds := not_isStale_of_pruned top
    rw [isStale_iff] at holds
    by_contra no
    rw [not_or] at no
    exact holds no
  comes := ⟨come, brings, planned, after, by rw [after]; exact brings.answers rfl⟩
  settled := by
    subst after
    rcases brings.answers rfl with same | ⟨rfl, stays, running⟩
    · exact adjustments_of_isSame same
    · obtain rfl : stopped = false := by simpa using running
      exact adjustments_pruned stays

/-! ### Sessions that came about by a change of context -/

/-- No session that came about by a change of context lies on another one. -/
def Apart (t : SessionStack) : Prop :=
  t.toList.IsChain fun above below => above.origin ≠ .host → below.origin = .host

instance (t : SessionStack) : Decidable t.Apart := by
  unfold Apart
  infer_instance

theorem apart_push : (t.push s).Apart ↔ (s.origin ≠ .host → t.current.origin = .host) ∧ t.Apart := by
  obtain ⟨below, all⟩ := t.toList_eq
  rw [Apart, Apart, toList_push, all, List.isChain_cons_cons]

theorem Apart.pruned (apart : t.Apart) : (t.pruned probed).Apart := by
  have all : t.toList = t.stale probed ++ (t.pruned probed).toList := by
    show t.above ++ [t.bottom] = t.stale probed ++ ((t.pruned probed).above ++ [t.bottom])
    rw [← List.append_assoc, stale_append_pruned]
  unfold Apart at apart
  rw [all] at apart
  exact apart.right_of_append

/-- Something comes only onto a session that answers to somebody else. -/
theorem Brings.differs {bottom top : Session} {come : List Session}
    (brings : Brings probed stopped bottom top come) (here : s ∈ come) :
    ¬top.identity.isSame probed := by
  rcases origin : s.origin with _ | _ | _
  · exact absurd origin (brings.origin s here)
  · exact (brings.entered.mp ⟨s, here, origin⟩).differs
  · exact (brings.debugged.mp ⟨s, here, origin⟩).2.2

theorem Brings.cases {bottom top : Session} {come : List Session}
    (brings : Brings probed stopped bottom top come) : come = [] ∨ ∃ s, come = [s] ∧
      s.identity = probed ∧ s.origin ≠ .host ∧ ¬top.identity.isSame probed := by
  rcases come with _ | ⟨s, rest⟩
  · exact .inl rfl
  · obtain rfl : rest = [] := by
      rw [← List.length_eq_zero_iff]
      have single := brings.single
      rw [List.length_cons] at single
      omega
    have here : s ∈ [s] := List.mem_singleton_self s
    exact .inr ⟨s, rfl, brings.identity s here, brings.origin s here, brings.differs here⟩

/-- Following a probe keeps such sessions apart: the one that comes lies on one of the host. -/
theorem Apart.brings {come : List Session} (apart : t.Apart) (bottom : t.bottom.origin = .host)
    (brings : Brings probed stopped t.bottom (t.pruned probed).current come) :
    Apart ⟨come ++ (t.pruned probed).above, t.bottom⟩ := by
  rcases brings.cases with rfl | ⟨s, rfl, -, -, differs⟩
  · exact apart.pruned
  · show ((t.pruned probed).push s).Apart
    rw [apart_push]
    exact ⟨fun _ => host_of_pruned bottom differs, apart.pruned⟩

/-- Above the bottom session there is at most one, which came about by a change of context and is not
who the bottom session is. -/
def Lone (t : SessionStack) : Prop :=
  t.above = [] ∨ ∃ s, t.above = [s] ∧ s.origin ≠ .host ∧ ¬s.identity.isSame t.bottom.identity

theorem Lone.depth_le (lone : t.Lone) : t.depth ≤ 2 := by
  rcases lone with none | ⟨s, one, -⟩
  · rw [depth, none, List.length_nil]
    omega
  · rw [depth, one, List.length_singleton]

/-- With one such session above the bottom one, a probe either finds it in place or takes it off. -/
theorem Lone.pruned_cases (lone : t.Lone) (probed : Identity) :
    (t.pruned probed).above = [] ∨ ∃ s, (t.pruned probed).above = [s] ∧ s.origin ≠ .host ∧
      s.identity.isSame probed ∧ ¬s.identity.isSame t.bottom.identity := by
  rcases lone with none | ⟨s, one, derived, other⟩
  · left
    rw [pruned, none, List.dropWhile_nil]
  · by_cases same : s.identity.isSame probed
    · right
      have holds : ¬isStale probed s := by
        rw [isStale_iff]
        exact fun stale => stale.2 same
      exact ⟨s, by rw [pruned, one, List.dropWhile_cons_of_neg holds], derived, same, other⟩
    · left
      have stale : isStale probed s := isStale_iff.mpr ⟨derived, same⟩
      rw [pruned, one, List.dropWhile_cons_of_pos stale, List.dropWhile_nil]

theorem Lone.brings {come : List Session} (lone : t.Lone)
    (brings : Brings probed stopped t.bottom (t.pruned probed).current come) :
    Lone ⟨come ++ (t.pruned probed).above, t.bottom⟩ := by
  rcases lone.pruned_cases probed with none | ⟨s, one, derived, same, other⟩
  · have top : (t.pruned probed).current = t.bottom := by
      rw [current, none]
      rfl
    rw [top] at brings
    rcases brings.cases with rfl | ⟨s, rfl, identity, origin, differs⟩
    · exact .inl none
    · refine .inr ⟨s, by rw [none]; rfl, origin, ?_⟩
      rw [identity, Identity.isSame_comm]
      exact differs
  · have top : (t.pruned probed).current = s := by
      rw [current, one]
      rfl
    rw [top] at brings
    rcases brings.cases with rfl | ⟨-, -, -, -, differs⟩
    · exact .inr ⟨s, one, derived, other⟩
    · exact absurd same differs

/-- A probe that finds the bottom session itself leaves nothing above it. -/
theorem Lone.returns {come : List Session} (lone : t.Lone)
    (home : t.bottom.identity.isSame probed)
    (brings : Brings probed stopped t.bottom (t.pruned probed).current come) :
    come ++ (t.pruned probed).above = [] := by
  rcases lone.pruned_cases probed with none | ⟨s, -, -, same, other⟩
  · have top : (t.pruned probed).current = t.bottom := by
      rw [current, none]
      rfl
    rw [top] at brings
    rcases brings.cases with rfl | ⟨-, -, -, -, differs⟩
    · exact none
    · exact absurd home differs
  · rw [Identity.isSame_comm] at home
    exact absurd (Identity.isSame_trans same home) other

end SessionStack

namespace Probes

open Registration (Alone Acts alike_of_within)

/-! ## Carrying it out -/

/-- What is found out about who answers, and the sessions follow. -/
def Probed (probed : Identity) (stopped : Bool) (w u : World) : Prop :=
  ∃ flow, Alone flow (SessionChanges.adjust probed (w.sessions.adjustments probed stopped)) w () u

/-- Every session is on an engine that there is. -/
def Staffed (w : World) : Prop := ∀ s ∈ w.sessions.toList, (w.endpoint? s.engine).isSome

/-- Steps on engines of some kind by which hooks move and engines are closed, and notices. -/
def Handles (known : EngineName → Prop) : Action → Prop
  | .engine e (.register _) | .engine e .unregister | .engine e .close => known e
  | .broker (.notify _) => True
  | _ => False

def handling (known : EngineName → Prop) : Scope brokerInterface :=
  ⟨Handles known, fun _ => False, fun _ => False⟩

@[local simp] theorem handling_acts {known : EngineName → Prop} {a : Action} :
    (handling known).acts a ↔ Handles known a := Iff.rfl

attribute [local simp] Handles

variable {α : Type} {w u v : World} {flow : Nat} {probed : Identity} {stopped : Bool} {p : Code α}
  {known : EngineName → Prop} {s : Session}

/-- Engines neither come nor go. -/
theorem isSome_acts {action : Action} {r : action.Reply} (h : Acts flow action w r u)
    (name : EngineName) : (u.endpoint? name).isSome = (w.endpoint? name).isSome := by
  obtain ⟨pick, h⟩ := h
  rcases World.endpoint?_perform h name with ⟨op, reply, p, q, -, before, -, after⟩ | ⟨-, same⟩
  · simp [before, after]
  · rw [same]

theorem isSome_alone {a : α} (h : Alone flow p w a u) (name : EngineName) :
    (u.endpoint? name).isSome = (w.endpoint? name).isSome :=
  h.view_eq (fun w => (w.endpoint? name).isSome) (S := .all) (fun _ acted => isSome_acts acted name)
    (fun _ _ => Program.within_all _) (Program.within_all p)

theorem exists_acts {action : Action} (flow : Nat) (handled : Handles known action)
    (there : ∀ e, known e → (w.endpoint? e).isSome) : ∃ r u, Acts flow action w r u := by
  rcases action with ⟨e, op⟩ | _ | _ | _ | _ | op
  case engine =>
    have here : known e := by cases op <;> first | exact handled | exact handled.elim
    obtain ⟨p, hp⟩ := Option.isSome_iff_exists.mp (there e here)
    cases op
    case register | unregister | close =>
      exact ⟨_, _, false, by simp only [brokerMachine, World.perform, World.performEngine, hp]; rfl⟩
    all_goals exact handled.elim
  case broker =>
    cases op
    case notify n => exact ⟨(), _, false, rfl⟩
    all_goals exact handled.elim
  all_goals exact handled.elim

/-- Nothing that is only handling has to wait. -/
theorem exists_alone (flow : Nat) (handled : p.Within (handling known))
    (there : ∀ e, known e → (w.endpoint? e).isSome) : ∃ a u, Alone flow p w a u := by
  induction p generalizing w with
  | done a => exact ⟨a, w, .done a w⟩
  | act action next ih =>
    obtain ⟨r, v, acted⟩ := exists_acts flow handled.1 there
    obtain ⟨a, u, h⟩ := ih r (handled.2 r) (w := v) fun e he => by
      rw [isSome_acts acted]
      exact there e he
    exact ⟨a, u, .act acted h⟩
  | call callee next => exact handled.1.elim
  | fork other next => exact handled.1.elim

theorem exists_act {action : Action} {next : action.Reply → Code α} {r : action.Reply}
    (acted : Acts flow action w r v)
    (handled : (next r).Within (handling fun e => (w.endpoint? e).isSome)) :
    ∃ a u, Alone flow (.act action next) w a u := by
  obtain ⟨a, u, h⟩ := exists_alone flow (w := v) handled fun e there => by
    rw [isSome_acts acted]
    exact there
  exact ⟨a, u, .act acted h⟩

/-! ### Pushes and pops -/

theorem Staffed.current (staffed : Staffed w) : (w.endpoint? w.sessions.current.engine).isSome := by
  obtain ⟨below, all⟩ := w.sessions.toList_eq
  apply staffed
  rw [all]
  exact List.mem_cons_self

theorem exists_push (flow : Nat) (staffed : Staffed w) (new : (w.endpoint? s.engine).isSome) :
    ∃ u, Alone flow (SessionChanges.push s) w () u := by
  have pushed : Acts flow (.sessions (.push s)) w w.sessions.current
      { w with sessions := w.sessions.push s } := ⟨false, rfl⟩
  obtain ⟨⟨⟩, u, h⟩ : ∃ a u, Alone flow (SessionChanges.push s) w a u :=
    exists_act pushed (by simp [staffed.current, new])
  exact ⟨u, h⟩

theorem exists_pop (flow : Nat) (staffed : Staffed w) (change : SessionChange) :
    ∃ popped u, Alone flow (SessionChanges.pop change) w popped u := by
  rcases top : w.sessions.pop? with _ | ⟨s, t⟩
  · have nothing : Acts flow (.sessions .pop) w none w :=
      ⟨false, by simp only [brokerMachine, World.perform, World.performSessions, top]⟩
    exact ⟨none, w, .act nothing (.done none w)⟩
  · have popped : Acts flow (.sessions .pop) w (some (s, t.current)) { w with sessions := t } :=
      ⟨false, by simp only [brokerMachine, World.perform, World.performSessions, top]⟩
    have on : w.sessions.toList = s :: t.toList := by
      rw [SessionStack.pop?_eq_some.mp top, SessionStack.toList_push]
    have gone : (w.endpoint? s.engine).isSome := staffed s (by simp [on])
    have now : (w.endpoint? t.current.engine).isSome := by
      obtain ⟨below, all⟩ := t.toList_eq
      exact staffed t.current (by simp [on, all])
    exact exists_act popped (by simp [gone, now])

theorem Staffed.push (staffed : Staffed w) (new : (w.endpoint? s.engine).isSome)
    (h : Alone flow (SessionChanges.push s) w () u) : Staffed u := by
  intro x here
  rw [isSome_alone h]
  rw [(Registration.push_alone h).1, SessionStack.toList_push] at here
  rcases List.mem_cons.mp here with rfl | old
  · exact new
  · exact staffed x old

theorem Staffed.pop {change : SessionChange} {popped : Option Session} (staffed : Staffed w)
    (h : Alone flow (SessionChanges.pop change) w popped u) : Staffed u := by
  intro x here
  rw [isSome_alone h]
  rcases Registration.pop_alone h with ⟨-, alike⟩ | ⟨s, t, top, now, -⟩
  · rw [alike.sessions] at here
    exact staffed x here
  · apply staffed
    rw [SessionStack.pop?_eq_some.mp top, SessionStack.toList_push]
    rw [now] at here
    exact List.mem_cons_of_mem s here

/-! ### Plans -/

theorem Staffed.derived {id : SessionId} {origin : Origin} {location : Location} (staffed : Staffed w) :
    (w.endpoint? (w.sessions.derive id origin location probed).engine).isSome :=
  staffed.current

theorem derived_acts {origin : Origin} {location : Location} :
    Acts flow (.sessions (.derive origin location probed)) w
      (w.sessions.derive ⟨w.nextSession⟩ origin location probed)
      { w with nextSession := w.nextSession + 1 } :=
  ⟨false, rfl⟩

theorem exists_adjust (flow : Nat) (staffed : Staffed w) (changes : List Adjustment) :
    ∃ u, Alone flow (SessionChanges.adjust probed changes) w () u := by
  induction changes generalizing w with
  | nil => exact ⟨w, .done () w⟩
  | cons change rest ih =>
    cases change with
    | pop =>
      obtain ⟨popped, v, h⟩ := exists_pop flow staffed .exit
      obtain ⟨u, h'⟩ := ih (staffed.pop h)
      exact ⟨u, Machine.Does.bind_iff.mpr ⟨popped, v, h, h'⟩⟩
    | push origin location =>
      let s := w.sessions.derive ⟨w.nextSession⟩ origin location probed
      have staffed' : Staffed { w with nextSession := w.nextSession + 1 } := staffed
      obtain ⟨v, h⟩ := exists_push flow (s := s) staffed' staffed.derived
      have now : Staffed v := staffed'.push staffed.derived h
      obtain ⟨u, h'⟩ := ih now
      have both : Alone flow (SessionChanges.push s >>= fun _ => SessionChanges.adjust probed rest)
          { w with nextSession := w.nextSession + 1 } () u :=
        Machine.Does.bind_iff.mpr ⟨(), v, h, h'⟩
      exact ⟨u, .act derived_acts both⟩

theorem Staffed.adjust {changes : List Adjustment} (staffed : Staffed w)
    (h : Alone flow (SessionChanges.adjust probed changes) w () u) : Staffed u := by
  induction changes generalizing w with
  | nil =>
    obtain ⟨-, rfl⟩ := Machine.Does.done_iff.mp h
    exact staffed
  | cons change rest ih =>
    cases change with
    | pop =>
      obtain ⟨popped, v, h, h'⟩ := Machine.Does.bind_iff.mp h
      exact ih (staffed.pop h) h'
    | push origin location =>
      obtain ⟨s, x, ⟨_, derived⟩, h⟩ := Machine.Does.act_iff.mp h
      cases derived
      change Alone flow (SessionChanges.push _ >>= fun _ => SessionChanges.adjust probed rest) _ () u at h
      obtain ⟨⟨⟩, y, h, h'⟩ := Machine.Does.bind_iff.mp h
      have staffed' : Staffed { w with nextSession := w.nextSession + 1 } := staffed
      have now : Staffed y := staffed'.push staffed.derived h
      exact ih now h'

theorem pops_alone {n : Nat} {rest : List Adjustment} (enough : n ≤ w.sessions.above.length)
    (h : Alone flow (SessionChanges.adjust probed (List.replicate n .pop ++ rest)) w () u) :
    ∃ v, v.sessions = { w.sessions with above := w.sessions.above.drop n } ∧
      Alone flow (SessionChanges.adjust probed rest) v () u := by
  induction n generalizing w with
  | zero => exact ⟨w, rfl, h⟩
  | succ n ih =>
    obtain ⟨popped, x, h, h'⟩ := Machine.Does.bind_iff.mp h
    rcases Registration.pop_alone h with ⟨bare, -⟩ | ⟨s, t, top, now, -⟩
    · have none : w.sessions.above = [] := by
        unfold SessionStack.pop? at bare
        split at bare
        · assumption
        · cases bare
      rw [none] at enough
      cases enough
    · rw [SessionStack.pop?_eq_some] at top
      have above : w.sessions.above = s :: t.above := by rw [top]; rfl
      rw [above, List.length_cons] at enough
      obtain ⟨v, sessions, h''⟩ := ih (w := x) (by rw [now]; omega) h'
      exact ⟨v, by rw [sessions, now, top]; rfl, h''⟩

/-- What a plan has left to bring, once the stale sessions are gone. -/
theorem last_alone {t : SessionStack} (now : v.sessions = t)
    (h : Alone flow (SessionChanges.adjust probed (t.missing t.current probed stopped)) v () u) :
    ∃ come, (∀ s ∈ come, s.identity = probed) ∧
      t.missing t.current probed stopped = come.map (fun s => .push s.origin s.location) ∧
      u.sessions = { t with above := come ++ t.above } := by
  have pushed : ∀ origin location, Alone flow (SessionChanges.adjust probed [.push origin location]) v () u →
      u.sessions = t.push (t.derive ⟨v.nextSession⟩ origin location probed) := by
    intro origin location h
    obtain ⟨s, x, ⟨pick, derived⟩, h⟩ := Machine.Does.act_iff.mp h
    cases derived
    change Alone flow (SessionChanges.push _ >>= fun _ => SessionChanges.adjust probed []) _ () u at h
    obtain ⟨⟨⟩, y, h, ended⟩ := Machine.Does.bind_iff.mp h
    obtain ⟨-, rfl⟩ := Machine.Does.done_iff.mp ended
    rw [(Registration.push_alone h).1, ← now]
  rcases t.missing_cases probed stopped t.current with ⟨plan, -⟩ | ⟨plan, -⟩ | ⟨plan, -⟩
  · rw [plan] at h ⊢
    obtain ⟨-, rfl⟩ := Machine.Does.done_iff.mp h
    exact ⟨[], by simp, rfl, now⟩
  all_goals
    rw [plan] at h ⊢
    exact ⟨[t.derive _ _ _ probed], by simp [SessionStack.derive], rfl, pushed _ _ h⟩

/-- What a probe makes of the stack. -/
theorem probed_sessions (h : Probed probed stopped w u) :
    ∃ come, SessionStack.Brings probed stopped w.sessions.bottom (w.sessions.pruned probed).current come ∧
      w.sessions.adjustments probed stopped = List.replicate (w.sessions.stale probed).length .pop ++
        come.map (fun s => .push s.origin s.location) ∧
      u.sessions = ⟨come ++ (w.sessions.pruned probed).above, w.sessions.bottom⟩ := by
  obtain ⟨flow, h⟩ := h
  rw [SessionStack.adjustments_eq_pops] at h
  have enough : (w.sessions.stale probed).length ≤ w.sessions.above.length :=
    (List.takeWhile_prefix _).length_le
  obtain ⟨v, sessions, h⟩ := pops_alone enough h
  rw [SessionStack.drop_length_stale] at sessions
  obtain ⟨come, identity, planned, after⟩ := last_alone (t := w.sessions.pruned probed) sessions h
  refine ⟨come, SessionStack.brings_missing identity planned, ?_, after⟩
  rw [SessionStack.adjustments_eq_pops]
  exact congrArg _ planned

theorem follows_of_probed (h : Probed probed stopped w u) : w.sessions.Follows probed stopped
    (w.sessions.stale probed) (w.sessions.pruned probed).above u.sessions := by
  obtain ⟨come, brings, planned, now⟩ := probed_sessions h
  exact SessionStack.follows_of_brings brings planned now

theorem exists_probed (staffed : Staffed w) (probed : Identity) (stopped : Bool) :
    ∃ u, Probed probed stopped w u := by
  obtain ⟨u, h⟩ := exists_adjust 0 staffed (w.sessions.adjustments probed stopped)
  exact ⟨u, 0, h⟩

/-- Whoever answers, the sessions can follow, and however they do, the sessions that no longer hold go
and no others, at most one comes, and a second probe with that answer has nothing left to do. -/
theorem probe_converges (staffed : Staffed w) (probed : Identity) (stopped : Bool) :
    (∃ u, Probed probed stopped w u) ∧ ∀ u, Probed probed stopped w u →
      ∃ gone kept, w.sessions.Follows probed stopped gone kept u.sessions := by
  refine ⟨exists_probed staffed probed stopped, fun u h => ?_⟩
  exact ⟨_, _, follows_of_probed h⟩

/-- Who answers once a process was entered on the machine of the sessions. -/
def entered : Identity := ⟨3, "other", "HOST"⟩

/-- On the two layers a debugged session goes and an entered process comes. -/
theorem two_layers_follow_entered : Staffed Registration.twoLayers ∧
    ∃ u gone kept, Probed entered true Registration.twoLayers u ∧
      Registration.twoLayers.sessions.Follows entered true gone kept u.sessions := by
  have staffed : Staffed Registration.twoLayers := by
    unfold Staffed
    decide +kernel
  obtain ⟨⟨u, h⟩, all⟩ := probe_converges staffed entered true
  obtain ⟨gone, kept, follows⟩ := all u h
  exact ⟨staffed, u, gone, kept, h, follows⟩

/-! ## One probe after the other -/

/-- The sessions follow a probe, or something else happens. -/
inductive Follow : World → World → Prop where
  | probe {w u : World} (probed : Identity) (stopped : Bool) : Probed probed stopped w u → Follow w u
  | other {w u : World} : u.sessions = w.sessions →
    (∀ name, (u.endpoint? name).isSome = (w.endpoint? name).isSome) → Follow w u

/-- In between sessions of the host may be pushed and sessions popped. -/
inductive Turn : World → World → Prop where
  | follow {w u : World} : Follow w u → Turn w u
  | push {w u : World} {flow : Nat} (s : Session) : s.origin = .host →
    Alone flow (SessionChanges.push s) w () u → Turn w u
  | pop {w u : World} {flow : Nat} (change : SessionChange) (popped : Option Session) :
    Alone flow (SessionChanges.pop change) w popped u → Turn w u

/-- To ask an engine who answers is to follow what it says, if it says anything. -/
theorem follow_refresh {e : EngineName} {atPrompt : Bool}
    (h : Alone flow (SessionChanges.refresh e atPrompt) w () u) : Relation.ReflTransGen Follow w u := by
  obtain ⟨answer, v, probe, rest⟩ := Machine.Does.bind_iff.mp h
  have asked : Follow w v := .other
    (alike_of_within probe (Registration.within_probe e atPrompt)).sessions fun name => isSome_alone probe name
  split at rest
  · obtain ⟨-, rfl⟩ := Machine.Does.done_iff.mp rest
    exact .single asked
  · next probed _ =>
    obtain ⟨stop, x, ⟨_, looked⟩, rest⟩ := Machine.Does.act_iff.mp rest
    cases looked
    obtain ⟨changes, y, ⟨_, worked⟩, rest⟩ := Machine.Does.act_iff.mp rest
    cases worked
    exact (Relation.ReflTransGen.single asked).tail (.probe probed _ ⟨flow, rest⟩)

theorem Follow.bottom (follow : Follow w u) : u.sessions.bottom = w.sessions.bottom := by
  cases follow with
  | probe probed stopped h =>
    obtain ⟨come, -, -, now⟩ := probed_sessions h
    rw [now]
  | other same => rw [same]

theorem Follow.staffed (follow : Follow w u) (staffed : Staffed w) : Staffed u := by
  cases follow with
  | probe probed stopped h =>
    obtain ⟨flow, h⟩ := h
    exact staffed.adjust h
  | other same engines =>
    intro s here
    rw [same] at here
    rw [engines]
    exact staffed s here

theorem Follow.lone (follow : Follow w u) (lone : w.sessions.Lone) : u.sessions.Lone := by
  cases follow with
  | probe probed stopped h =>
    obtain ⟨come, brings, -, now⟩ := probed_sessions h
    rw [now]
    exact lone.brings brings
  | other same =>
    rw [same]
    exact lone

theorem Turn.bottom (turn : Turn w u) : u.sessions.bottom = w.sessions.bottom := by
  cases turn with
  | follow follow => exact follow.bottom
  | push s _ h =>
    rw [(Registration.push_alone h).1]
    rfl
  | pop change popped h =>
    rcases Registration.pop_alone h with ⟨-, alike⟩ | ⟨s, t, top, now, -⟩
    · rw [alike.sessions]
    · rw [now, SessionStack.pop?_eq_some.mp top]
      rfl

/-- A probe pushes only onto a session of the host, an explicit push pushes one. -/
theorem Turn.apart (turn : Turn w u) (bottom : w.sessions.bottom.origin = .host)
    (apart : w.sessions.Apart) : u.sessions.Apart := by
  cases turn with
  | follow follow =>
    cases follow with
    | probe probed stopped h =>
      obtain ⟨come, brings, -, now⟩ := probed_sessions h
      rw [now]
      exact apart.brings bottom brings
    | other same =>
      rw [same]
      exact apart
  | push s host h =>
    rw [(Registration.push_alone h).1, SessionStack.apart_push]
    exact ⟨fun derived => absurd host derived, apart⟩
  | pop change popped h =>
    rcases Registration.pop_alone h with ⟨-, alike⟩ | ⟨s, t, top, now, -⟩
    · rw [alike.sessions]
      exact apart
    · rw [SessionStack.pop?_eq_some.mp top, SessionStack.apart_push] at apart
      rw [now]
      exact apart.2

theorem apart_turns (turns : Relation.ReflTransGen Turn w u) (bottom : w.sessions.bottom.origin = .host)
    (apart : w.sessions.Apart) : u.sessions.Apart := by
  suffices both : u.sessions.bottom.origin = .host ∧ u.sessions.Apart from both.2
  induction turns with
  | refl => exact ⟨bottom, apart⟩
  | tail _ turn ih =>
    rw [turn.bottom]
    exact ⟨ih.1, turn.apart ih.1 ih.2⟩

theorem lone_follows (follows : Relation.ReflTransGen Follow w u) (staffed : Staffed w)
    (lone : w.sessions.Lone) :
    u.sessions.bottom = w.sessions.bottom ∧ Staffed u ∧ u.sessions.Lone := by
  induction follows with
  | refl => exact ⟨rfl, staffed, lone⟩
  | tail _ follow ih =>
    obtain ⟨bottom, staffed, lone⟩ := ih
    exact ⟨follow.bottom.trans bottom, follow.staffed staffed, follow.lone lone⟩

/-- Sessions that came about by a change of context do not pile up: none comes to lie on another one,
and where only probes are followed there is never more than one, until a probe finds the host's own
session again. -/
theorem derived_sessions_apart (bottom : w.sessions.bottom.origin = .host) :
    (w.sessions.Apart → ∀ u, Relation.ReflTransGen Turn w u → u.sessions.Apart) ∧
      (w.sessions.above = [] → Staffed w → ∀ u, Relation.ReflTransGen Follow w u →
        u.sessions.depth ≤ 2 ∧
          ∀ probed stopped, w.sessions.bottom.identity.isSame probed →
            (∃ v, Probed probed stopped u v) ∧
              ∀ v, Probed probed stopped u v → v.sessions.depth = 1) := by
  constructor
  · intro apart u turns
    exact apart_turns turns bottom apart
  · intro none staffed u follows
    obtain ⟨same, staffed, lone⟩ := lone_follows follows staffed (.inl none)
    refine ⟨lone.depth_le, fun probed stopped home => ⟨exists_probed staffed probed stopped, ?_⟩⟩
    intro v h
    obtain ⟨come, brings, -, now⟩ := probed_sessions h
    rw [← same] at home
    rw [now, SessionStack.depth, lone.returns home brings, List.length_nil]

/-- The world after a probe that is followed. -/
def followed (probed : Identity) (stopped : Bool) (w : World) : World :=
  Registration.after (SessionChanges.adjust probed (w.sessions.adjustments probed stopped)) w

theorem probed_followed
    (h : (brokerMachine.doAlone 0 100
      (SessionChanges.adjust probed (w.sessions.adjustments probed stopped)) w).isSome) :
    Probed probed stopped w (followed probed stopped w) := by
  obtain ⟨_, h, -⟩ := Registration.alone_after (P := fun _ => true)
    (by simpa [Option.isSome_iff_exists] using h)
  exact ⟨0, h⟩

/-- A process is entered from the host's session, and left again. -/
theorem entered_and_returned : Registration.begun.sessions.bottom.origin = .host ∧
    Registration.begun.sessions.Apart ∧ Staffed Registration.begun ∧
      ∃ u v, Relation.ReflTransGen Follow Registration.begun u ∧ u.sessions.Apart ∧
        u.sessions.depth = 2 ∧
          Probed Registration.begun.sessions.bottom.identity false u v ∧ v.sessions.depth = 1 := by
  have bottom : Registration.begun.sessions.bottom.origin = .host := by decide +kernel
  have apart : Registration.begun.sessions.Apart := by decide +kernel
  have staffed : Staffed Registration.begun := by
    unfold Staffed
    decide +kernel
  have probe : Follow Registration.begun (followed entered false Registration.begun) :=
    .probe entered false (probed_followed (by decide +kernel))
  obtain ⟨stays, alone⟩ := derived_sessions_apart bottom
  obtain ⟨-, home⟩ := alone (by decide +kernel) staffed _ (.single probe)
  obtain ⟨⟨v, h⟩, ends⟩ := home _ false Identity.isSame_self
  exact ⟨bottom, apart, staffed, followed entered false Registration.begun, v, .single probe,
    stays apart _ (.single (.follow probe)), by decide +kernel, h, ends v h⟩

end Probes

end SessionBroker
