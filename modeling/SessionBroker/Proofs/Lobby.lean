import Mathlib.Data.List.Nodup
import SessionBroker.Frame.Gate

/-!
# Everyone at one gate

A lobby is a gate with all who ask for its lease, those who hold it, and the cancelled tokens. Its
moves are finer than the operations of the gate: a caller is put down in one move and tries to take
the lease in another, and a release or a closing first changes the gate and tells the threads and
the futures later. Any number of callers may be anywhere between these moves.
-/

namespace SessionBroker

namespace Gate

variable {g : Gate} {id j : Nat} {caller : Caller} {p : Waiter → Bool}

@[simp] theorem drop_held : (g.drop id).held = g.held := rfl
@[simp] theorem drop_closed : (g.drop id).closed = g.closed := rfl
@[simp] theorem wake_held : (g.wake p).held = g.held := rfl
@[simp] theorem wake_closed : (g.wake p).closed = g.closed := rfl

@[simp] theorem enroll_held : (g.enroll id caller).held = g.held := by unfold enroll; split <;> rfl

@[simp] theorem enroll_closed : (g.enroll id caller).closed = g.closed := by
  unfold enroll; split <;> rfl

theorem mem_drop {w : Waiter} : w ∈ (g.drop id).waiters ↔ w ∈ g.waiters ∧ w.id ≠ id := by
  simp [drop]

theorem mem_wake {w : Waiter} : w ∈ (g.wake p).waiters ↔
    ∃ v ∈ g.waiters, (if p v then { v with woken := true } else v) = w := by
  simp [wake]

/-- One who is marked is marked on purpose: an unmarked waiter was there before. -/
theorem unwoken_of_wake {w : Waiter} (h : w ∈ (g.wake p).waiters) (hw : w.woken = false) :
    w ∈ g.waiters ∧ p w = false := by
  obtain ⟨v, hv, hvw⟩ := mem_wake.mp h
  split at hvw
  · subst hvw; simp at hw
  · next hp => subst hvw; exact ⟨hv, by simpa using hp⟩

theorem mem_enroll {w : Waiter} (h : w ∈ (g.enroll id caller).waiters) :
    w.id = id ∨ w ∈ g.waiters := by
  unfold enroll at h
  split at h
  · obtain ⟨v, hv, hvw⟩ := List.mem_map.mp h
    split at hvw
    · next hi => subst hvw; exact .inl hi
    · subst hvw; exact .inr hv
  · rcases List.mem_append.mp h with h | h
    · exact .inr h
    · exact .inl (by simp at h; simp [h])

theorem ids_wake : (g.wake p).waiters.map (·.id) = g.waiters.map (·.id) := by
  simp only [wake, List.map_map]
  refine List.map_congr_left fun w _ => ?_
  simp only [Function.comp]
  split <;> rfl

theorem ids_drop : (g.drop id).waiters.map (·.id) = (g.waiters.map (·.id)).filter (· ≠ id) := by
  simp [drop, List.filter_map, Function.comp_def]

theorem ids_enroll : (g.enroll id caller).waiters.map (·.id) =
    if id ∈ g.waiters.map (·.id) then g.waiters.map (·.id) else g.waiters.map (·.id) ++ [id] := by
  have same : (g.waiters.any (·.id = id)) = true ↔ id ∈ g.waiters.map (·.id) := by simp
  unfold enroll
  by_cases h : id ∈ g.waiters.map (·.id)
  · rw [if_pos (same.mpr h), if_pos h, List.map_map]
    refine List.map_congr_left fun w _ => ?_
    simp only [Function.comp]
    split <;> rfl
  · rw [if_neg (mt same.mp h), if_neg h, List.map_append]
    rfl

/-! Whatever happens at a gate happens alike when one waiter is forgotten. -/

theorem wake_drop : (g.wake p).drop id = (g.drop id).wake p := by
  simp only [wake, drop, List.filter_map]
  congr 2
  refine List.filter_congr fun w _ => ?_
  simp only [Function.comp]
  split <;> rfl

theorem drop_drop : (g.drop j).drop id = (g.drop id).drop j := by
  simp [drop, List.filter_filter, Bool.and_comm]

theorem drop_self : (g.drop id).drop id = g.drop id := by simp [drop, List.filter_filter]

theorem enroll_drop (h : j ≠ id) : (g.enroll j caller).drop id = (g.drop id).enroll j caller := by
  have same : (g.drop id).waiters.any (·.id = j) = g.waiters.any (·.id = j) := by
    rw [Bool.eq_iff_iff]
    simp only [List.any_eq_true, decide_eq_true_eq, mem_drop]
    constructor
    · rintro ⟨w, hw, hj⟩
      exact ⟨w, hw.1, hj⟩
    · rintro ⟨w, hw, hj⟩
      exact ⟨w, ⟨hw, hj ▸ h⟩, hj⟩
  unfold enroll
  rw [same]
  split
  · simp only [drop, List.filter_map]
    congr 2
    refine List.filter_congr fun w _ => ?_
    simp only [Function.comp]
    split <;> rfl
  · simp [drop, List.filter_append, h]

theorem tryTake_drop : (g.drop id).tryTake = (g.tryTake.1, g.tryTake.2.drop id) := by
  by_cases hc : g.closed
  · simp [tryTake, hc]
  · by_cases hh : g.held
    · simp [tryTake, hc, hh]
    · simp [tryTake, hc, hh, drop]

theorem find_drop (h : j ≠ id) :
    (g.drop id).waiters.find? (·.id = j) = g.waiters.find? (·.id = j) := by
  simp only [drop, List.find?_filter]
  congr 1
  funext w
  by_cases hw : w.id = j <;> simp [hw, h]

end Gate

/-! ## The lobby -/

/-- A release or a closing that has changed the gate already: whom it has yet to tell. -/
inductive Lobby.Call where
  /-- The threads, then the futures. -/
  | everyone
  | futures
  deriving DecidableEq, Repr

/-- Whether a caller is yet to be told. -/
def Lobby.Call.reaches : Lobby.Call → Gate.Caller → Prop
  | .everyone, _ => True
  | .futures, caller => caller ≠ .thread

/-- A gate and all who have to do with it. -/
structure Lobby where
  gate : Gate
  cancelled : List Token
  /-- All who ever asked, by number. -/
  known : List Nat
  /-- Those who are put down and are about to try to take the lease. -/
  trying : List Nat
  /-- The handles that are out, by the number of the one who asked. -/
  handles : List Nat
  /-- The releases and closings under way. -/
  calls : List Lobby.Call
  deriving Repr

/-- What happens in a lobby. -/
inductive Lobby.Move where
  /-- Somebody asks for the first time. -/
  | arrive (id : Nat) (caller : Gate.Caller)
  /-- One who is put down tries to take the lease. -/
  | tryTake (id : Nat)
  /-- One who waits and is marked looks again; `cancelFirst` says what counts if it is both let in
  and cancelled. -/
  | again (id : Nat) (cancelFirst : Bool)
  /-- One who waits is marked without a reason. -/
  | stir (id : Nat)
  /-- A future that waits is dropped. -/
  | leave (id : Nat)
  /-- A handle is released or dropped: the lease is free again. -/
  | unlock (id : Nat)
  /-- The frame is torn down: the gate is closed. -/
  | shut
  /-- The release or closing at this place tells those whom it tells next. -/
  | tell (place : Nat)
  | cancel (token : Token)
  deriving DecidableEq, Repr

namespace Lobby

/-- An empty lobby at an open gate. -/
def new : Lobby := ⟨.new, [], [], [], [], []⟩

/-- Whether a token is cancelled. -/
def isCancelled (s : Lobby) : Option Token → Bool
  | some t => s.cancelled.contains t
  | none => false

/-- One who waits. -/
def waiter? (s : Lobby) (id : Nat) : Option Gate.Waiter := s.gate.waiters.find? (·.id = id)

/-- Forgets one who asks. -/
def drop (s : Lobby) (id : Nat) : Lobby :=
  { s with gate := s.gate.drop id, trying := s.trying.filter (· ≠ id) }

/-- One who is put down tries to take the lease. -/
def attempt (s : Lobby) (w : Gate.Waiter) : Option Gate.Answer × Lobby :=
  match s.gate.tryTake.1 with
  | .granted =>
    (some .granted, { s.drop w.id with
      gate := s.gate.tryTake.2.drop w.id, handles := w.id :: s.handles })
  | .waiting =>
    if s.isCancelled w.caller.token then (some .cancelled, s.drop w.id)
    else (none, { s with trying := s.trying.filter (· ≠ w.id) })
  | answer => (some answer, s.drop w.id)

/-- What a release or closing under way does next. -/
def tell (s : Lobby) (place : Nat) : Lobby :=
  match s.calls[place]? with
  | none => s
  | some .everyone =>
    { s with gate := s.gate.wakeThreads, calls := s.calls.set place .futures }
  | some .futures =>
    { s with gate := s.gate.wakeFutures, calls := s.calls.eraseIdx place }

/-- One move; gives the answer with which an acquire ends in it. A move that cannot be made changes
nothing. -/
def step (s : Lobby) : Move → Option Gate.Answer × Lobby
  | .arrive id caller =>
    if id ∈ s.known then (none, s)
    else (none, { s with
      gate := s.gate.enroll id caller, known := id :: s.known, trying := id :: s.trying })
  | .tryTake id =>
    match s.waiter? id with
    | some w => if id ∈ s.trying then s.attempt w else (none, s)
    | none => (none, s)
  | .again id cancelFirst =>
    match s.waiter? id with
    | some w =>
      if id ∈ s.trying || !w.woken then (none, s)
      else if cancelFirst && s.isCancelled w.caller.token then (some .cancelled, s.drop id)
      else (none, { s with gate := s.gate.enroll id w.caller, trying := id :: s.trying })
    | none => (none, s)
  | .stir id => (none, { s with gate := s.gate.wake (·.id = id) })
  | .leave id =>
    match s.waiter? id with
    | some w => (none, if id ∈ s.trying || w.caller = .thread then s else s.drop id)
    | none => (none, s)
  | .unlock id =>
    if id ∈ s.handles then
      (none, { s with
        gate := s.gate.unlock, handles := s.handles.erase id, calls := s.calls ++ [.everyone] })
    else (none, s)
  | .shut => (none, { s with gate := s.gate.shut, calls := s.calls ++ [.everyone] })
  | .tell place => (none, s.tell place)
  | .cancel token =>
    (none, { s with gate := s.gate.wakeToken token, cancelled := token :: s.cancelled })

/-- Any moves, one after the other, and the answers given in them. -/
def run (s : Lobby) : List Move → List (Option Gate.Answer) × Lobby
  | [] => ([], s)
  | m :: rest =>
    let (answer, t) := s.step m
    let (answers, u) := t.run rest
    (answer :: answers, u)

/-! ## What every move keeps -/

/-- What is true of a lobby at any moment. -/
structure Sound (s : Lobby) : Prop where
  /-- The gate is held exactly when one handle is out, and there is never a second one. -/
  one : s.handles.length = if s.gate.held then 1 else 0
  unique : (s.gate.waiters.map (·.id)).Nodup
  waiting_known : ∀ w ∈ s.gate.waiters, w.id ∈ s.known
  /-- Who waits unmarked is not cancelled, and waits for a lease that is out at an open gate unless
  it is yet to be told. -/
  unwoken : ∀ w ∈ s.gate.waiters, w.id ∉ s.trying → w.woken = false →
    s.isCancelled w.caller.token = false ∧
      (s.gate.held = true ∧ s.gate.closed = false ∨ ∃ c ∈ s.calls, c.reaches w.caller)

variable {s : Lobby} {id : Nat} {w : Gate.Waiter}

theorem sound_new : new.Sound := by
  constructor <;> simp [new, Gate.new]

theorem mem_of_waiter? (h : s.waiter? id = some w) : w ∈ s.gate.waiters ∧ w.id = id := by
  have found := List.find?_some h
  exact ⟨List.mem_of_find?_eq_some h, by simpa using found⟩

theorem Sound.drop (h : s.Sound) (id : Nat) : (s.drop id).Sound where
  one := h.one
  unique := by
    show ((s.gate.drop id).waiters.map (·.id)).Nodup
    rw [Gate.ids_drop]
    exact h.unique.filter _
  waiting_known := fun w hw => h.waiting_known w (Gate.mem_drop.mp hw).1
  unwoken := by
    intro w hw ht hn
    obtain ⟨hw, hi⟩ := Gate.mem_drop.mp hw
    exact h.unwoken w hw (fun m => ht (List.mem_filter.mpr ⟨m, by simpa using hi⟩)) hn

/-- Who is put down is about to try: nothing is asked of it before that. -/
theorem Sound.enroll (h : s.Sound) (id : Nat) (caller : Gate.Caller) (known : List Nat)
    (more : ∀ i ∈ s.known, i ∈ known) (hid : id ∈ known) :
    ({ s with gate := s.gate.enroll id caller, known, trying := id :: s.trying } : Lobby).Sound where
  one := by simpa using h.one
  unique := by
    show ((s.gate.enroll id caller).waiters.map (·.id)).Nodup
    rw [Gate.ids_enroll]
    split
    · exact h.unique
    · next hn => exact List.nodup_append.mpr ⟨h.unique, by simp, by
        intro i hi j hj
        rw [List.mem_singleton.mp hj]
        exact fun e => hn (e ▸ hi)⟩
  waiting_known := by
    intro w hw
    rcases Gate.mem_enroll hw with e | hw
    · exact e ▸ hid
    · exact more _ (h.waiting_known w hw)
  unwoken := by
    intro w hw ht hn
    rcases Gate.mem_enroll hw with e | hw
    · exact absurd (e ▸ List.mem_cons_self) ht
    · have old := h.unwoken w hw (fun m => ht (List.mem_cons_of_mem _ m)) hn
      exact ⟨old.1, by simpa using old.2⟩

/-- Who waits after a try waits for a lease that is out, at an open gate, and is not cancelled. -/
theorem Sound.attempt (h : s.Sound) (hw : w ∈ s.gate.waiters) : (s.attempt w).2.Sound := by
  by_cases hc : s.gate.closed
  · simp only [Lobby.attempt, Gate.tryTake, hc, if_true]
    exact h.drop w.id
  by_cases hh : s.gate.held
  · simp only [Lobby.attempt, Gate.tryTake, hc, hh, if_true, if_false, Bool.false_eq_true]
    split
    · exact h.drop w.id
    · next hn =>
      refine ⟨h.one, h.unique, h.waiting_known, ?_⟩
      intro v hv ht hu
      by_cases hi : v.id = w.id
      · have same : v = w := List.inj_on_of_nodup_map h.unique hv hw hi
        subst same
        exact ⟨by simpa [isCancelled] using hn, .inl ⟨hh, by simpa using hc⟩⟩
      · exact h.unwoken v hv (fun m => ht (List.mem_filter.mpr ⟨m, by simpa using hi⟩)) hu
  · have free : s.handles = [] := by simpa [hh] using h.one
    have dropped := h.drop w.id
    simp only [Lobby.attempt, Gate.tryTake, hc, hh, if_false, Bool.false_eq_true]
    refine ⟨by simp [free, Gate.drop], dropped.unique, dropped.waiting_known, ?_⟩
    intro v hv ht hu
    obtain ⟨calm, reason⟩ := dropped.unwoken v hv ht hu
    exact ⟨calm, .inl ⟨rfl, rfl⟩⟩

theorem Sound.wake (h : s.Sound) (p : Gate.Waiter → Bool) (calls : List Call)
    (told : ∀ w ∈ s.gate.waiters, p w = false → ∀ c ∈ s.calls, c.reaches w.caller →
      ∃ d ∈ calls, d.reaches w.caller) :
    ({ s with gate := s.gate.wake p, calls } : Lobby).Sound where
  one := h.one
  unique := by
    show ((s.gate.wake p).waiters.map (·.id)).Nodup
    rw [Gate.ids_wake]
    exact h.unique
  waiting_known := by
    intro w hw
    obtain ⟨v, hv, rfl⟩ := Gate.mem_wake.mp hw
    have known := h.waiting_known v hv
    split <;> exact known
  unwoken := by
    intro w hw ht hn
    obtain ⟨hw, hp⟩ := Gate.unwoken_of_wake hw hn
    obtain ⟨calm, held | ⟨c, hc, reach⟩⟩ := h.unwoken w hw ht hn
    · exact ⟨calm, .inl held⟩
    · exact ⟨calm, .inr (told w hw hp c hc reach)⟩

theorem Sound.tell (h : s.Sound) (place : Nat) : (s.tell place).Sound := by
  unfold Lobby.tell
  split
  · exact h
  · next hp =>
    refine h.wake _ _ fun w _ hn c hc reach => ?_
    have future : w.caller ≠ .thread := by simpa using hn
    exact ⟨.futures, List.mem_set (List.getElem?_eq_some_iff.mp hp).1 _, future⟩
  · next hp =>
    refine h.wake _ _ fun w _ hn c hc reach => ?_
    have thread : w.caller = .thread := by simpa using hn
    have everyone : c = .everyone := by
      cases c with
      | everyone => rfl
      | futures => exact absurd thread reach
    obtain ⟨i, hi⟩ := List.mem_iff_getElem?.mp hc
    have other : i ≠ place := by
      rintro rfl
      rw [hp] at hi
      simp [everyone] at hi
    exact ⟨c, List.mem_eraseIdx_iff_getElem?.mpr ⟨i, other, hi⟩, reach⟩

/-- Changing the gate is safe as long as everyone is yet to be told. -/
theorem Sound.announce (h : s.Sound) (gate : Gate) (handles : List Nat)
    (same : gate.waiters = s.gate.waiters)
    (one : handles.length = if gate.held then 1 else 0) :
    ({ s with gate, handles, calls := s.calls ++ [.everyone] } : Lobby).Sound where
  one := one
  unique := by simpa [same] using h.unique
  waiting_known := by simpa [same] using h.waiting_known
  unwoken := by
    intro w hw ht hn
    have calm := (h.unwoken w (same ▸ hw) ht hn).1
    exact ⟨calm, .inr ⟨.everyone, by simp, trivial⟩⟩

theorem Sound.cancel (h : s.Sound) (token : Token) : (s.step (.cancel token)).2.Sound := by
  have marked := h.wake (fun w => w.caller.token = some token) s.calls
    fun w _ _ c hc reach => ⟨c, hc, reach⟩
  refine ⟨marked.one, marked.unique, marked.waiting_known, ?_⟩
  intro w hw ht hn
  obtain ⟨calm, reason⟩ := marked.unwoken w hw ht hn
  have other : w.caller.token ≠ some token := by
    simpa using (Gate.unwoken_of_wake hw hn).2
  refine ⟨?_, reason⟩
  cases ht : w.caller.token with
  | none => rfl
  | some t =>
    have ne : t ≠ token := fun e => other (e ▸ ht)
    simpa [step, isCancelled, ht, ne] using calm

theorem Sound.step (h : s.Sound) (m : Move) : (s.step m).2.Sound := by
  cases m with
  | arrive id caller =>
    simp only [Lobby.step]
    split
    · exact h
    · exact h.enroll id caller _ (fun i hi => List.mem_cons_of_mem _ hi) List.mem_cons_self
  | tryTake id =>
    simp only [Lobby.step]
    split
    · next w hw =>
      split
      · exact h.attempt (mem_of_waiter? hw).1
      · exact h
    · exact h
  | again id cancelFirst =>
    simp only [Lobby.step]
    split
    · next w hw =>
      split
      · exact h
      · split
        · exact h.drop id
        · obtain ⟨hm, rfl⟩ := mem_of_waiter? hw
          exact h.enroll w.id w.caller _ (fun _ hi => hi) (h.waiting_known w hm)
    · exact h
  | stir id => exact h.wake _ _ fun w _ _ c hc reach => ⟨c, hc, reach⟩
  | leave id =>
    simp only [Lobby.step]
    split
    · split
      · exact h
      · exact h.drop id
    · exact h
  | unlock id =>
    simp only [Lobby.step]
    split
    · next hi =>
      refine h.announce _ _ rfl ?_
      have one := h.one
      have some_out := List.length_pos_of_mem hi
      rw [List.length_erase_of_mem hi]
      split at one
      · simp [Gate.unlock, one]
      · omega
    · exact h
  | shut => exact h.announce _ _ rfl h.one
  | tell place => exact h.tell place
  | cancel token => exact h.cancel token

theorem Sound.run (h : s.Sound) (moves : List Move) : (s.run moves).2.Sound := by
  induction moves generalizing s with
  | nil => exact h
  | cons m rest ih => exact ih (h.step m)

/-! ## Who goes away leaves no trace -/

/-- The one who makes a move. -/
def Move.by? : Move → Option Nat
  | .arrive id _ | .tryTake id | .again id _ | .stir id | .leave id | .unlock id => some id
  | .shut | .tell _ | .cancel _ => none

/-- The lobby as if one of those who ask had never come. -/
def without (s : Lobby) (id : Nat) : Lobby :=
  { s.drop id with known := s.known.filter (· ≠ id) }

theorem waiter?_without {j : Nat} (h : j ≠ id) : (s.without id).waiter? j = s.waiter? j :=
  Gate.find_drop h

theorem drop_without {j : Nat} : (s.drop j).without id = (s.without id).drop j := by
  simp [without, drop, Gate.drop_drop (j := j), List.filter_filter, Bool.and_comm]

theorem attempt_without :
    (s.without id).attempt w = ((s.attempt w).1, (s.attempt w).2.without id) := by
  have took : (s.without id).gate.tryTake = (s.gate.tryTake.1, s.gate.tryTake.2.drop id) :=
    Gate.tryTake_drop
  unfold attempt
  rw [took]
  cases s.gate.tryTake.1 with
  | granted => simp [without, drop, Gate.drop_drop (j := w.id), List.filter_filter, Bool.and_comm]
  | waiting =>
    show (if s.isCancelled _ then _ else _) = _
    split
    · rw [drop_without]
    · simp [without, drop, List.filter_filter, Bool.and_comm]
  | exited => simp only [drop_without]
  | cancelled => simp only [drop_without]

theorem step_without (m : Move) (h : m.by? ≠ some id) :
    (s.without id).step m = ((s.step m).1, (s.step m).2.without id) := by
  cases m with
  | arrive j caller =>
    have hj : j ≠ id := fun e => h (e ▸ rfl)
    have same : j ∈ (s.without id).known ↔ j ∈ s.known := by simp [without, hj]
    simp only [Lobby.step, same]
    split
    · rfl
    · simp [without, drop, Gate.enroll_drop hj, hj]
  | tryTake j =>
    have hj : j ≠ id := fun e => h (e ▸ rfl)
    have same : j ∈ (s.without id).trying ↔ j ∈ s.trying := by simp [without, drop, hj]
    simp only [Lobby.step, waiter?_without hj, same]
    split
    · split
      · exact attempt_without
      · rfl
    · rfl
  | again j cancelFirst =>
    have hj : j ≠ id := fun e => h (e ▸ rfl)
    have same : j ∈ (s.without id).trying ↔ j ∈ s.trying := by simp [without, drop, hj]
    simp only [Lobby.step, waiter?_without hj, same]
    split
    · split
      · rfl
      · show (if cancelFirst && s.isCancelled _ then _ else _) = _
        split
        · simp only [drop_without]
        · simp [without, drop, Gate.enroll_drop hj, hj]
    · rfl
  | stir j => simp [Lobby.step, without, drop, Gate.wake_drop]
  | leave j =>
    have hj : j ≠ id := fun e => h (e ▸ rfl)
    have same : j ∈ (s.without id).trying ↔ j ∈ s.trying := by simp [without, drop, hj]
    simp only [Lobby.step, waiter?_without hj, same]
    split
    · split
      · rfl
      · simp only [drop_without]
    · rfl
  | unlock j =>
    have same : j ∈ (s.without id).handles ↔ j ∈ s.handles := Iff.rfl
    simp only [Lobby.step, same]
    split <;> rfl
  | shut => rfl
  | tell place =>
    have same : (s.without id).calls = s.calls := rfl
    simp only [Lobby.step, tell, same]
    cases s.calls[place]? with
    | none => rfl
    | some c =>
      cases c with
      | everyone => simp [without, drop, Gate.wakeThreads, Gate.wake_drop]
      | futures => simp [without, drop, Gate.wakeFutures, Gate.wake_drop]
  | cancel token => simp [Lobby.step, without, drop, Gate.wakeToken, Gate.wake_drop]

theorem run_without (moves : List Move) (h : ∀ m ∈ moves, m.by? ≠ some id) :
    (s.without id).run moves = ((s.run moves).1, (s.run moves).2.without id) := by
  induction moves generalizing s with
  | nil => rfl
  | cons m rest ih =>
    have first := step_without (s := s) m (h m List.mem_cons_self)
    have others := ih (s := (s.step m).2) fun n hn => h n (List.mem_cons_of_mem _ hn)
    simp only [run, first, others]

/-- The one with a number ends its acquire without a lease, or is dropped while it waits. -/
def Ends (s : Lobby) (id : Nat) (m : Move) : Prop :=
  m.by? = some id ∧ ((s.step m).1 = some .cancelled ∨ (s.step m).1 = some .exited
    ∨ m = .leave id ∧ ∃ w, s.waiter? id = some w ∧ w.caller ≠ .thread ∧ id ∉ s.trying)

theorem attempt_ended (h : (s.attempt w).1 = some .cancelled ∨ (s.attempt w).1 = some .exited) :
    (s.attempt w).2 = s.drop w.id := by
  unfold attempt at h ⊢
  cases ha : s.gate.tryTake.1 with
  | granted => simp [ha] at h
  | waiting =>
    simp only [ha] at h ⊢
    split
    · rfl
    · next hn => simp [hn] at h
  | exited => rfl
  | cancelled => rfl

/-- Whoever ends without a lease is forgotten, and that is all. -/
theorem Ends.step {m : Move} (h : s.Ends id m) : (s.step m).2 = s.drop id := by
  obtain ⟨hby, h⟩ := h
  cases m with
  | tryTake j =>
    cases hby
    simp only [Lobby.step] at h ⊢
    split at h
    · next w hw =>
      have hi := (mem_of_waiter? hw).2
      split at h
      · next ht =>
        rw [if_pos ht, attempt_ended (by simpa using h), hi]
      · simp at h
    · simp at h
  | again j cancelFirst =>
    cases hby
    simp only [Lobby.step] at h ⊢
    split at h
    · split at h
      · simp at h
      · next hn =>
        rw [if_neg hn]
        split at h
        · next hc => rw [if_pos hc]
        · simp at h
    · simp at h
  | leave j =>
    cases hby
    have away : ∃ w, s.waiter? id = some w ∧ w.caller ≠ .thread ∧ id ∉ s.trying := by
      rcases h with h | h | h
      · simp only [Lobby.step] at h
        split at h <;> simp at h
      · simp only [Lobby.step] at h
        split at h <;> simp at h
      · exact h.2
    obtain ⟨w, hw, hc, ht⟩ := away
    simp [Lobby.step, hw, hc, ht]
  | arrive j caller =>
    simp only [Lobby.step] at h
    split at h <;> simp at h
  | stir j => simp [Lobby.step] at h
  | unlock j =>
    simp only [Lobby.step] at h
    split at h <;> simp at h
  | shut => simp [Lobby.step] at h
  | tell place => simp [Lobby.step] at h
  | cancel token => simp [Lobby.step] at h

theorem drop_without_self : (s.drop id).without id = s.without id := by
  simp [without, drop, Gate.drop_self, List.filter_filter]

/-- Whoever ends without a lease makes no difference to what becomes of the others. -/
theorem Ends.run {m : Move} (h : s.Ends id m) (rest : List Move)
    (others : ∀ n ∈ rest, n.by? ≠ some id) :
    ((s.step m).2.run rest).1 = (s.run rest).1
      ∧ ((s.step m).2.run rest).2.without id = (s.run rest).2.without id := by
  have gone := run_without (s := (s.step m).2) rest others
  have here := run_without (s := s) rest others
  rw [h.step, drop_without_self, here] at gone
  rw [h.step]
  exact ⟨(congrArg Prod.fst gone).symm, (congrArg Prod.snd gone).symm⟩

/-! ## After the frame is torn down -/

theorem attempt_closed (h : s.gate.closed = true) :
    (s.attempt w).1 ≠ some .granted ∧ (s.attempt w).2.gate.closed = true := by
  simp [attempt, Gate.tryTake, h, drop]

theorem step_closed (h : s.gate.closed = true) (m : Move) :
    (s.step m).1 ≠ some .granted ∧ (s.step m).2.gate.closed = true := by
  cases m with
  | arrive id caller =>
    simp only [step]
    split <;> simp [h]
  | tryTake id =>
    simp only [step]
    split
    · split
      · exact attempt_closed h
      · simp [h]
    · simp [h]
  | again id cancelFirst =>
    simp only [step]
    split
    · split
      · simp [h]
      · split <;> simp [h, drop]
    · simp [h]
  | stir id => simp [step, h]
  | leave id =>
    simp only [step]
    split
    · split <;> simp [h, drop]
    · simp [h]
  | unlock id =>
    simp only [step]
    split <;> simp [h, Gate.unlock]
  | shut => simp [step, Gate.shut]
  | tell place =>
    simp only [step, tell]
    split <;> simp [h, Gate.wakeThreads, Gate.wakeFutures]
  | cancel token => simp [step, h, Gate.wakeToken]

theorem run_closed (h : s.gate.closed = true) (moves : List Move) :
    (∀ answer ∈ (s.run moves).1, answer ≠ some .granted) ∧ (s.run moves).2.gate.closed = true := by
  induction moves generalizing s with
  | nil => exact ⟨by simp [run], h⟩
  | cons m rest ih =>
    have first := step_closed h m
    have others := ih first.2
    refine ⟨fun answer ha => ?_, others.2⟩
    rcases List.mem_cons.mp ha with rfl | ha
    · exact first.1
    · exact others.1 answer ha

theorem Sound.unlock (h : s.Sound) (hid : id ∈ s.handles) :
    s.gate.held = true ∧ (s.step (.unlock id)).2.handles = []
      ∧ (s.step (.unlock id)).2.gate.held = false := by
  have one := h.one
  have out := List.length_pos_of_mem hid
  split at one
  · next held =>
    refine ⟨held, ?_, ?_⟩
    · simp only [Lobby.step, if_pos hid]
      exact List.length_eq_zero_iff.mp (by rw [List.length_erase_of_mem hid, one])
    · simp only [Lobby.step, if_pos hid]
      rfl
  · omega

theorem exists_waiter? (h : id ∈ s.gate.waiters.map (·.id)) : ∃ w, s.waiter? id = some w := by
  obtain ⟨w, hw, hi⟩ := List.mem_map.mp h
  exact Option.isSome_iff_exists.mp (List.find?_isSome.mpr ⟨w, hw, by simpa using hi⟩)

theorem mem_ids_enroll {g : Gate} {caller : Gate.Caller} :
    id ∈ (g.enroll id caller).waiters.map (·.id) := by
  rw [Gate.ids_enroll]
  split
  · assumption
  · simp

theorem Sound.waiter?_of_mem (h : s.Sound) (hw : w ∈ s.gate.waiters) :
    s.waiter? w.id = some w := by
  obtain ⟨v, hv⟩ := exists_waiter? (List.mem_map_of_mem hw)
  have found := mem_of_waiter? hv
  rw [hv, List.inj_on_of_nodup_map h.unique found.1 hw found.2]

/-- Whoever waits at an open gate whose lease is free, with nobody still to be told, has been marked
and gets the lease by looking again. -/
theorem Sound.admits (h : s.Sound) (free : s.gate.held = false) (opened : s.gate.closed = false)
    (told : s.calls = []) (hw : w ∈ s.gate.waiters) (ht : w.id ∉ s.trying)
    (calm : s.isCancelled w.caller.token = false) (cancelFirst : Bool) :
    (s.run [.again w.id cancelFirst, .tryTake w.id]).1 = [none, some .granted] := by
  have woken : w.woken = true := by
    by_contra hn
    have reason := (h.unwoken w hw ht (by simpa using hn)).2
    simp [free, told] at reason
  let t : Lobby := { s with gate := s.gate.enroll w.id w.caller, trying := w.id :: s.trying }
  have again : s.step (.again w.id cancelFirst) = (none, t) := by
    simp [Lobby.step, h.waiter?_of_mem hw, ht, woken, calm, t]
  obtain ⟨v, hv⟩ : ∃ v, t.waiter? w.id = some v := exists_waiter? mem_ids_enroll
  have took : (t.step (.tryTake w.id)).1 = some .granted := by
    simp [Lobby.step, hv, t, Lobby.attempt, Gate.tryTake, free, opened]
  simp [Lobby.run, again, took]

/-! ## The operations of a gate are moves in a lobby -/

/-- To look for the first time is to arrive and try at once. -/
theorem Sound.look_eq (h : s.Sound) (caller : Gate.Caller) (fresh : id ∉ s.known)
    (cancelFirst : Bool) :
    let moved := s.run [.arrive id caller, .tryTake id]
    let looked := s.gate.look id caller (s.isCancelled caller.token) cancelFirst
    moved.2.gate = looked.2
      ∧ moved.1 = [none, if looked.1 = .waiting then none else some looked.1] := by
  have absent : ∀ w ∈ s.gate.waiters, w.id ≠ id := fun w hw e =>
    fresh (e ▸ h.waiting_known w hw)
  have nobody : s.gate.waiters.any (·.id = id) = false := by simpa using absent
  let t : Lobby :=
    { s with gate := s.gate.enroll id caller, known := id :: s.known, trying := id :: s.trying }
  have arrived : s.step (.arrive id caller) = (none, t) := by simp [Lobby.step, fresh, t]
  have enrolled : t.gate.waiters = s.gate.waiters ++ [⟨id, caller, false⟩] := by
    simp [t, Gate.enroll, nobody]
  have missing : s.gate.waiters.find? (·.id = id) = none := by simpa using absent
  have here : t.waiter? id = some ⟨id, caller, false⟩ := by
    simp [waiter?, enrolled, List.find?_append, missing]
  have tried : t.step (.tryTake id) = t.attempt ⟨id, caller, false⟩ := by
    simp [Lobby.step, here, t]
  simp only [Lobby.run, arrived, tried, Gate.look, nobody, Bool.and_false, Bool.false_eq_true,
    if_false]
  have same_gate : s.gate.enroll id caller = t.gate := rfl
  have same_token : s.isCancelled caller.token = t.isCancelled caller.token := rfl
  rw [same_gate, same_token]
  by_cases hc : t.gate.closed
  · simp [Lobby.attempt, Gate.tryTake, hc, Lobby.drop]
  · by_cases hh : t.gate.held
    · by_cases hk : t.isCancelled caller.token
      · simp [Lobby.attempt, Gate.tryTake, hc, hh, Lobby.drop, hk]
      · simp [Lobby.attempt, Gate.tryTake, hc, hh, hk]
    · simp [Lobby.attempt, Gate.tryTake, hc, hh]

/-- To give a handle back is to unlock the gate and to tell both kinds of callers. -/
theorem Sound.release_eq (h : s.Sound) (hid : id ∈ s.handles) :
    (s.run [.unlock id, .tell s.calls.length, .tell s.calls.length]).2 =
      { s with gate := s.gate.release, handles := [] } := by
  obtain ⟨held, gone, -⟩ := h.unlock hid
  have none_left : s.handles.erase id = [] := by simpa [Lobby.step, hid] using gone
  simp [Lobby.run, Lobby.step, Lobby.tell, hid, none_left, Gate.release, held,
    List.eraseIdx_append_of_length_le]

/-- To close the gate is to shut it and to tell both kinds of callers. -/
theorem close_eq : (s.run [.shut, .tell s.calls.length, .tell s.calls.length]).2 =
    { s with gate := s.gate.close } := by
  simp [Lobby.run, Lobby.step, tell, Gate.close, List.eraseIdx_append_of_length_le]

/-- What a gate guarantees after any moves of any number of callers. The gate is held exactly when
one handle is out. Whoever is cancelled, turned away or dropped is forgotten and makes no difference
to the answers that the others get. After the gate is closed nobody is let in, and the handle that
is out can be given back. And nobody sleeps who could go on: whoever waits unmarked is not cancelled,
and the lease it waits for is out at an open gate, unless the release or closing that will mark it
is still under way. -/
theorem gate_guards (moves : List Move) :
    let s := (new.run moves).2
    (s.handles.length = if s.gate.held then 1 else 0)
    ∧ (∀ id m, s.Ends id m →
        (s.step m).2 = s.drop id
        ∧ ∀ rest, (∀ n ∈ rest, n.by? ≠ some id) →
          ((s.step m).2.run rest).1 = (s.run rest).1
          ∧ ((s.step m).2.run rest).2.without id = (s.run rest).2.without id)
    ∧ (s.gate.closed = true →
        (∀ rest, ∀ answer ∈ (s.run rest).1, answer ≠ some .granted)
        ∧ ∀ id ∈ s.handles, (s.step (.unlock id)).2.handles = []
          ∧ (s.step (.unlock id)).2.gate.held = false)
    ∧ ∀ w ∈ s.gate.waiters, w.id ∉ s.trying → w.woken = false →
        s.isCancelled w.caller.token = false
        ∧ (s.gate.held = true ∧ s.gate.closed = false ∨ ∃ c ∈ s.calls, c.reaches w.caller) := by
  intro s
  have sound : s.Sound := sound_new.run moves
  refine ⟨sound.one, ?_, ?_, sound.unwoken⟩
  · intro id m ended
    exact ⟨ended.step, ended.run⟩
  · intro closed
    refine ⟨fun rest => (run_closed closed rest).1, fun id hid => ?_⟩
    exact (sound.unlock hid).2

end Lobby

end SessionBroker
