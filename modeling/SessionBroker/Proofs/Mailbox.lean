import Mathlib.Data.List.Nodup
import SessionBroker.Frame.Mailbox

/-!
# Order in a mailbox

The line of a mailbox is the caller that has the turn and those who wait for it. `Tidy` says how the
line, the slot and the stages of the callers belong together; `Alert` says that every caller that
could go on has been marked. Every operation keeps both.
-/

namespace SessionBroker.Mailbox

variable {ρ α : Type} {m : Mailbox ρ α} {id i : Nat} {request : ρ} {c d : Caller ρ α}
  {f : Caller ρ α → Caller ρ α}

/-- Those who may still fill the slot, the next one first. -/
def line (m : Mailbox ρ α) : List Nat := m.turn.toList ++ m.queue

/-- How the parts of a mailbox belong together. -/
structure Tidy (m : Mailbox ρ α) : Prop where
  unique : (m.callers.map (·.id)).Nodup
  line_unique : m.line.Nodup
  line_known : ∀ i ∈ m.line, ∃ c ∈ m.callers, c.id = i
  waiting_iff : ∀ c ∈ m.callers, c.stage = .waiting ↔ c.id ∈ m.line
  posted_iff : ∀ c ∈ m.callers, c.stage = .posted ↔ m.slot = some (c.id, c.request)
  slot_request : ∀ c ∈ m.callers, ∀ q, m.slot = some (c.id, q) → q = c.request
  closed_over : m.closed = true → m.exit.isSome = true ∧ m.slot = none

/-- Nobody sleeps who could go on. -/
structure Alert (m : Mailbox ρ α) : Prop where
  turn_taken : m.turn = none → m.queue = []
  answered : ∀ c ∈ m.callers, ∀ a, c.stage = .answered a → c.woken = true
  past : m.isOver = true → ∀ c ∈ m.callers, c.stage = .waiting → c.woken = true
  turn : m.slot = none → ∀ c ∈ m.callers, m.turn = some c.id → c.woken = true

/-- Nobody has asked under a number. -/
def Fresh (m : Mailbox ρ α) (id : Nat) : Prop :=
  (∀ c ∈ m.callers, c.id ≠ id) ∧ ∀ q, m.slot ≠ some (id, q)

theorem tidy_new : (new : Mailbox ρ α).Tidy := by
  constructor <;> simp [new, line]

theorem alert_new : (new : Mailbox ρ α).Alert := by
  constructor <;> simp [new]

/-! ## Changes of one caller -/

theorem isOver_false (h : m.isOver = false) : m.exit = none ∧ m.closed = false := by
  simpa [isOver] using h

@[simp] theorem modify_slot : (m.modify id f).slot = m.slot := rfl
@[simp] theorem modify_exit : (m.modify id f).exit = m.exit := rfl
@[simp] theorem modify_closed : (m.modify id f).closed = m.closed := rfl
@[simp] theorem modify_line : (m.modify id f).line = m.line := rfl
@[simp] theorem modify_turn : (m.modify id f).turn = m.turn := rfl
@[simp] theorem modify_queue : (m.modify id f).queue = m.queue := rfl
@[simp] theorem modify_isOver : (m.modify id f).isOver = m.isOver := rfl

theorem mem_modify : c ∈ (m.modify id f).callers ↔
    ∃ d ∈ m.callers, (if d.id = id then f d else d) = c := by
  simp [modify]

theorem ids_modify (id : Nat) (f : Caller ρ α → Caller ρ α) (hf : ∀ c, (f c).id = c.id) :
    (m.modify id f).callers.map (·.id) = m.callers.map (·.id) := by
  simp only [modify, List.map_map]
  refine List.map_congr_left fun c _ => ?_
  simp only [Function.comp]
  split
  · exact hf c
  · rfl

/-- Order is a matter of the line, the slot, and the numbers and stages of the callers. -/
theorem Tidy.congr {n : Mailbox ρ α} (h : m.Tidy) (line : n.line = m.line)
    (slot : n.slot = m.slot) (closed : n.closed = m.closed) (exit : n.exit = m.exit)
    (ids : n.callers.map (·.id) = m.callers.map (·.id))
    (same : ∀ c ∈ n.callers, ∃ d ∈ m.callers,
      c.id = d.id ∧ c.request = d.request ∧ c.stage = d.stage) : n.Tidy where
  unique := by rw [ids]; exact h.unique
  line_unique := by rw [line]; exact h.line_unique
  line_known := by
    intro i hi
    obtain ⟨d, hd, rfl⟩ := h.line_known i (line ▸ hi)
    have known : d.id ∈ n.callers.map (·.id) := ids ▸ List.mem_map_of_mem hd
    obtain ⟨c, hc, e⟩ := List.mem_map.mp known
    exact ⟨c, hc, e⟩
  waiting_iff := by
    intro c hc
    obtain ⟨d, hd, e, -, s⟩ := same c hc
    rw [s, e, line]
    exact h.waiting_iff d hd
  posted_iff := by
    intro c hc
    obtain ⟨d, hd, e, r, s⟩ := same c hc
    rw [s, e, r, slot]
    exact h.posted_iff d hd
  slot_request := by
    intro c hc q hq
    obtain ⟨d, hd, e, r, -⟩ := same c hc
    rw [r]
    exact h.slot_request d hd q (by rw [← e, ← slot]; exact hq)
  closed_over := by
    rw [closed, exit, slot]
    exact h.closed_over

theorem Tidy.setWoken (h : m.Tidy) (id : Nat) (b : Bool) :
    (m.modify id ({ · with woken := b })).Tidy := by
  refine h.congr rfl rfl rfl rfl (ids_modify _ _ fun _ => rfl) fun c hc => ?_
  obtain ⟨d, hd, rfl⟩ := mem_modify.mp hc
  refine ⟨d, hd, ?_⟩
  split <;> exact ⟨rfl, rfl, rfl⟩

theorem Tidy.wakeWaiting (h : m.Tidy) : m.wakeWaiting.Tidy := by
  refine h.congr rfl rfl rfl rfl ?_ fun c hc => ?_
  · simp only [Mailbox.wakeWaiting, List.map_map]
    refine List.map_congr_left fun c _ => ?_
    simp only [Function.comp]
    split <;> rfl
  · obtain ⟨d, hd, rfl⟩ := List.mem_map.mp hc
    refine ⟨d, hd, ?_⟩
    split <;> exact ⟨rfl, rfl, rfl⟩

theorem Tidy.stage_eq (h : m.Tidy) (hc : c ∈ m.callers) (hd : d ∈ m.callers)
    (e : c.id = d.id) : c = d :=
  List.inj_on_of_nodup_map h.unique hc hd e

/-! ## The turn -/

theorem passTurn_cases (m : Mailbox ρ α) :
    m.queue = [] ∧ m.passTurn = { m with turn := none } ∨
    ∃ next rest, m.queue = next :: rest ∧
      m.passTurn = ({ m with turn := some next, queue := rest }).wake next := by
  unfold passTurn
  cases hq : m.queue with
  | nil => exact .inl ⟨rfl, rfl⟩
  | cons next rest => exact .inr ⟨next, rest, rfl, rfl⟩

@[simp] theorem passTurn_slot : m.passTurn.slot = m.slot := by
  unfold passTurn
  split <;> rfl

@[simp] theorem passTurn_exit : m.passTurn.exit = m.exit := by
  unfold passTurn
  split <;> rfl

@[simp] theorem passTurn_closed : m.passTurn.closed = m.closed := by
  unfold passTurn
  split <;> rfl

theorem passTurn_line : m.passTurn.line = m.queue := by
  rcases passTurn_cases m with ⟨hq, e⟩ | ⟨next, rest, hq, e⟩
  · simp [e, line, hq]
  · simp [e, line, hq, wake]

/-- The turn can be passed on once the one who had it is out of line. -/
theorem Tidy.passTurn (h : ({ m with turn := none } : Mailbox ρ α).Tidy) : m.passTurn.Tidy := by
  have line : m.passTurn.line = ({ m with turn := none } : Mailbox ρ α).line := passTurn_line
  rcases passTurn_cases m with ⟨hq, e⟩ | ⟨next, rest, hq, e⟩
  · rw [e]
    exact h
  · refine h.congr line passTurn_slot passTurn_closed passTurn_exit ?_ ?_
    · rw [e]
      exact ids_modify _ _ fun _ => rfl
    · rw [e]
      intro c hc
      obtain ⟨d, hd, rfl⟩ := mem_modify.mp hc
      refine ⟨d, hd, ?_⟩
      split <;> exact ⟨rfl, rfl, rfl⟩

/-! ## The operations -/

theorem Tidy.drop (h : m.Tidy) (id : Nat) : (m.drop id).Tidy := by
  have mem : ∀ c, c ∈ m.callers.filter (·.id ≠ id) ↔ c ∈ m.callers ∧ c.id ≠ id := by simp
  have ids : (m.callers.filter (·.id ≠ id)).map (·.id) = (m.callers.map (·.id)).filter (· ≠ id) := by
    simp [List.filter_map, Function.comp_def]
  -- All that matters is that the line has lost this caller and no other.
  have gone : ∀ n : Mailbox ρ α, n.callers = m.callers.filter (·.id ≠ id) →
      n.line = m.line.filter (· ≠ id) → n.slot = m.slot → n.closed = m.closed →
      n.exit = m.exit → n.Tidy := by
    intro n callers line slot closed exit
    refine ⟨?_, ?_, ?_, ?_, ?_, ?_, ?_⟩
    · rw [callers, ids]
      exact h.unique.filter _
    · rw [line]
      exact h.line_unique.filter _
    · intro i hi
      rw [line, List.mem_filter] at hi
      obtain ⟨c, hc, rfl⟩ := h.line_known i hi.1
      exact ⟨c, by rw [callers, mem]; exact ⟨hc, by simpa using hi.2⟩, rfl⟩
    · intro c hc
      rw [callers, mem] at hc
      rw [line, List.mem_filter, h.waiting_iff c hc.1]
      simp [hc.2]
    · intro c hc
      rw [callers, mem] at hc
      rw [slot]
      exact h.posted_iff c hc.1
    · intro c hc q hq
      rw [callers, mem] at hc
      exact h.slot_request c hc.1 q (slot ▸ hq)
    · rw [closed, exit, slot]
      exact h.closed_over
  have line_id : m.turn = some id → m.queue.filter (· ≠ id) = m.line.filter (· ≠ id) := by
    intro ht
    simp [line, ht]
  show (if m.turn = some id then _ else _ : Mailbox ρ α).Tidy
  split
  · next ht =>
    refine Tidy.passTurn (gone _ rfl ?_ rfl rfl rfl)
    simpa [line] using line_id ht
  · next ht =>
    refine gone _ rfl ?_ rfl rfl rfl
    have other : m.turn.toList.filter (· ≠ id) = m.turn.toList := by
      cases hm : m.turn with
      | none => rfl
      | some i => simpa [hm] using ht
    simp only [line, List.filter_append, other]

/-- Whoever has the turn and finds the slot empty leaves the line for the slot. -/
theorem Tidy.fill (h : m.Tidy) (hc : c ∈ m.callers) (turn : m.turn = some c.id)
    (notClosed : m.closed = false) : (m.fill c.id c.request).Tidy := by
  unfold Mailbox.fill
  cases hs : m.slot with
  | some p => exact h.setWoken c.id false
  | none =>
    have line : m.line = c.id :: m.queue := by simp [Mailbox.line, turn]
    have split_line := List.nodup_cons.mp (line ▸ h.line_unique)
    refine Tidy.passTurn ⟨?_, ?_, ?_, ?_, ?_, ?_, ?_⟩
    · have ids := ids_modify (m := { m with slot := some (c.id, c.request) }) c.id
        ({ · with stage := .posted, woken := false }) fun _ => rfl
      exact ids ▸ h.unique
    · simpa [Mailbox.line] using split_line.2
    · intro i hi
      have hi : i ∈ m.queue := by simpa [Mailbox.line] using hi
      obtain ⟨d, hd, rfl⟩ := h.line_known i (line ▸ List.mem_cons_of_mem _ hi)
      have other : d.id ≠ c.id := fun e => split_line.1 (e ▸ hi)
      exact ⟨d, mem_modify.mpr ⟨d, hd, if_neg other⟩, rfl⟩
    · intro b hb
      obtain ⟨d, hd, rfl⟩ := mem_modify.mp hb
      have old := h.waiting_iff d hd
      by_cases e : d.id = c.id
      · simp [e, Mailbox.line, split_line.1]
      · rw [line] at old
        simpa [e, Mailbox.line] using old
    · intro b hb
      obtain ⟨d, hd, rfl⟩ := mem_modify.mp hb
      by_cases e : d.id = c.id
      · simp [h.stage_eq hd hc e]
      · have old := h.posted_iff d hd
        simpa [e, hs, Ne.symm e] using old
    · intro b hb q hq
      obtain ⟨d, hd, rfl⟩ := mem_modify.mp hb
      by_cases e : d.id = c.id
      · have same := h.stage_eq hd hc e
        subst same
        simpa [eq_comm] using hq
      · simp [e, Ne.symm e] at hq
    · simp [notClosed]

theorem Tidy.join (h : m.Tidy) (fresh : m.Fresh id) (request : ρ) {n : Mailbox ρ α}
    (callers : n.callers = m.callers ++ [⟨id, request, .waiting, false⟩])
    (line : n.line.Perm (id :: m.line)) (slot : n.slot = m.slot) (closed : n.closed = m.closed)
    (exit : n.exit = m.exit) : n.Tidy := by
  have away : id ∉ m.line := fun hi =>
    let ⟨c, hc, e⟩ := h.line_known id hi
    fresh.1 c hc e
  have mem : ∀ c, c ∈ n.callers → c ∈ m.callers ∨ c = ⟨id, request, .waiting, false⟩ := by
    intro c hc
    simpa [callers] using hc
  refine ⟨?_, ?_, ?_, ?_, ?_, ?_, ?_⟩
  · rw [callers, List.map_append, List.nodup_append]
    refine ⟨h.unique, by simp, ?_⟩
    intro i hi j hj e
    obtain ⟨c, hc, rfl⟩ := List.mem_map.mp hi
    exact fresh.1 c hc (e.trans (by simpa using hj))
  · exact line.nodup_iff.mpr (List.nodup_cons.mpr ⟨away, h.line_unique⟩)
  · intro i hi
    rcases List.mem_cons.mp (line.mem_iff.mp hi) with rfl | hi
    · exact ⟨⟨i, request, .waiting, false⟩, by simp [callers], rfl⟩
    · obtain ⟨c, hc, e⟩ := h.line_known i hi
      exact ⟨c, by simp [callers, hc], e⟩
  · intro c hc
    rw [line.mem_iff, List.mem_cons]
    rcases mem c hc with hc | rfl
    · simp [h.waiting_iff c hc, fresh.1 c hc]
    · simp
  · intro c hc
    rw [slot]
    rcases mem c hc with hc | rfl
    · exact h.posted_iff c hc
    · simpa using fresh.2 request
  · intro c hc q hq
    rw [slot] at hq
    rcases mem c hc with hc | rfl
    · exact h.slot_request c hc q hq
    · exact absurd hq (fresh.2 q)
  · rw [closed, exit, slot]
    exact h.closed_over

/-- What becomes of a newcomer: it is turned away, gets the turn at once, or waits for it. -/
theorem ask_cases (m : Mailbox ρ α) (id : Nat) (request : ρ) :
    m.isOver = true ∧ m.ask id request = (some .refused, m) ∨
    m.isOver = false ∧ m.turn = none ∧ m.ask id request = (none,
      ({ m with callers := m.callers ++ [⟨id, request, .waiting, false⟩], turn := some id }
        : Mailbox ρ α).fill id request) ∨
    m.isOver = false ∧ (∃ t, m.turn = some t) ∧ m.ask id request = (none,
      { m with
        callers := m.callers ++ [⟨id, request, .waiting, false⟩], queue := m.queue ++ [id] }) := by
  unfold Mailbox.ask
  by_cases past : m.isOver
  · simp [past]
  · cases ht : m.turn with
    | none => simp [past]
    | some t => simp [past]

theorem Tidy.ask (h : m.Tidy) (fresh : m.Fresh id) (request : ρ) : (m.ask id request).2.Tidy := by
  obtain ⟨-, e⟩ | ⟨past, ht, e⟩ | ⟨past, -, e⟩ := ask_cases m id request
  · rw [e]
    exact h
  · rw [e]
    have joined := h.join fresh request
      (n := { m with callers := m.callers ++ [⟨id, request, .waiting, false⟩], turn := some id })
      rfl (by simp [line, ht]) rfl rfl rfl
    exact joined.fill (c := ⟨id, request, .waiting, false⟩) (by simp) rfl (isOver_false past).2
  · rw [e]
    refine h.join fresh request rfl ?_ rfl rfl rfl
    simp only [line, ← List.append_assoc]
    exact List.perm_append_singleton id _

theorem Tidy.look (h : m.Tidy) (id : Nat) : (m.look id).2.Tidy := by
  unfold Mailbox.look
  split
  · exact h
  · next c hc =>
    have found : c ∈ m.callers ∧ c.id = id := ⟨List.mem_of_find?_eq_some hc, by
      simpa using List.find?_some hc⟩
    split
    · exact h.drop id
    · split
      · exact h.drop id
      · next past =>
        split
        · next turn =>
          obtain ⟨hm, rfl⟩ := found
          exact h.fill hm turn (isOver_false (by simpa using past)).2
        · exact h.setWoken id false
    · exact h.setWoken id false

theorem Tidy.setStage (h : m.Tidy) (id : Nat) (slot : Option (Nat × ρ)) (stage : Stage α) (woken : Bool → Bool)
    (waiting : stage ≠ .waiting) (posted : stage ≠ .posted) (away : id ∉ m.line)
    (same : ∀ i q, i ≠ id → (slot = some (i, q) ↔ m.slot = some (i, q)))
    (empty : ∀ q, slot ≠ some (id, q) ∨ ∀ c ∈ m.callers, c.id ≠ id)
    (closed_over : m.closed = true → m.exit.isSome = true ∧ slot = none) :
    ({ m with slot }.modify id fun c => { c with stage, woken := woken c.woken }).Tidy where
  unique := by
    have ids := ids_modify (m := { m with slot }) id
      (fun c => { c with stage, woken := woken c.woken }) fun _ => rfl
    exact ids ▸ h.unique
  line_unique := h.line_unique
  line_known := by
    intro i hi
    obtain ⟨d, hd, rfl⟩ := h.line_known i hi
    have other : d.id ≠ id := fun e => away (e ▸ hi)
    exact ⟨d, mem_modify.mpr ⟨d, hd, if_neg other⟩, rfl⟩
  waiting_iff := by
    intro c hc
    obtain ⟨d, hd, rfl⟩ := mem_modify.mp hc
    split
    · next e => exact ⟨fun w => absurd w waiting, fun hi => absurd hi (e ▸ away)⟩
    · exact h.waiting_iff d hd
  posted_iff := by
    intro c hc
    obtain ⟨d, hd, rfl⟩ := mem_modify.mp hc
    split
    · next e =>
      refine ⟨fun w => absurd w posted, fun hs => ?_⟩
      rcases empty d.request with ne | absent
      · exact absurd (e ▸ hs) ne
      · exact absurd e (absent d hd)
    · next e =>
      rw [h.posted_iff d hd]
      exact (same d.id d.request e).symm
  slot_request := by
    intro c hc q hq
    obtain ⟨d, hd, rfl⟩ := mem_modify.mp hc
    by_cases e : d.id = id
    · rcases empty q with ne | absent
      · simp only [e, if_true] at hq
        exact absurd hq ne
      · exact absurd e (absent d hd)
    · simp only [e, if_false] at hq ⊢
      exact h.slot_request d hd q ((same d.id q e).mp hq)
  closed_over := closed_over

theorem Tidy.slot_away (h : m.Tidy) (hs : m.slot = some (id, request)) : id ∉ m.line := by
  intro hi
  obtain ⟨c, hc, rfl⟩ := h.line_known id hi
  have waiting := (h.waiting_iff c hc).mpr hi
  have same := h.slot_request c hc request hs
  have posted := (h.posted_iff c hc).mpr (same ▸ hs)
  rw [waiting] at posted
  cases posted

theorem Tidy.handOver (h : m.Tidy) (hs : m.slot = some (id, request)) (notClosed : m.closed = false) :
    (m.handOver id).Tidy := by
  have handed := h.setStage id none .handedOver (·) (by simp) (by simp)
    (h.slot_away hs) (by simp [hs, eq_comm]) (by simp) (by simp [notClosed])
  unfold Mailbox.handOver
  split
  · exact handed.setWoken _ true
  · exact handed

/-- What the serving thread finds: the exit, once it is set or the mailbox is disposed, and else the
request in the slot. -/
theorem take_cases {next : Next ρ} {n : Mailbox ρ α} (ht : m.take? = some (next, n)) :
    (∃ action, m.exit = some action ∧ next = .exit action ∧ n = m) ∨
    (m.exit = none ∧ m.closed = true ∧ next = .exit .continue ∧ n = m) ∨
    ∃ i q, m.isOver = false ∧ m.slot = some (i, q) ∧ next = .request i q ∧ n = m.handOver i := by
  unfold take? at ht
  cases he : m.exit with
  | some action =>
    simp only [he, Option.some.injEq, Prod.mk.injEq] at ht
    exact .inl ⟨action, rfl, ht.1.symm, ht.2.symm⟩
  | none =>
    by_cases hc : m.closed
    · simp only [he, hc, if_true, Option.some.injEq, Prod.mk.injEq] at ht
      exact .inr (.inl ⟨rfl, hc, ht.1.symm, ht.2.symm⟩)
    · cases hs : m.slot with
      | none => simp [he, hc, hs] at ht
      | some p =>
        simp only [he, hc, hs, if_false, Bool.false_eq_true, Option.some.injEq,
          Prod.mk.injEq] at ht
        exact .inr (.inr ⟨p.1, p.2, by simp [isOver, he, hc], rfl, ht.1.symm, ht.2.symm⟩)

theorem Tidy.take (h : m.Tidy) {next : Next ρ} {n : Mailbox ρ α} (ht : m.take? = some (next, n)) :
    n.Tidy := by
  obtain ⟨_, -, -, rfl⟩ | ⟨-, -, -, rfl⟩ | ⟨i, q, past, hs, -, rfl⟩ := take_cases ht
  · exact h
  · exact h
  · exact h.handOver hs (isOver_false past).2

theorem Tidy.answer (h : m.Tidy) (a : Answer α)
    (served : ∀ c ∈ m.callers, c.id = id → c.stage ≠ .waiting ∧ c.stage ≠ .posted) :
    (m.answer id a).Tidy := by
  have away : id ∉ m.line := fun hi =>
    let ⟨c, hc, e⟩ := h.line_known id hi
    (served c hc e).1 ((h.waiting_iff c hc).mpr (e ▸ hi))
  refine h.setStage id m.slot (.answered a) (fun _ => true) (by simp) (by simp) away
    (fun _ _ _ => Iff.rfl) ?_ h.closed_over
  intro q
  by_cases hs : m.slot = some (id, q)
  · refine .inr fun c hc e => (served c hc e).2 ((h.posted_iff c hc).mpr ?_)
    have same := h.slot_request c hc q (e ▸ hs)
    rw [e, ← same, hs]
  · exact .inl hs

theorem Tidy.tryExit (h : m.Tidy) (action : ResumeAction) : (m.tryExit action).2.Tidy := by
  unfold Mailbox.tryExit
  split
  · exact h
  · next past =>
    have notClosed := (isOver_false (by simpa using past)).2
    have marked : ({ m with exit := some action } : Mailbox ρ α).Tidy :=
      ⟨h.unique, h.line_unique, h.line_known, h.waiting_iff, h.posted_iff, h.slot_request,
        by simp [notClosed]⟩
    exact marked.wakeWaiting

theorem Tidy.attach (h : m.Tidy) (server : Nat) : (m.attach server).Tidy :=
  ⟨h.unique, h.line_unique, h.line_known, h.waiting_iff, h.posted_iff, h.slot_request, h.closed_over⟩

theorem Tidy.dispose (h : m.Tidy) : m.dispose.Tidy := by
  unfold Mailbox.dispose
  split
  · exact h
  · next notClosed =>
    split
    · next i q hs =>
      have refused := h.setStage i none (.answered .refused) (fun _ => true) (by simp) (by simp)
        (h.slot_away hs) (by simp [hs, eq_comm]) (by simp) (by simp [notClosed])
      have closed : ({ m with
          slot := none, closed := true, exit := some (m.exit.getD .continue), finished := true
          }.answer i .refused : Mailbox ρ α).Tidy :=
        ⟨refused.unique, refused.line_unique, refused.line_known, refused.waiting_iff,
          refused.posted_iff, refused.slot_request, fun _ => ⟨rfl, rfl⟩⟩
      exact closed.wakeWaiting
    · next hs =>
      have closed : ({ m with
          closed := true, exit := some (m.exit.getD .continue), finished := true }
          : Mailbox ρ α).Tidy :=
        ⟨h.unique, h.line_unique, h.line_known, h.waiting_iff, h.posted_iff, h.slot_request,
          fun _ => ⟨rfl, hs⟩⟩
      exact closed.wakeWaiting

/-! ## Nobody sleeps who could go on -/

theorem alert_passTurn
    (answered : ∀ c ∈ m.callers, ∀ a, c.stage = .answered a → c.woken = true)
    (past : m.isOver = true → ∀ c ∈ m.callers, c.stage = .waiting → c.woken = true) :
    m.passTurn.Alert := by
  rcases passTurn_cases m with ⟨hq, e⟩ | ⟨next, rest, hq, e⟩
  · rw [e]
    exact ⟨fun _ => hq, answered, past, by simp⟩
  · rw [e]
    refine ⟨by simp [wake], ?_, ?_, ?_⟩
    · intro c hc a ha
      obtain ⟨d, hd, rfl⟩ := mem_modify.mp hc
      split at ha
      · next hn => simp [hn]
      · next hn => simpa [hn] using answered d hd a ha
    · intro ho c hc hw
      obtain ⟨d, hd, rfl⟩ := mem_modify.mp hc
      split at hw
      · next hn => simp [hn]
      · next hn => simpa [hn] using past ho d hd hw
    · intro _ c hc ht
      obtain ⟨d, hd, rfl⟩ := mem_modify.mp hc
      by_cases hn : d.id = next
      · simp [hn]
      · have same : next = d.id := by simpa [wake, hn] using ht
        exact absurd same.symm hn

theorem Alert.mark (h : m.Alert) (id : Nat) (woken : ∀ c, (f c).woken = true) :
    (m.modify id f).Alert where
  turn_taken := h.turn_taken
  answered := by
    intro c hc a ha
    obtain ⟨d, hd, rfl⟩ := mem_modify.mp hc
    split
    · exact woken d
    · next e => exact h.answered d hd a (by simpa [e] using ha)
  past := by
    intro ho c hc hw
    obtain ⟨d, hd, rfl⟩ := mem_modify.mp hc
    split
    · exact woken d
    · next e => exact h.past ho d hd (by simpa [e] using hw)
  turn := by
    intro hs c hc ht
    obtain ⟨d, hd, rfl⟩ := mem_modify.mp hc
    split
    · exact woken d
    · next e => exact h.turn hs d hd (by simpa [e] using ht)

/-- A caller may sleep that has no answer yet and cannot fill the slot. -/
theorem Alert.sleep (h : m.Alert) (id : Nat)
    (pending : ∀ c ∈ m.callers, c.id = id → ∀ a, c.stage ≠ .answered a)
    (blocked : ∀ c ∈ m.callers, c.id = id → c.stage = .waiting → m.isOver = false)
    (full : m.turn = some id → m.slot ≠ none) :
    (m.modify id ({ · with woken := false })).Alert where
  turn_taken := h.turn_taken
  answered := by
    intro c hc a ha
    obtain ⟨d, hd, rfl⟩ := mem_modify.mp hc
    by_cases e : d.id = id
    · exact absurd (by simpa [e] using ha) (pending d hd e a)
    · simp only [e, if_false] at ha ⊢
      exact h.answered d hd a ha
  past := by
    intro ho c hc hw
    obtain ⟨d, hd, rfl⟩ := mem_modify.mp hc
    by_cases e : d.id = id
    · have open_ := blocked d hd e (by simpa [e] using hw)
      rw [modify_isOver, open_] at ho
      cases ho
    · simp only [e, if_false] at hw ⊢
      exact h.past ho d hd hw
  turn := by
    intro hs c hc ht
    obtain ⟨d, hd, rfl⟩ := mem_modify.mp hc
    by_cases e : d.id = id
    · simp only [e, if_true] at ht
      exact absurd hs (full ht)
    · simp only [e, if_false] at ht ⊢
      exact h.turn hs d hd ht

theorem Alert.drop (h : m.Alert) (id : Nat) : (m.drop id).Alert := by
  have mem : ∀ c, c ∈ m.callers.filter (·.id ≠ id) → c ∈ m.callers := fun c hc =>
    (List.mem_filter.mp hc).1
  show (if m.turn = some id then _ else _ : Mailbox ρ α).Alert
  split
  · exact alert_passTurn (fun c hc => h.answered c (mem c hc)) fun ho c hc => h.past ho c (mem c hc)
  · refine ⟨fun ht => ?_, fun c hc => h.answered c (mem c hc), fun ho c hc => h.past ho c (mem c hc),
      fun hs c hc => h.turn hs c (mem c hc)⟩
    simp [h.turn_taken ht]

theorem alert_fill (ht : m.Tidy) (hc : c ∈ m.callers) (turn : m.turn = some c.id)
    (past : m.isOver = false)
    (answered : ∀ d ∈ m.callers, ∀ a, d.stage = .answered a → d.woken = true) :
    (m.fill c.id c.request).Alert := by
  have waiting : c.stage = .waiting := (ht.waiting_iff c hc).mpr (by simp [line, turn])
  unfold Mailbox.fill
  split
  · next p hs =>
    refine ⟨by simp [turn], ?_, by simp [past], by simp [hs]⟩
    intro b hb a ha
    obtain ⟨d, hd, rfl⟩ := mem_modify.mp hb
    by_cases e : d.id = c.id
    · rw [ht.stage_eq hd hc e] at ha
      simp [waiting] at ha
    · simp only [e, if_false] at ha ⊢
      exact answered d hd a ha
  · next hs =>
    refine alert_passTurn ?_ ?_
    · intro b hb a ha
      obtain ⟨d, hd, rfl⟩ := mem_modify.mp hb
      by_cases e : d.id = c.id
      · simp [e] at ha
      · simp only [e, if_false] at ha ⊢
        exact answered d hd a ha
    · intro ho
      simp only [isOver, modify_exit, modify_closed] at ho past
      simp [ho] at past

theorem Alert.ask (h : m.Alert) (ht : m.Tidy) (fresh : m.Fresh id) (request : ρ) :
    (m.ask id request).2.Alert := by
  obtain ⟨-, e⟩ | ⟨past, turn, e⟩ | ⟨past, ⟨t, turn⟩, e⟩ := ask_cases m id request
  · rw [e]
    exact h
  · rw [e]
    have joined := ht.join fresh request
      (n := { m with callers := m.callers ++ [⟨id, request, .waiting, false⟩], turn := some id })
      rfl (by simp [line, turn]) rfl rfl rfl
    refine alert_fill joined (c := ⟨id, request, .waiting, false⟩) (by simp) rfl past ?_
    intro d hd a ha
    rcases List.mem_append.mp hd with hd | hd
    · exact h.answered d hd a ha
    · simp [List.mem_singleton.mp hd] at ha
  · rw [e]
    have there : t ≠ id := by
      rintro rfl
      obtain ⟨c, hc, e⟩ := ht.line_known t (by simp [line, turn])
      exact fresh.1 c hc e
    refine ⟨by simp [turn], ?_, ?_, ?_⟩
    · intro c hc a ha
      rcases List.mem_append.mp hc with hc | hc
      · exact h.answered c hc a ha
      · simp [List.mem_singleton.mp hc] at ha
    · exact fun ho => absurd (show m.isOver = true from ho) (by simp [past])
    · intro hs c hc htc
      rcases List.mem_append.mp hc with hc | hc
      · exact h.turn hs c hc htc
      · rw [List.mem_singleton.mp hc] at htc
        exact absurd (Option.some.inj (turn.symm.trans htc)) there

theorem Alert.look (h : m.Alert) (ht : m.Tidy) (id : Nat) : (m.look id).2.Alert := by
  unfold Mailbox.look
  split
  · exact h
  · next c hc =>
    have hm := List.mem_of_find?_eq_some hc
    have hi : c.id = id := by simpa using List.find?_some hc
    subst hi
    have only : ∀ d ∈ m.callers, d.id = c.id → d = c := fun d hd e => ht.stage_eq hd hm e
    split
    · exact h.drop c.id
    · next waiting =>
      split
      · exact h.drop c.id
      · next past =>
        split
        · next turn => exact alert_fill ht hm turn (by simpa using past) h.answered
        · next other =>
          refine h.sleep c.id ?_ (fun _ _ _ _ => by simpa using past) (fun turn => absurd turn other)
          intro d hd e a ha
          rw [only d hd e, waiting] at ha
          cases ha
    · next unanswered notWaiting =>
      refine h.sleep c.id ?_ ?_ ?_
      · intro d hd e a ha
        exact unanswered a (only d hd e ▸ ha)
      · intro d hd e waiting
        exact absurd (only d hd e ▸ waiting) notWaiting
      · intro turn
        exact absurd ((ht.waiting_iff c hm).mpr (by simp [line, turn])) notWaiting

theorem Alert.handOver (h : m.Alert) (past : m.isOver = false) : (m.handOver id).Alert := by
  have answered : ∀ c ∈ ({ m with slot := none }.modify id ({ · with stage := .handedOver })
      : Mailbox ρ α).callers, ∀ a, c.stage = .answered a → c.woken = true := by
    intro c hc a ha
    obtain ⟨d, hd, rfl⟩ := mem_modify.mp hc
    by_cases e : d.id = id
    · simp [e] at ha
    · simp only [e, if_false] at ha ⊢
      exact h.answered d hd a ha
  unfold Mailbox.handOver
  split
  · next t turn =>
    refine ⟨by simp [Mailbox.wake, turn], ?_, ?_, ?_⟩
    · intro c hc a ha
      obtain ⟨d, hd, rfl⟩ := mem_modify.mp hc
      split
      · rfl
      · next e => exact answered d hd a (by simpa [e] using ha)
    · exact fun ho => absurd (show m.isOver = true from ho) (by simp [past])
    · intro _ c hc ht
      obtain ⟨d, hd, rfl⟩ := mem_modify.mp hc
      by_cases e : d.id = t
      · simp [e]
      · have same : t = d.id := by simpa [Mailbox.wake, turn, e] using ht
        exact absurd same.symm e
  · next turn =>
    refine ⟨fun _ => h.turn_taken turn, answered, ?_, by simp [turn]⟩
    exact fun ho => absurd (show m.isOver = true from ho) (by simp [past])

theorem Alert.answer (h : m.Alert) (id : Nat) (a : Answer α) : (m.answer id a).Alert :=
  h.mark id fun _ => rfl

/-- Once everyone who waits is marked, the mailbox may be over. -/
theorem alert_wakeWaiting (turn_taken : m.turn = none → m.queue = [])
    (answered : ∀ c ∈ m.callers, ∀ a, c.stage = .answered a → c.woken = true)
    (inLine : ∀ c ∈ m.callers, m.turn = some c.id → c.stage = .waiting) :
    m.wakeWaiting.Alert := by
  have mem : ∀ c ∈ m.wakeWaiting.callers, ∃ d ∈ m.callers, c.id = d.id ∧ c.stage = d.stage
      ∧ (c.woken = d.woken ∨ c.woken = true) ∧ (c.stage = .waiting → c.woken = true) := by
    intro c hc
    obtain ⟨d, hd, rfl⟩ := List.mem_map.mp hc
    refine ⟨d, hd, ?_⟩
    cases hs : d.stage <;> simp [hs]
  refine ⟨turn_taken, ?_, ?_, ?_⟩
  · intro c hc a ha
    obtain ⟨d, hd, -, stage, same | woken, -⟩ := mem c hc
    · rw [same]
      exact answered d hd a (stage ▸ ha)
    · exact woken
  · intro _ c hc hw
    obtain ⟨_, _, -, -, -, woken⟩ := mem c hc
    exact woken hw
  · intro _ c hc ht
    obtain ⟨d, hd, id, stage, -, woken⟩ := mem c hc
    exact woken (stage.trans (inLine d hd (id ▸ ht)))

theorem Alert.tryExit (h : m.Alert) (ht : m.Tidy) (action : ResumeAction) :
    (m.tryExit action).2.Alert := by
  unfold Mailbox.tryExit
  split
  · exact h
  · refine alert_wakeWaiting h.turn_taken h.answered fun c hc turn => ?_
    have turn : m.turn = some c.id := turn
    exact (ht.waiting_iff c hc).mpr (by simp [line, turn])

theorem Alert.attach (h : m.Alert) (server : Nat) : (m.attach server).Alert :=
  ⟨h.turn_taken, h.answered, h.past, h.turn⟩

theorem Alert.dispose (h : m.Alert) (ht : m.Tidy) : m.dispose.Alert := by
  unfold Mailbox.dispose
  split
  · exact h
  · split
    · next i q hs =>
      refine alert_wakeWaiting h.turn_taken (fun c hc b hb => ?_) (fun c hc turn => ?_)
      · obtain ⟨d, hd, rfl⟩ := mem_modify.mp hc
        split
        · rfl
        · next e => exact h.answered d hd b (by simpa [e] using hb)
      · obtain ⟨d, hd, rfl⟩ := mem_modify.mp hc
        by_cases e : d.id = i
        · have turn : m.turn = some d.id := by simpa [Mailbox.answer, e] using turn
          exact absurd (by simp [line, turn, e]) (ht.slot_away hs)
        · have turn : m.turn = some d.id := by simpa [Mailbox.answer, e] using turn
          simpa [e] using (ht.waiting_iff d hd).mpr (by simp [line, turn])
    · refine alert_wakeWaiting h.turn_taken h.answered fun c hc turn => ?_
      have turn : m.turn = some c.id := turn
      exact (ht.waiting_iff c hc).mpr (by simp [line, turn])

end SessionBroker.Mailbox
