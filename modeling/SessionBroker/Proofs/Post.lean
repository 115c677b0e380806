import SessionBroker.Proofs.Mailbox

/-!
# Everything that goes through a mailbox

A post is a mailbox together with notes of all that ever went through it: who asked, whose request
was put into the slot, what was handed over and what was refused, and which exits were set. Callers
may look or leave at any moment, marked or not; the serving thread takes what is next and answers
what it took at any later time, in any order, or never; and anybody may set the exit or dispose the
mailbox.
-/

namespace SessionBroker

namespace Mailbox

variable {ρ α : Type} {m n : Mailbox ρ α} {id : Nat} {request : ρ} {c : Caller ρ α}

/-- What a caller's own steps do to a mailbox: some leave, and perhaps the first in line moves into
the slot. -/
structure Shift (m n : Mailbox ρ α) : Prop where
  exit : n.exit = m.exit
  closed : n.closed = m.closed
  callers : ∀ c ∈ n.callers, ∃ d ∈ m.callers, c.id = d.id ∧ c.request = d.request ∧
    (c.stage = d.stage ∨ d.stage = .waiting ∧ c.stage = .posted)
  slot : n.slot = m.slot ∧ n.line.Sublist m.line ∨
    m.isOver = false ∧ m.slot = none ∧
      ∃ c ∈ m.callers, n.slot = some (c.id, c.request) ∧ m.line = c.id :: n.line

theorem Shift.refl (m : Mailbox ρ α) : Shift m m :=
  ⟨rfl, rfl, fun c hc => ⟨c, hc, rfl, rfl, .inl rfl⟩, .inl ⟨rfl, List.Sublist.refl _⟩⟩

theorem shift_sleep (m : Mailbox ρ α) (id : Nat) : Shift m (m.modify id ({ · with woken := false })) := by
  refine ⟨rfl, rfl, fun c hc => ?_, .inl ⟨rfl, List.Sublist.refl _⟩⟩
  obtain ⟨d, hd, rfl⟩ := mem_modify.mp hc
  refine ⟨d, hd, ?_⟩
  split <;> exact ⟨rfl, rfl, .inl rfl⟩

theorem mem_passTurn (hc : c ∈ m.passTurn.callers) :
    ∃ d ∈ m.callers, c.id = d.id ∧ c.request = d.request ∧ c.stage = d.stage := by
  rcases passTurn_cases m with ⟨-, e⟩ | ⟨next, rest, -, e⟩
  · rw [e] at hc
    exact ⟨c, hc, rfl, rfl, rfl⟩
  · rw [e] at hc
    obtain ⟨d, hd, rfl⟩ := mem_modify.mp hc
    refine ⟨d, hd, ?_⟩
    split <;> exact ⟨rfl, rfl, rfl⟩

theorem shift_drop (m : Mailbox ρ α) (id : Nat) : Shift m (m.drop id) := by
  show Shift m (if m.turn = some id then _ else _)
  split
  · next turn =>
    refine ⟨passTurn_exit, passTurn_closed, fun c hc => ?_, .inl ⟨passTurn_slot, ?_⟩⟩
    · obtain ⟨d, hd, i, r, s⟩ := mem_passTurn hc
      exact ⟨d, (List.mem_filter.mp hd).1, i, r, .inl s⟩
    · rw [passTurn_line]
      exact List.filter_sublist.trans (List.sublist_append_right _ _)
  · refine ⟨rfl, rfl, fun c hc => ⟨c, (List.mem_filter.mp hc).1, rfl, rfl, .inl rfl⟩, .inl ⟨rfl, ?_⟩⟩
    exact List.Sublist.append_left List.filter_sublist _

theorem shift_fill (ht : m.Tidy) (hc : c ∈ m.callers) (turn : m.turn = some c.id)
    (past : m.isOver = false) : Shift m (m.fill c.id c.request) := by
  unfold fill
  split
  · exact shift_sleep m c.id
  · next hs =>
    refine ⟨passTurn_exit, passTurn_closed, fun b hb => ?_, .inr ⟨past, hs, c, hc, passTurn_slot, ?_⟩⟩
    · obtain ⟨a, ha, i, r, s⟩ := mem_passTurn hb
      obtain ⟨d, hd, rfl⟩ := mem_modify.mp ha
      refine ⟨d, hd, ?_⟩
      by_cases e : d.id = c.id
      · simp only [e, if_true] at i r s ⊢
        have waiting := (ht.waiting_iff d hd).mpr (by simp [line, turn, e])
        exact ⟨i, r, .inr ⟨waiting, s⟩⟩
      · simp only [e, if_false] at i r s
        exact ⟨i, r, .inl s⟩
    · rw [passTurn_line]
      simp [line, turn]

theorem shift_look (ht : m.Tidy) (id : Nat) : Shift m (m.look id).2 := by
  unfold look
  split
  · exact .refl m
  · next c hc =>
    have hm := List.mem_of_find?_eq_some hc
    have hi : c.id = id := by simpa using List.find?_some hc
    subst hi
    split
    · exact shift_drop m c.id
    · split
      · exact shift_drop m c.id
      · next past =>
        split
        · next turn => exact shift_fill ht hm turn (by simpa using past)
        · exact shift_sleep m c.id
    · exact shift_sleep m c.id

/-- A newcomer that is not turned away joins the line at its end; then it may move on. -/
theorem shift_ask (ht : m.Tidy) (ha : m.Alert) (fresh : m.Fresh id) (request : ρ)
    (past : m.isOver = false) :
    ∃ n : Mailbox ρ α, n.callers = m.callers ++ [⟨id, request, .waiting, false⟩]
      ∧ n.line = m.line ++ [id] ∧ n.slot = m.slot ∧ n.exit = m.exit ∧ n.closed = m.closed
      ∧ Shift n (m.ask id request).2 := by
  obtain ⟨o, -⟩ | ⟨-, turn, e⟩ | ⟨-, ⟨t, turn⟩, e⟩ := ask_cases m id request
  · rw [past] at o
    cases o
  · refine ⟨{ m with callers := m.callers ++ [⟨id, request, .waiting, false⟩], turn := some id },
      rfl, ?_, rfl, rfl, rfl, ?_⟩
    · simp [line, turn, ha.turn_taken turn]
    · rw [e]
      have joined := ht.join fresh request
        (n := { m with callers := m.callers ++ [⟨id, request, .waiting, false⟩], turn := some id })
        rfl (by simp [line, turn]) rfl rfl rfl
      exact shift_fill joined (c := ⟨id, request, .waiting, false⟩) (by simp) rfl past
  · refine ⟨{ m with
        callers := m.callers ++ [⟨id, request, .waiting, false⟩], queue := m.queue ++ [id] },
      rfl, ?_, rfl, rfl, rfl, ?_⟩
    · simp [line]
    · rw [e]
      exact .refl _

theorem mem_handOver (hc : c ∈ (m.handOver id).callers) :
    ∃ d ∈ m.callers, c.id = d.id ∧ c.request = d.request ∧
      c.stage = if d.id = id then .handedOver else d.stage := by
  have handed : ∀ c ∈ ({ m with slot := none }.modify id ({ · with stage := .handedOver })
      : Mailbox ρ α).callers, ∃ d ∈ m.callers, c.id = d.id ∧ c.request = d.request ∧
      c.stage = if d.id = id then .handedOver else d.stage := by
    intro c hc
    obtain ⟨d, hd, rfl⟩ := mem_modify.mp hc
    refine ⟨d, hd, ?_⟩
    split <;> exact ⟨rfl, rfl, rfl⟩
  unfold handOver at hc
  split at hc
  · obtain ⟨b, hb, rfl⟩ := mem_modify.mp hc
    obtain ⟨d, hd, i, r, s⟩ := handed b hb
    refine ⟨d, hd, ?_⟩
    split <;> exact ⟨i, r, s⟩
  · exact handed c hc

@[simp] theorem handOver_slot : (m.handOver id).slot = none := by
  unfold handOver
  split <;> rfl

@[simp] theorem handOver_exit : (m.handOver id).exit = m.exit := by
  unfold handOver
  split <;> rfl

@[simp] theorem handOver_closed : (m.handOver id).closed = m.closed := by
  unfold handOver
  split <;> rfl

@[simp] theorem handOver_line : (m.handOver id).line = m.line := by
  unfold handOver
  split <;> rfl

theorem mem_wakeWaiting (hc : c ∈ m.wakeWaiting.callers) :
    ∃ d ∈ m.callers, c.id = d.id ∧ c.request = d.request ∧ c.stage = d.stage := by
  obtain ⟨d, hd, rfl⟩ := List.mem_map.mp hc
  refine ⟨d, hd, ?_⟩
  split <;> exact ⟨rfl, rfl, rfl⟩

/-- To dispose an open mailbox is to set the exit unless it is set, to refuse what is in the slot, and
to change nothing else of the callers but their marks. -/
theorem dispose_effect (h : m.closed = false) :
    m.dispose.slot = none ∧ m.dispose.exit = some (m.exit.getD .continue) ∧ m.dispose.closed = true
      ∧ m.dispose.line = m.line
      ∧ ∀ c ∈ m.dispose.callers, ∃ d ∈ m.callers, c.id = d.id ∧ c.request = d.request ∧
        c.stage = if m.slot.map Prod.fst = some d.id then .answered .refused else d.stage := by
  unfold dispose
  simp only [h, Bool.false_eq_true, if_false]
  cases hs : m.slot with
  | none =>
    refine ⟨rfl, rfl, rfl, rfl, fun c hc => ?_⟩
    obtain ⟨d, hd, i, r, s⟩ := mem_wakeWaiting hc
    exact ⟨d, hd, i, r, by simpa using s⟩
  | some p =>
    refine ⟨rfl, rfl, rfl, rfl, fun c hc => ?_⟩
    obtain ⟨b, hb, i, r, s⟩ := mem_wakeWaiting hc
    obtain ⟨d, hd, rfl⟩ := mem_modify.mp hb
    refine ⟨d, hd, ?_⟩
    by_cases e : d.id = p.1
    · simp only [e, if_true] at i r s
      exact ⟨by rw [i, e], r, by simp [s, e]⟩
    · simp only [e, if_false] at i r s
      exact ⟨i, r, by simp [s, Ne.symm e]⟩

end Mailbox

/-! ## The notes -/

/-- A mailbox and what went through it. -/
structure Post (ρ α : Type) where
  box : Mailbox ρ α
  /-- Who asked for what, the first one first. -/
  asked : List (Nat × ρ)
  /-- What was put into the slot, the first one first. -/
  put : List (Nat × ρ)
  /-- What was handed to the serving thread, the first one first. -/
  handed : List (Nat × ρ)
  /-- What was still in the slot when the mailbox was disposed. -/
  failed : List (Nat × ρ)
  /-- Whom the serving thread has answered. -/
  answered : List Nat
  /-- The exits that were set, the first one first. -/
  exits : List ResumeAction
  /-- The exits that serving threads and others got, the last one first. -/
  got : List ResumeAction

/-- What happens at a mailbox. -/
inductive Post.Move (ρ α : Type) where
  /-- Somebody asks for the first time. -/
  | ask (id : Nat) (request : ρ)
  /-- One who asked looks again, marked or not. -/
  | look (id : Nat)
  /-- One who asked goes away. -/
  | leave (id : Nat)
  | attach (server : Nat)
  /-- The serving thread looks for what is next. -/
  | take
  /-- The serving thread answers what it was handed, or lets it go. -/
  | answer (id : Nat) (answer : Mailbox.Answer α)
  | tryExit (action : ResumeAction)
  | dispose
  /-- Somebody who waits for the exit looks. -/
  | awaitExit

namespace Post

variable {ρ α : Type}

/-- An empty mailbox. -/
def new : Post ρ α := ⟨.new, [], [], [], [], [], [], []⟩

/-- A step of a caller, which may have filled the slot. -/
def shift (s : Post ρ α) (box : Mailbox ρ α) : Post ρ α :=
  { s with box, put := s.put ++ if s.box.slot.isNone then box.slot.toList else [] }

/-- One move; one that cannot be made changes nothing. -/
def step (s : Post ρ α) : Move ρ α → Post ρ α
  | .ask id request =>
    if id ∈ s.asked.map Prod.fst then s
    else { s.shift (s.box.ask id request).2 with asked := s.asked ++ [(id, request)] }
  | .look id => s.shift (s.box.look id).2
  | .leave id => s.shift (s.box.drop id)
  | .attach server => { s with box := s.box.attach server }
  | .take =>
    match s.box.take? with
    | none => s
    | some (.exit action, box) => { s with box, got := action :: s.got }
    | some (.request id request, box) => { s with box, handed := s.handed ++ [(id, request)] }
  | .answer id answer =>
    if id ∈ s.handed.map Prod.fst ∧ id ∉ s.answered then
      { s with box := s.box.answer id answer, answered := id :: s.answered }
    else s
  | .tryExit action =>
    { s with
      box := (s.box.tryExit action).2
      exits := if (s.box.tryExit action).1 then s.exits ++ [action] else s.exits }
  | .dispose =>
    if s.box.closed then s
    else { s with
      box := s.box.dispose
      failed := s.failed ++ s.box.slot.toList
      exits := if s.box.exit.isNone then s.exits ++ [.continue] else s.exits }
  | .awaitExit =>
    match s.box.exit with
    | none => s
    | some action => { s with got := action :: s.got }

/-- Any moves, one after the other. -/
def run (s : Post ρ α) (moves : List (Move ρ α)) : Post ρ α := moves.foldl step s

/-- The notes agree with each other and with the mailbox. -/
structure Noted (s : Post ρ α) : Prop where
  asked_once : (s.asked.map Prod.fst).Nodup
  callers_asked : ∀ c ∈ s.box.callers, (c.id, c.request) ∈ s.asked
  put_asked : ∀ p ∈ s.put, p ∈ s.asked
  /-- What was put and who may still put something stand in the order in which all asked. -/
  order : (s.put.map Prod.fst ++ s.box.line).Sublist (s.asked.map Prod.fst)
  /-- What was put was handed over, or failed, or is in the slot. -/
  balance : s.put = s.handed ++ s.failed ++ s.box.slot.toList
  failed_closed : s.failed ≠ [] → s.box.closed = true
  failed_stage : ∀ p ∈ s.failed, ∀ c ∈ s.box.callers, c.id = p.1 → c.stage = .answered .refused
  answered_handed : ∀ i ∈ s.answered, i ∈ s.handed.map Prod.fst
  serviced : ∀ c ∈ s.box.callers, c.stage = .handedOver →
    (c.id, c.request) ∈ s.handed ∧ c.id ∉ s.answered
  exits_eq : s.exits = s.box.exit.toList
  got_eq : ∀ action ∈ s.got, s.box.exit = some action

/-- What is true of a mailbox and its notes at any moment. -/
structure Sound (s : Post ρ α) : Prop extends s.Noted where
  tidy : s.box.Tidy
  alert : s.box.Alert

variable {s : Post ρ α}

theorem sound_new : (new : Post ρ α).Sound where
  tidy := Mailbox.tidy_new
  alert := Mailbox.alert_new
  asked_once := by simp [new]
  callers_asked := by simp [new, Mailbox.new]
  put_asked := by simp [new]
  order := by simp [new, Mailbox.new, Mailbox.line]
  balance := by simp [new, Mailbox.new]
  failed_closed := by simp [new]
  failed_stage := by simp [new]
  answered_handed := by simp [new]
  serviced := by simp [new, Mailbox.new]
  exits_eq := by simp [new, Mailbox.new]
  got_eq := by simp [new]

theorem Noted.put_line_nodup (h : s.Noted) : (s.put.map Prod.fst ++ s.box.line).Nodup :=
  h.order.nodup h.asked_once

/-- What was handed over or failed has left the slot for good. -/
theorem Noted.slot_new (h : s.Noted) {id : Nat} {request : ρ} (hs : s.box.slot = some (id, request)) :
    id ∉ s.handed.map Prod.fst ∧ id ∉ s.failed.map Prod.fst := by
  have once := (List.nodup_append.mp h.put_line_nodup).1
  rw [h.balance, hs, List.map_append, List.nodup_append] at once
  have apart := once.2.2
  refine ⟨fun hi => ?_, fun hi => ?_⟩
  · exact apart id (by simp [List.map_append, hi]) id (by simp) rfl
  · exact apart id (by simp [List.map_append, hi]) id (by simp) rfl

/-- A caller whose request was handed over is neither in line nor in the slot. -/
theorem Sound.handed_stage (h : s.Sound) {c : Mailbox.Caller ρ α} (hc : c ∈ s.box.callers)
    (hh : c.id ∈ s.handed.map Prod.fst) : c.stage ≠ .waiting ∧ c.stage ≠ .posted := by
  constructor
  · intro waiting
    have inLine := (h.tidy.waiting_iff c hc).mp waiting
    have inPut : c.id ∈ s.put.map Prod.fst := by
      rw [h.balance]
      simp only [List.map_append, List.mem_append]
      exact .inl (.inl hh)
    exact (List.nodup_append.mp h.put_line_nodup).2.2 c.id inPut c.id inLine rfl
  · intro posted
    exact (h.slot_new ((h.tidy.posted_iff c hc).mp posted)).1 hh

theorem Noted.shift (h : s.Noted) {box : Mailbox ρ α} (moved : Mailbox.Shift s.box box) :
    (s.shift box).Noted := by
  have callers_asked : ∀ c ∈ box.callers, (c.id, c.request) ∈ s.asked := by
    intro c hc
    obtain ⟨d, hd, i, r, -⟩ := moved.callers c hc
    rw [i, r]
    exact h.callers_asked d hd
  have failed_stage : ∀ p ∈ s.failed, ∀ c ∈ box.callers, c.id = p.1 →
      c.stage = .answered .refused := by
    intro p hp c hc e
    obtain ⟨d, hd, i, -, same | ⟨waiting, -⟩⟩ := moved.callers c hc
    · rw [same]
      exact h.failed_stage p hp d hd (i ▸ e)
    · rw [h.failed_stage p hp d hd (i ▸ e)] at waiting
      cases waiting
  have serviced : ∀ c ∈ box.callers, c.stage = .handedOver →
      (c.id, c.request) ∈ s.handed ∧ c.id ∉ s.answered := by
    intro c hc stage
    obtain ⟨d, hd, i, r, same | ⟨-, posted⟩⟩ := moved.callers c hc
    · rw [i, r]
      exact h.serviced d hd (same ▸ stage)
    · rw [posted] at stage
      cases stage
  have exits_eq : s.exits = box.exit.toList := moved.exit ▸ h.exits_eq
  have got_eq : ∀ action ∈ s.got, box.exit = some action := moved.exit ▸ h.got_eq
  have failed_closed : s.failed ≠ [] → box.closed = true := moved.closed ▸ h.failed_closed
  obtain ⟨slot, line⟩ | ⟨past, empty, c, hc, full, line⟩ := moved.slot
  · have same : (s.shift box).put = s.put := by
      simp only [Post.shift, slot]
      cases s.box.slot <;> simp
    refine ⟨h.asked_once, callers_asked, ?_, ?_, ?_, failed_closed, failed_stage,
      h.answered_handed, serviced, exits_eq, got_eq⟩
    · rw [same]
      exact h.put_asked
    · rw [same]
      exact (List.Sublist.append_left line _).trans h.order
    · rw [same, h.balance]
      simp [Post.shift, slot]
  · have more : (s.shift box).put = s.put ++ [(c.id, c.request)] := by
      simp [Post.shift, empty, full]
    have none_failed : s.failed = [] := by
      by_contra ne
      have closed := h.failed_closed ne
      rw [(Mailbox.isOver_false past).2] at closed
      cases closed
    refine ⟨h.asked_once, callers_asked, ?_, ?_, ?_, failed_closed, failed_stage,
      h.answered_handed, serviced, exits_eq, got_eq⟩
    · rw [more]
      intro p hp
      rcases List.mem_append.mp hp with hp | hp
      · exact h.put_asked p hp
      · rw [List.mem_singleton.mp hp]
        exact h.callers_asked c hc
    · have order := h.order
      rw [line] at order
      rw [more, List.map_append, List.append_assoc]
      exact order
    · rw [more, h.balance, none_failed]
      simp [Post.shift, empty, full, none_failed]

theorem Noted.fresh (h : s.Noted) {id : Nat} (hid : id ∉ s.asked.map Prod.fst) : s.box.Fresh id := by
  refine ⟨fun c hc e => hid ?_, fun q hs => hid ?_⟩
  · exact e ▸ List.mem_map_of_mem (f := Prod.fst) (h.callers_asked c hc)
  · have put : (id, q) ∈ s.put := by
      rw [h.balance, hs]
      simp
    exact List.mem_map_of_mem (f := Prod.fst) (h.put_asked _ put)

/-- A newcomer is noted down, and stands at the end of the line unless it is turned away. -/
theorem Noted.join (h : s.Noted) {id : Nat} (hid : id ∉ s.asked.map Prod.fst) (request : ρ)
    {n : Mailbox ρ α}
    (callers : ∀ c ∈ n.callers, c ∈ s.box.callers ∨ c = ⟨id, request, .waiting, false⟩)
    (line : n.line.Sublist (s.box.line ++ [id])) (slot : n.slot = s.box.slot)
    (exit : n.exit = s.box.exit) (closed : n.closed = s.box.closed) :
    ({ s with box := n, asked := s.asked ++ [(id, request)] } : Post ρ α).Noted where
  asked_once := by
    rw [List.map_append, List.nodup_append]
    refine ⟨h.asked_once, by simp, fun i hi j hj e => ?_⟩
    have same : j = id := by simpa using hj
    exact hid (same ▸ e ▸ hi)
  callers_asked := by
    intro c hc
    rcases callers c hc with hc | rfl
    · exact List.mem_append_left _ (h.callers_asked c hc)
    · simp
  put_asked := fun p hp => List.mem_append_left _ (h.put_asked p hp)
  order := by
    have longer : (s.put.map Prod.fst ++ n.line).Sublist (s.put.map Prod.fst ++ s.box.line ++ [id]) := by
      rw [List.append_assoc]
      exact List.Sublist.append_left line _
    refine longer.trans ?_
    rw [List.map_append]
    exact h.order.append_right _
  balance := by
    show s.put = _ ++ n.slot.toList
    rw [slot]
    exact h.balance
  failed_closed := by
    show _ → n.closed = true
    rw [closed]
    exact h.failed_closed
  failed_stage := by
    intro p hp c hc e
    rcases callers c hc with hc | rfl
    · exact h.failed_stage p hp c hc e
    · have put : p ∈ s.put := by
        rw [h.balance]
        simp [show p ∈ s.failed from hp]
      have e : id = p.1 := e
      exact absurd (e ▸ List.mem_map_of_mem (f := Prod.fst) (h.put_asked p put)) hid
  answered_handed := h.answered_handed
  serviced := by
    intro c hc stage
    rcases callers c hc with hc | rfl
    · exact h.serviced c hc stage
    · cases stage
  exits_eq := by
    show s.exits = n.exit.toList
    rw [exit]
    exact h.exits_eq
  got_eq := by
    show ∀ action ∈ s.got, n.exit = some action
    rw [exit]
    exact h.got_eq

theorem shift_self (s : Post ρ α) : s.shift s.box = s := by
  unfold shift
  cases s.box.slot <;> simp

theorem Sound.ask (h : s.Sound) (id : Nat) (request : ρ) : (s.step (.ask id request)).Sound := by
  simp only [step]
  split
  · exact h
  · next hid =>
    have fresh := h.fresh hid
    have tidy := h.tidy.ask fresh request
    have alert := h.alert.ask h.tidy fresh request
    refine ⟨?_, tidy, alert⟩
    by_cases past : s.box.isOver
    · have same : (s.box.ask id request).2 = s.box := by simp [Mailbox.ask, past]
      rw [same, shift_self]
      exact h.join hid request (fun c hc => .inl hc) (List.sublist_append_left _ _) rfl rfl rfl
    · obtain ⟨n, callers, line, slot, exit, closed, moved⟩ :=
        Mailbox.shift_ask h.tidy h.alert fresh request (by simpa using past)
      have joined := h.join hid request (n := n) (fun c hc => by simpa [callers] using hc)
        (line ▸ List.Sublist.refl _) slot exit closed
      have moved := joined.shift moved
      simp only [shift, slot] at moved
      exact moved

theorem Sound.look (h : s.Sound) (id : Nat) : (s.step (.look id)).Sound :=
  ⟨h.shift (Mailbox.shift_look h.tidy id), h.tidy.look id, h.alert.look h.tidy id⟩

theorem Sound.leave (h : s.Sound) (id : Nat) : (s.step (.leave id)).Sound :=
  ⟨h.shift (Mailbox.shift_drop s.box id), h.tidy.drop id, h.alert.drop id⟩

theorem Sound.attach (h : s.Sound) (server : Nat) : (s.step (.attach server)).Sound :=
  ⟨⟨h.asked_once, h.callers_asked, h.put_asked, h.order, h.balance, h.failed_closed, h.failed_stage,
    h.answered_handed, h.serviced, h.exits_eq, h.got_eq⟩, h.tidy.attach server, h.alert.attach server⟩

theorem Noted.handOver (h : s.Noted) (tidy : s.box.Tidy) {id : Nat} {request : ρ}
    (hs : s.box.slot = some (id, request)) (notClosed : s.box.closed = false) :
    ({ s with box := s.box.handOver id, handed := s.handed ++ [(id, request)] }
      : Post ρ α).Noted := by
  have none_failed : s.failed = [] := by
    by_contra ne
    rw [h.failed_closed ne] at notClosed
    cases notClosed
  refine ⟨h.asked_once, ?_, h.put_asked, ?_, ?_, ?_, ?_, ?_, ?_, ?_, ?_⟩
  · intro c hc
    obtain ⟨d, hd, i, r, -⟩ := Mailbox.mem_handOver hc
    rw [i, r]
    exact h.callers_asked d hd
  · show (s.put.map Prod.fst ++ (s.box.handOver id).line).Sublist _
    rw [Mailbox.handOver_line]
    exact h.order
  · simp [h.balance, none_failed, hs]
  · simp [none_failed]
  · simp [none_failed]
  · intro i hi
    simp [h.answered_handed i hi]
  · intro c hc stage
    obtain ⟨d, hd, i, r, s'⟩ := Mailbox.mem_handOver hc
    rw [i, r]
    by_cases e : d.id = id
    · have same := tidy.slot_request d hd request (e ▸ hs)
      refine ⟨by simp [e, same], fun ha => (h.slot_new hs).1 (e ▸ h.answered_handed _ ha)⟩
    · rw [stage, if_neg e] at s'
      have old := h.serviced d hd s'.symm
      exact ⟨List.mem_append_left _ old.1, old.2⟩
  · simpa using h.exits_eq
  · simpa using h.got_eq

theorem Sound.take (h : s.Sound) : (s.step .take).Sound := by
  simp only [step]
  split
  · exact h
  · next action box ht =>
    refine ⟨?_, h.tidy.take ht, ?_⟩
    · obtain ⟨a, he, e, rfl⟩ | ⟨he, hc, -, -⟩ | ⟨_, _, _, _, e, -⟩ := Mailbox.take_cases ht
      · cases e
        refine ⟨h.asked_once, h.callers_asked, h.put_asked, h.order, h.balance, h.failed_closed,
          h.failed_stage, h.answered_handed, h.serviced, h.exits_eq, fun b hb => ?_⟩
        rcases List.mem_cons.mp hb with rfl | hb
        · exact he
        · exact h.got_eq b hb
      · have set := (h.tidy.closed_over hc).1
        rw [he] at set
        cases set
      · cases e
    · obtain ⟨_, -, -, rfl⟩ | ⟨-, -, -, rfl⟩ | ⟨_, _, _, _, e, -⟩ := Mailbox.take_cases ht
      · exact h.alert
      · exact h.alert
      · cases e
  · next id request box ht =>
    obtain ⟨_, -, e, -⟩ | ⟨-, -, e, -⟩ | ⟨i, q, past, hs, e, rfl⟩ := Mailbox.take_cases ht
    · cases e
    · cases e
    · cases e
      have notClosed := (Mailbox.isOver_false past).2
      exact ⟨h.toNoted.handOver h.tidy hs notClosed, h.tidy.handOver hs notClosed,
        h.alert.handOver past⟩

theorem Sound.answer (h : s.Sound) (id : Nat) (a : Mailbox.Answer α) :
    (s.step (.answer id a)).Sound := by
  simp only [step]
  split
  · next served =>
    obtain ⟨handed, fresh⟩ := served
    have stage : ∀ c ∈ s.box.callers, c.id = id → c.stage ≠ .waiting ∧ c.stage ≠ .posted :=
      fun c hc e => h.handed_stage hc (e ▸ handed)
    have apart : id ∉ s.failed.map Prod.fst := by
      have once := (List.nodup_append.mp h.put_line_nodup).1
      rw [h.balance, List.map_append, List.map_append, List.nodup_append] at once
      exact fun hf => (List.nodup_append.mp once.1).2.2 id handed id hf rfl
    refine ⟨⟨h.asked_once, ?_, h.put_asked, h.order, h.balance, h.failed_closed, ?_, ?_, ?_,
      h.exits_eq, h.got_eq⟩, h.tidy.answer a stage, h.alert.answer id a⟩
    · intro c hc
      obtain ⟨d, hd, rfl⟩ := Mailbox.mem_modify.mp hc
      have old := h.callers_asked d hd
      split <;> exact old
    · intro p hp c hc e
      obtain ⟨d, hd, rfl⟩ := Mailbox.mem_modify.mp hc
      by_cases i : d.id = id
      · simp only [i, if_true] at e
        exact absurd (by rw [e]; exact List.mem_map_of_mem hp) apart
      · simp only [i, if_false] at e ⊢
        exact h.failed_stage p hp d hd e
    · intro i hi
      rcases List.mem_cons.mp hi with rfl | hi
      · exact handed
      · exact h.answered_handed i hi
    · intro c hc past
      obtain ⟨d, hd, rfl⟩ := Mailbox.mem_modify.mp hc
      by_cases i : d.id = id
      · simp [i] at past
      · simp only [i, if_false] at past ⊢
        have old := h.serviced d hd past
        exact ⟨old.1, by simp [i, old.2]⟩
  · exact h

theorem Sound.tryExit (h : s.Sound) (action : ResumeAction) : (s.step (.tryExit action)).Sound := by
  refine ⟨?_, h.tidy.tryExit action, h.alert.tryExit h.tidy action⟩
  simp only [step, Mailbox.tryExit]
  by_cases past : s.box.isOver
  · simp only [past, if_true, Bool.false_eq_true, if_false]
    exact h.toNoted
  · simp only [past, if_true, if_false, Bool.false_eq_true]
    have unset := (Mailbox.isOver_false (by simpa using past)).1
    have callers : ∀ c ∈ ({ s.box with exit := some action } : Mailbox ρ α).wakeWaiting.callers,
        ∃ d ∈ s.box.callers, c.id = d.id ∧ c.request = d.request ∧ c.stage = d.stage :=
      fun c hc => Mailbox.mem_wakeWaiting hc
    refine ⟨h.asked_once, ?_, h.put_asked, h.order, h.balance, h.failed_closed, ?_,
      h.answered_handed, ?_, ?_, ?_⟩
    · intro c hc
      obtain ⟨d, hd, i, r, -⟩ := callers c hc
      rw [i, r]
      exact h.callers_asked d hd
    · intro p hp c hc e
      obtain ⟨d, hd, i, -, stage⟩ := callers c hc
      rw [stage]
      exact h.failed_stage p hp d hd (i ▸ e)
    · intro c hc past
      obtain ⟨d, hd, i, r, stage⟩ := callers c hc
      rw [i, r]
      exact h.serviced d hd (stage ▸ past)
    · simp [h.exits_eq, unset, Mailbox.wakeWaiting]
    · intro b hb
      have old := h.got_eq b hb
      rw [unset] at old
      cases old

theorem Sound.dispose (h : s.Sound) : (s.step .dispose).Sound := by
  simp only [step]
  split
  · exact h
  · next open_ =>
    refine ⟨?_, h.tidy.dispose, h.alert.dispose h.tidy⟩
    obtain ⟨slot, exit, closed, line, callers⟩ := Mailbox.dispose_effect (by simpa using open_)
    have none_failed : s.failed = [] := by
      by_contra ne
      exact open_ (h.failed_closed ne)
    refine ⟨h.asked_once, ?_, h.put_asked, ?_, ?_, fun _ => closed, ?_, h.answered_handed, ?_, ?_, ?_⟩
    · intro c hc
      obtain ⟨d, hd, i, r, -⟩ := callers c hc
      rw [i, r]
      exact h.callers_asked d hd
    · show (s.put.map Prod.fst ++ s.box.dispose.line).Sublist _
      rw [line]
      exact h.order
    · simp [slot, h.balance, none_failed]
    · intro p hp c hc e
      obtain ⟨d, hd, i, -, stage⟩ := callers c hc
      have inSlot : s.box.slot = some p := by simpa [none_failed] using hp
      rw [stage, if_pos (by simp [inSlot, ← e, i])]
    · intro c hc past
      obtain ⟨d, hd, i, r, stage⟩ := callers c hc
      rw [i, r]
      split at stage
      · rw [stage] at past
        cases past
      · exact h.serviced d hd (stage ▸ past)
    · rw [exit]
      cases he : s.box.exit with
      | none => simp [h.exits_eq, he]
      | some action => simp [h.exits_eq, he]
    · intro b hb
      rw [exit, h.got_eq b hb]
      rfl

theorem Sound.awaitExit (h : s.Sound) : (s.step .awaitExit).Sound := by
  simp only [step]
  split
  · exact h
  · next action he =>
    refine ⟨⟨h.asked_once, h.callers_asked, h.put_asked, h.order, h.balance, h.failed_closed,
      h.failed_stage, h.answered_handed, h.serviced, h.exits_eq, fun b hb => ?_⟩, h.tidy, h.alert⟩
    rcases List.mem_cons.mp hb with rfl | hb
    · exact he
    · exact h.got_eq b hb

theorem Sound.step (h : s.Sound) (m : Move ρ α) : (s.step m).Sound := by
  cases m with
  | ask id request => exact h.ask id request
  | look id => exact h.look id
  | leave id => exact h.leave id
  | attach server => exact h.attach server
  | take => exact h.take
  | answer id a => exact h.answer id a
  | tryExit action => exact h.tryExit action
  | dispose => exact h.dispose
  | awaitExit => exact h.awaitExit

theorem Sound.run (h : s.Sound) (moves : List (Move ρ α)) : (s.run moves).Sound := by
  induction moves generalizing s with
  | nil => exact h
  | cons m rest ih => exact ih (h.step m)

/-! ## After the exit is set -/

/-- Once the exit is set it stays, and nothing more is handed over. -/
theorem Sound.step_exited (h : s.Sound) {action : ResumeAction} (set : s.box.exit = some action)
    (m : Move ρ α) : (s.step m).box.exit = some action ∧ (s.step m).handed = s.handed := by
  have past : s.box.isOver = true := by simp [Mailbox.isOver, set]
  cases m with
  | ask id request =>
    simp only [Post.step]
    split
    · exact ⟨set, rfl⟩
    · have same : (s.box.ask id request).2 = s.box := by simp [Mailbox.ask, past]
      rw [same]
      exact ⟨set, rfl⟩
  | look id => exact ⟨(Mailbox.shift_look h.tidy id).exit.trans set, rfl⟩
  | leave id => exact ⟨(Mailbox.shift_drop s.box id).exit.trans set, rfl⟩
  | attach server => exact ⟨set, rfl⟩
  | take =>
    have taken : s.box.take? = some (.exit action, s.box) := by simp [Mailbox.take?, set]
    simp only [Post.step, taken]
    exact ⟨set, trivial⟩
  | answer id a =>
    simp only [Post.step]
    split <;> exact ⟨set, rfl⟩
  | tryExit other => simp [Post.step, Mailbox.tryExit, past, set]
  | dispose =>
    simp only [Post.step]
    split
    · exact ⟨set, rfl⟩
    · next open_ =>
      have exit := (Mailbox.dispose_effect (by simpa using open_)).2.1
      exact ⟨by rw [exit, set]; rfl, rfl⟩
  | awaitExit => simp [Post.step, set]

theorem Sound.run_exited (h : s.Sound) {action : ResumeAction} (set : s.box.exit = some action)
    (moves : List (Move ρ α)) :
    (s.run moves).box.exit = some action ∧ (s.run moves).handed = s.handed := by
  induction moves generalizing s with
  | nil => exact ⟨set, rfl⟩
  | cons m rest ih =>
    have first := h.step_exited set m
    have others := ih (h.step m) first.1
    exact ⟨others.1, others.2.trans first.2⟩

/-- When everyone who was marked has looked after the exit was set, those who are left have their
request in the slot or with the serving thread. -/
theorem Sound.pending (h : s.Sound) (set : s.box.exit.isSome = true)
    (looked : ∀ c ∈ s.box.callers, c.woken = false) :
    ∀ c ∈ s.box.callers, s.box.slot = some (c.id, c.request) ∨
      c.stage = .handedOver ∧ (c.id, c.request) ∈ s.handed ∧ c.id ∉ s.answered := by
  intro c hc
  have asleep := looked c hc
  cases stage : c.stage with
  | waiting =>
    rw [h.alert.past (by simp [Mailbox.isOver, set]) c hc stage] at asleep
    cases asleep
  | posted => exact .inl ((h.tidy.posted_iff c hc).mp stage)
  | handedOver => exact .inr ⟨rfl, h.serviced c hc stage⟩
  | answered a =>
    rw [h.alert.answered c hc a stage] at asleep
    cases asleep

/-- What a mailbox guarantees after any moves of any number of callers, of the thread that serves it
and of those who end it. Every request that was put into the slot is still there or has left it once,
handed over or failed with a refusal. Requests are handed over in the order in which their callers
asked. The exit is set once and for all; it is what the serving thread and all others get, and
nothing is handed over any more. And once all who were marked have looked, nobody is left behind but
those whose request is in the slot or being served, and only the latter after the mailbox is
disposed. -/
theorem mailbox_guards (moves : List (Move ρ α)) :
    let s := (new : Post ρ α).run moves
    ((s.put.map Prod.fst).Nodup ∧ s.put = s.handed ++ s.failed ++ s.box.slot.toList
      ∧ ∀ p ∈ s.failed, s.box.closed = true ∧
        ∀ c ∈ s.box.callers, c.id = p.1 → c.stage = .answered .refused)
    ∧ ((s.asked.map Prod.fst).Nodup ∧ (s.handed.map Prod.fst).Sublist (s.asked.map Prod.fst)
      ∧ ∀ p ∈ s.handed, p ∈ s.asked)
    ∧ (∀ action, s.box.exit = some action → ∀ rest,
        (s.run rest).box.exit = some action ∧ (s.run rest).handed = s.handed)
    ∧ (s.exits = s.box.exit.toList ∧ ∀ action ∈ s.got, s.box.exit = some action)
    ∧ ((∀ c ∈ s.box.callers, c.woken = false) →
      (s.box.exit.isSome = true → ∀ c ∈ s.box.callers, s.box.slot = some (c.id, c.request) ∨
        c.stage = .handedOver ∧ (c.id, c.request) ∈ s.handed ∧ c.id ∉ s.answered)
      ∧ (s.box.closed = true → ∀ c ∈ s.box.callers,
        c.stage = .handedOver ∧ (c.id, c.request) ∈ s.handed ∧ c.id ∉ s.answered)) := by
  intro s
  have sound : s.Sound := sound_new.run moves
  have handed_put : ∀ p ∈ s.handed, p ∈ s.put := by
    intro p hp
    rw [sound.balance]
    simp [hp]
  refine ⟨⟨(List.nodup_append.mp sound.put_line_nodup).1, sound.balance, fun p hp => ?_⟩, ?_, ?_,
    ⟨sound.exits_eq, sound.got_eq⟩, fun looked => ⟨fun set => sound.pending set looked, ?_⟩⟩
  · exact ⟨sound.failed_closed (List.ne_nil_of_mem hp), sound.failed_stage p hp⟩
  · refine ⟨sound.asked_once, ?_, fun p hp => sound.put_asked p (handed_put p hp)⟩
    have handed_first : (s.handed.map Prod.fst).Sublist (s.put.map Prod.fst) := by
      rw [sound.balance, List.append_assoc, List.map_append]
      exact List.sublist_append_left _ _
    exact handed_first.trans ((List.sublist_append_left _ _).trans sound.order)
  · exact fun action set rest => sound.run_exited set rest
  · intro closed c hc
    obtain ⟨set, empty⟩ := sound.tidy.closed_over closed
    rcases sound.pending set looked c hc with inSlot | serviced
    · rw [empty] at inSlot
      cases inSlot
    · exact serviced

end Post

end SessionBroker
