import SessionBroker.Proofs.Custody

/-!
# Requests in mailboxes

Whatever is true of every request that is put into the mailboxes of frames is true of every request
that comes out of them.
-/

namespace SessionBroker

namespace Mailbox

variable {ρ α : Type} {P : ρ → Prop} {m n : Mailbox ρ α} {id : Nat} {q : ρ}

/-- Something is true of every request in a mailbox. -/
structure Holds (P : ρ → Prop) (m : Mailbox ρ α) : Prop where
  callers : ∀ c ∈ m.callers, P c.request
  slot : ∀ id q, m.slot = some (id, q) → P q

theorem holds_new : (new : Mailbox ρ α).Holds P := ⟨by rintro c ⟨⟩, by rintro id q ⟨⟩⟩

theorem Holds.modify (h : m.Holds P) {f : Caller ρ α → Caller ρ α}
    (same : ∀ c, (f c).request = c.request) : (m.modify id f).Holds P := by
  refine ⟨fun c hc => ?_, h.slot⟩
  obtain ⟨d, hd, rfl⟩ := List.mem_map.mp hc
  split
  · rw [same]
    exact h.callers d hd
  · exact h.callers d hd

theorem Holds.passTurn (h : m.Holds P) : m.passTurn.Holds P := by
  unfold Mailbox.passTurn
  split
  · exact ⟨h.callers, h.slot⟩
  · next next rest _ =>
    have kept : ({ m with turn := some next, queue := rest } : Mailbox ρ α).Holds P :=
      ⟨h.callers, h.slot⟩
    exact kept.modify fun _ => rfl

theorem Holds.drop (h : m.Holds P) : (m.drop id).Holds P := by
  have kept : ({ m with
      callers := m.callers.filter (·.id ≠ id), queue := m.queue.filter (· ≠ id) }
      : Mailbox ρ α).Holds P :=
    ⟨fun c hc => h.callers c (List.mem_filter.mp hc).1, h.slot⟩
  show (if m.turn = some id then _ else _ : Mailbox ρ α).Holds P
  split
  · exact kept.passTurn
  · exact kept

theorem Holds.fill (h : m.Holds P) (hq : P q) : (m.fill id q).Holds P := by
  unfold Mailbox.fill
  split
  · exact h.modify fun _ => rfl
  · have filled : ({ m with slot := some (id, q) } : Mailbox ρ α).Holds P := by
      refine ⟨h.callers, ?_⟩
      rintro _ _ ⟨⟩
      exact hq
    refine Holds.passTurn ?_
    exact filled.modify fun _ => rfl

theorem Holds.ask (h : m.Holds P) (hq : P q) : (m.ask id q).2.Holds P := by
  have joined : ({ m with callers := m.callers ++ [⟨id, q, .waiting, false⟩] }
      : Mailbox ρ α).Holds P := by
    refine ⟨fun c hc => ?_, h.slot⟩
    rcases List.mem_append.mp hc with old | new
    · exact h.callers c old
    · rw [List.mem_singleton.mp new]
      exact hq
  unfold Mailbox.ask
  split
  · exact h
  · simp only []
    split
    · exact Holds.fill ⟨joined.callers, joined.slot⟩ hq
    · exact ⟨joined.callers, joined.slot⟩

theorem Holds.look (h : m.Holds P) : (m.look id).2.Holds P := by
  unfold Mailbox.look
  split
  · exact h
  · next c hc =>
    split
    · exact h.drop
    · split
      · exact h.drop
      · split
        · exact h.fill (h.callers c (List.mem_of_find?_eq_some hc))
        · exact h.modify fun _ => rfl
    · exact h.modify fun _ => rfl

theorem Holds.empty (h : m.Holds P) (callers : n.callers = m.callers) (slot : n.slot = none) :
    n.Holds P :=
  ⟨by rw [callers]; exact h.callers, by rw [slot]; rintro _ _ ⟨⟩⟩

theorem Holds.take {next : Next ρ} (h : m.Holds P) (ht : m.take? = some (next, n)) :
    n.Holds P ∧ ∀ id q, next = .request id q → P q := by
  have handed : ∀ id, (m.handOver id).Holds P := by
    intro id
    have emptied : ({ m with slot := none } : Mailbox ρ α).Holds P := h.empty rfl rfl
    have gone : ({ m with slot := none }.modify id ({ · with stage := .handedOver })
        : Mailbox ρ α).Holds P := emptied.modify fun _ => rfl
    unfold handOver
    split
    · exact gone.modify fun _ => rfl
    · exact gone
  unfold take? at ht
  split at ht
  · cases ht
    exact ⟨h, by rintro _ _ ⟨⟩⟩
  · split at ht
    · cases ht
      exact ⟨h, by rintro _ _ ⟨⟩⟩
    · split at ht
      · cases ht
      · next id q hs =>
        cases ht
        refine ⟨handed id, ?_⟩
        rintro _ _ ⟨⟩
        exact h.slot id q hs

theorem Holds.answer (h : m.Holds P) (a : Answer α) : (m.answer id a).Holds P :=
  h.modify fun _ => rfl

theorem Holds.wakeWaiting (h : m.Holds P) : m.wakeWaiting.Holds P := by
  refine ⟨fun c hc => ?_, h.slot⟩
  obtain ⟨d, hd, rfl⟩ := List.mem_map.mp hc
  split
  · exact h.callers d hd
  · exact h.callers d hd

theorem Holds.tryExit (h : m.Holds P) (action : ResumeAction) : (m.tryExit action).2.Holds P := by
  unfold Mailbox.tryExit
  split
  · exact h
  · exact Holds.wakeWaiting ⟨h.callers, h.slot⟩

theorem Holds.dispose (h : m.Holds P) : m.dispose.Holds P := by
  unfold Mailbox.dispose
  split
  · exact h
  · simp only []
    split
    · refine Holds.wakeWaiting (Holds.answer ?_ _)
      exact h.empty rfl rfl
    · exact Holds.wakeWaiting ⟨h.callers, h.slot⟩

theorem Holds.attach (h : m.Holds P) (server : Nat) : (m.attach server).Holds P :=
  ⟨h.callers, h.slot⟩

end Mailbox

namespace FrameStack

variable {P : Request → Prop} {s t : FrameStack} {i flow : Nat} {pick : Bool}
  {isCancelled : Option Token → Bool}

/-- Something is true of every request in the mailboxes of the frames. -/
def Holds (P : Request → Prop) (s : FrameStack) : Prop :=
  ∀ i m, s.mailbox? i = some m → m.Holds P

theorem holds_new : FrameStack.new.Holds P := by
  intro i m hm
  cases i <;> cases hm

theorem Holds.modifyMailbox (h : s.Holds P) {f : Mailbox Request Response → Mailbox Request Response}
    (keeps : ∀ m, s.mailbox? i = some m → m.Holds P → (f m).Holds P) :
    (s.modifyMailbox i f).Holds P := by
  intro j m hm
  rw [mailbox?_modifyMailbox] at hm
  split at hm
  · next same =>
    subst same
    obtain ⟨n, hn, rfl⟩ := Option.map_eq_some_iff.mp hm
    exact keeps n hn (h j n hn)
  · exact h j m hm

theorem Holds.grow (h : s.Holds P) (grows : s.Grows t) : t.Holds P := by
  intro j m hm
  rcases grows.new hm with old | rfl
  · exact h j m old
  · exact Mailbox.holds_new

/-- No step on the frames makes something untrue of the requests in mailboxes, unless it puts one in. -/
theorem Holds.perform {op : FrameOp} {r : op.Reply} (h : s.Holds P)
    (hp : s.perform flow isCancelled pick op = some (r, t))
    (asks : ∀ i ticket q, op = .ask i ticket q → P q) : t.Holds P := by
  cases op
  case current | live | hasExited | hasServer | isServer =>
    cases hp
    exact h
  case push =>
    cases hp
    exact h.grow (grows_push ..)
  case remove i =>
    obtain rfl : (s.remove i).2 = t := congrArg Prod.snd (Option.some.inj hp)
    exact h.grow grows_remove
  case dispose =>
    cases hp
    exact h.modifyMailbox fun _ _ => Mailbox.Holds.dispose
  case attach =>
    cases hp
    exact h.modifyMailbox fun _ _ hm => hm.attach flow
  case answer i ticket a =>
    cases hp
    exact h.modifyMailbox fun _ _ hm => hm.answer a
  case closeGate | release =>
    cases hp
    exact h.grow (grows_modify fun _ => rfl)
  case look i ticket caller =>
    simp only [FrameStack.perform] at hp
    split at hp
    · cases hp
      exact h
    · split at hp
      · cases hp
        exact h.grow (grows_modify fun _ => rfl)
      · cases hp
  case ask i ticket q =>
    simp only [FrameStack.perform] at hp
    split at hp
    · cases hp
      exact h
    · next m hm =>
      cases hp
      exact h.modifyMailbox fun _ _ _ => (h i m hm).ask (asks i ticket q rfl)
  case lookMail i ticket =>
    simp only [FrameStack.perform] at hp
    split at hp
    · cases hp
      exact h
    · next m hm =>
      split at hp
      · cases hp
        exact h.modifyMailbox fun _ _ _ => (h i m hm).look
      · cases hp
  case take i =>
    simp only [FrameStack.perform] at hp
    split at hp
    · cases hp
      exact h
    · next m hm =>
      obtain ⟨⟨next, n⟩, ht, e⟩ := Option.map_eq_some_iff.mp hp
      cases e
      exact h.modifyMailbox fun _ _ _ => ((h i m hm).take ht).1
  case tryExit i action =>
    simp only [FrameStack.perform] at hp
    split at hp
    · cases hp
      exact h
    · next m hm =>
      cases hp
      exact h.modifyMailbox fun _ _ _ => (h i m hm).tryExit action
  case awaitExit i =>
    simp only [FrameStack.perform] at hp
    split at hp
    · cases hp
      exact h
    · obtain ⟨_, -, e⟩ := Option.map_eq_some_iff.mp hp
      cases e
      exact h
  case awaitFinish i =>
    simp only [FrameStack.perform] at hp
    split at hp
    · cases hp
      exact h
    · split at hp
      · cases hp
        exact h
      · cases hp

/-- What is taken out of a mailbox was put in. -/
theorem Holds.take {ticket : Nat} {q : Request} (h : s.Holds P)
    (hp : s.perform flow isCancelled pick (.take i) = some (.request ticket q, t)) : P q := by
  simp only [FrameStack.perform] at hp
  split at hp
  · cases hp
  · next m hm =>
    obtain ⟨⟨next, n⟩, ht, e⟩ := Option.map_eq_some_iff.mp hp
    cases e
    exact ((h i m hm).take ht).2 ticket q rfl

end FrameStack

end SessionBroker
