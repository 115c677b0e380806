import SessionBroker.Proofs.Accounts.Tokens

/-!
# Mail in the books

What each step on a mailbox does to the books: a request is put down, handed over, answered or given
back to the one who waits for it.
-/

namespace SessionBroker.Accounts

open Mailbox

variable {h : History} {all : Multiset Stake} {s s' : FrameStack} {next i t k : Nat} {q : Request}
  {m n : Mailbox Request Response} {e : Caller Request Response} {stage : Stage Response}

/-! ## One mailbox -/

theorem box_new : Box h next (.new : Mailbox Request Response) where
  tidy := tidy_new
  manned hs := by cases hs
  told e he := by cases he
  below e he := by cases he

theorem Box.fresh (b : Box h next m) (away : ∀ e ∈ m.entries, e.id ≠ t) : m.Fresh t := by
  refine ⟨fun c hc => away c.entry (entry_mem hc), fun q hs => ?_⟩
  obtain ⟨e, he, rfl⟩ := b.manned hs
  exact away e he rfl

theorem Box.unique (b : Box h next m) : (m.entries.map (·.id)).Nodup := ids_entries ▸ b.tidy.unique

theorem Box.same (b : Box h next m) (he : e ∈ m.entries) {d : Caller Request Response}
    (hd : d ∈ m.entries) (same : e.id = d.id) : e = d :=
  List.inj_on_of_nodup_map b.unique he hd same

/-- Only what is posted is in the slot. -/
theorem Box.posted (b : Box h next m) (he : e ∈ m.entries) (hs : m.slot = some (e.id, q)) :
    e.stage = .posted ∧ e.request = q := by
  obtain ⟨c, hc, rfl⟩ := mem_entries.mp he
  have request := b.tidy.slot_request c hc q hs
  subst request
  exact ⟨(b.tidy.posted_iff c hc).mpr hs, rfl⟩

theorem Box.same_entries (b : Box h next m) (tidy : n.Tidy) (entries : n.entries = m.entries)
    (slot : n.slot = m.slot) : Box h next n where
  tidy := tidy
  manned hs := by
    rw [entries]
    exact b.manned (slot ▸ hs)
  told e he := b.told e (entries ▸ he)
  below e he := b.below e (entries ▸ he)

theorem Box.append (b : Box h next m) (tidy : n.Tidy) (bound : t < next)
    (pending : ∀ a, stage ≠ .answered a) (entries : n.entries = m.entries ++ [⟨t, q, stage, false⟩])
    (slot : n.slot = m.slot ∨ n.slot = some (t, q)) : Box h next n where
  tidy := tidy
  manned := by
    intro t' q' hs
    rw [entries]
    rcases slot with slot | slot
    · obtain ⟨e, he, same⟩ := b.manned (slot ▸ hs)
      exact ⟨e, List.mem_append_left _ he, same⟩
    · rw [slot] at hs
      cases hs
      exact ⟨_, List.mem_append_right _ List.mem_cons_self, rfl⟩
  told e he r hr := by
    rw [entries] at he
    rcases List.mem_append.mp he with he | he
    · exact b.told e he r hr
    · rw [List.mem_singleton.mp he] at hr
      exact absurd hr (pending _)
  below e he := by
    rw [entries] at he
    rcases List.mem_append.mp he with he | he
    · exact b.below e he
    · rw [List.mem_singleton.mp he]
      exact bound

theorem Box.filter (b : Box h next m) (tidy : n.Tidy) (he : e ∈ m.entries) (notPosted : e.stage ≠ .posted)
    (entries : n.entries = m.entries.filter (·.id ≠ e.id)) (slot : n.slot = m.slot) :
    Box h next n where
  tidy := tidy
  manned := by
    intro t' q' hs
    obtain ⟨d, hd, rfl⟩ := b.manned (slot ▸ hs)
    rw [entries]
    refine ⟨d, List.mem_filter.mpr ⟨hd, ?_⟩, rfl⟩
    have other : d.id ≠ e.id := fun same =>
      notPosted (b.same hd he same ▸ (b.posted hd (slot ▸ hs)).1)
    simpa using other
  told d hd := b.told d (List.mem_filter.mp (entries ▸ hd)).1
  below d hd := b.below d (List.mem_filter.mp (entries ▸ hd)).1

theorem Box.setStage (b : Box h next m) (tidy : n.Tidy) (he : e ∈ m.entries)
    (entries : n.entries = setStage m.entries e.id stage)
    (slot : n.slot = none ∨ n.slot = m.slot ∨ ∃ q, n.slot = some (e.id, q))
    (told : ∀ r, stage = .answered (.served r) →
      hasRun r ∧ Ran h e.request ∨ r = .error .frameExited) : Box h next n where
  tidy := tidy
  manned := by
    intro t' q' hs
    have kept : ∀ d ∈ m.entries, ∃ d' ∈ n.entries, d'.id = d.id := by
      intro d hd
      by_cases mine : d.id = e.id
      · exact ⟨{ d with stage := stage }, entries ▸ mem_setStage.mpr ⟨d, hd, .inl ⟨mine, rfl⟩⟩, rfl⟩
      · exact ⟨d, entries ▸ mem_setStage.mpr ⟨d, hd, .inr ⟨mine, rfl⟩⟩, rfl⟩
    rcases slot with slot | slot | ⟨q, slot⟩
    · rw [slot] at hs
      cases hs
    · obtain ⟨d, hd, rfl⟩ := b.manned (slot ▸ hs)
      exact kept d hd
    · rw [slot] at hs
      cases hs
      exact kept e he
  told d hd r hr := by
    rw [entries] at hd
    obtain ⟨c, hc, ⟨mine, rfl⟩ | ⟨-, rfl⟩⟩ := mem_setStage.mp hd
    · rw [b.same hc he mine]
      exact told r hr
    · exact b.told d hc r hr
  below d hd := by
    rw [entries] at hd
    obtain ⟨c, hc, ⟨-, rfl⟩ | ⟨-, rfl⟩⟩ := mem_setStage.mp hd
    · exact b.below c hc
    · exact b.below d hc

/-- What a mailbox holds changes with the stage of one entry. -/
theorem Box.rights_setStage (b : Box h next m) (he : e ∈ m.entries)
    (entries : n.entries = Mailbox.setStage m.entries e.id stage) (k : Nat) :
    n.rights k + (holds k e).toNat = m.rights k + (holds k { e with stage := stage }).toNat := by
  have changed := countP_setStage (k := k) b.unique he stage
  rwa [← entries] at changed

/-! ## All mailboxes -/

theorem Mailed.grow (b : Mailed h s next all) (grows : s.Grows s') : Mailed h s' next all where
  box hm := by
    rcases grows.new hm with hm | rfl
    · exact b.box hm
    · exact box_new
  fresh ha _ m hm e he := by
    rcases grows.new hm with hm | rfl
    · exact b.fresh ha hm e he
    · cases he
  deposit ha := by
    obtain ⟨m, hm, known⟩ := b.deposit ha
    exact ⟨m, grows.old hm, known⟩
  duty ha := by
    obtain ⟨m, hm, known⟩ := b.duty ha
    exact ⟨m, grows.old hm, known⟩
  deposits := b.deposits
  duties := b.duties

theorem Mailed.known_deposit (b : Mailed h s next all) (hm : s.mailbox? i = some m)
    (ha : .deposit i t q ∈ all) : ∃ e ∈ m.entries, e.id = t ∧ e.request = q := by
  obtain ⟨m', hm', known⟩ := b.deposit ha
  rw [hm] at hm'
  cases hm'
  exact known

theorem Mailed.known_duty (b : Mailed h s next all) (hm : s.mailbox? i = some m)
    (ha : .duty i t q ∈ all) : ∃ e ∈ m.entries, e.id = t ∧ e.stage = .handedOver ∧ e.request = q := by
  obtain ⟨m', hm', known⟩ := b.duty ha
  rw [hm] at hm'
  cases hm'
  exact known

/-- One mailbox changes. Those who wait in it wait on, unless they gave up their claims, and so do
those who serve it. -/
theorem Mailed.move {few : Multiset Stake} (b : Mailed h s next all) (moves : s.Moves s' i m n)
    (box : Box h next n)
    (fresh : ∀ {x}, .fresh x ∈ few → .fresh x ∈ all ∧ ∀ e ∈ n.entries, e.id ≠ x)
    (deposit : ∀ {j x q}, .deposit j x q ∈ few → .deposit j x q ∈ all ∨
      j = i ∧ ∃ e ∈ n.entries, e.id = x ∧ e.request = q)
    (waits : ∀ e ∈ m.entries, .deposit i e.id e.request ∈ few →
      ∃ d ∈ n.entries, d.id = e.id ∧ d.request = e.request)
    (duty : ∀ {j x q}, .duty j x q ∈ few → .duty j x q ∈ all)
    (serves : ∀ e ∈ m.entries, e.stage = .handedOver → .duty i e.id e.request ∈ few → e ∈ n.entries)
    (deposits : ∀ j x q, few.count (.deposit j x q) ≤ 1)
    (duties : ∀ j x q, few.count (.duty j x q) ≤ 1) : Mailed h s' next few where
  box := by
    intro j m' hm
    rw [moves.after] at hm
    split at hm
    · cases hm
      exact box
    · exact b.box hm
  fresh := by
    intro x ha j m' hm e he
    rw [moves.after] at hm
    split at hm
    · cases hm
      exact (fresh ha).2 e he
    · exact b.fresh (fresh ha).1 hm e he
  deposit := by
    intro j x q ha
    rcases deposit ha with was | ⟨rfl, known⟩
    · by_cases mine : j = i
      · subst mine
        obtain ⟨e, he, rfl, rfl⟩ := b.known_deposit moves.before was
        exact ⟨n, by rw [moves.after, if_pos rfl], waits e he ha⟩
      · obtain ⟨m', hm, known⟩ := b.deposit was
        exact ⟨m', by rw [moves.after, if_neg mine, hm], known⟩
    · exact ⟨n, by rw [moves.after, if_pos rfl], known⟩
  duty := by
    intro j x q ha
    by_cases mine : j = i
    · subst mine
      obtain ⟨e, he, rfl, handed, rfl⟩ := b.known_duty moves.before (duty ha)
      exact ⟨n, by rw [moves.after, if_pos rfl], e, serves e he handed ha, rfl, handed, rfl⟩
    · obtain ⟨m', hm, known⟩ := b.duty (duty ha)
      exact ⟨m', by rw [moves.after, if_neg mine, hm], known⟩
  deposits := deposits
  duties := duties

theorem Mailed.same (b : Mailed h s next all) (moves : s.Moves s' i m n) (tidy : n.Tidy)
    (entries : n.entries = m.entries) (slot : n.slot = m.slot) : Mailed h s' next all := by
  have hm := moves.before
  have stays : ∀ e ∈ m.entries, e ∈ n.entries := fun e he => entries ▸ he
  exact b.move moves ((b.box hm).same_entries tidy entries slot)
    (fun ha => ⟨ha, fun e he => b.fresh ha hm e (entries ▸ he)⟩) .inl
    (fun e he _ => ⟨e, stays e he, rfl, rfl⟩) id (fun e he _ _ => stays e he) b.deposits b.duties

/-- One entry goes on to another stage, which no one has a duty about. -/
theorem Mailed.setStage (b : Mailed h s next all) (moves : s.Moves s' i m n)
    (box : Box h next n) (entries : n.entries = Mailbox.setStage m.entries e.id stage)
    (free : ∀ q, .duty i e.id q ∉ all) : Mailed h s' next all := by
  have hm := moves.before
  refine b.move moves box (fun ha => ⟨ha, fun d hd => ?_⟩) .inl (fun d hd _ => ?_) id
    (fun d hd _ ha => ?_) b.deposits b.duties
  · rw [entries] at hd
    obtain ⟨c, hc, ⟨-, rfl⟩ | ⟨-, rfl⟩⟩ := mem_setStage.mp hd
    · exact b.fresh ha hm c hc
    · exact b.fresh ha hm d hc
  · rw [entries]
    by_cases same : d.id = e.id
    · exact ⟨_, mem_setStage.mpr ⟨d, hd, .inl ⟨same, rfl⟩⟩, rfl, rfl⟩
    · exact ⟨d, mem_setStage.mpr ⟨d, hd, .inr ⟨same, rfl⟩⟩, rfl, rfl⟩
  · have other : d.id ≠ e.id := fun same => free _ (same ▸ ha)
    rw [entries]
    exact mem_setStage.mpr ⟨d, hd, .inr ⟨other, rfl⟩⟩

theorem Mailed.no_duty (b : Mailed h s next all) (hm : s.mailbox? i = some m) (he : e ∈ m.entries)
    (notHanded : e.stage ≠ .handedOver) (q : Request) : .duty i e.id q ∉ all := by
  intro ha
  obtain ⟨d, hd, same, handed, -⟩ := b.known_duty hm ha
  exact notHanded ((b.box hm).same hd he same ▸ handed)

/-! ## Operations -/

theorem Mailed.ask (b : Mailed h s next ({.fresh t} + all)) (single : .fresh t ∉ all)
    (bound : t < next) (moves : s.Moves s' i m n) (asked : m.ask t q = (none, n)) :
    Mailed h s' next ({.deposit i t q} + all) := by
  have hm := moves.before
  have box := b.box hm
  have away : ∀ e ∈ m.entries, e.id ≠ t :=
    b.fresh (Multiset.mem_add.mpr (.inl (Multiset.mem_singleton_self _))) hm
  have fresh := box.fresh away
  have tidy : n.Tidy := by
    have joined := box.tidy.ask fresh q
    rwa [asked] at joined
  obtain ⟨refused, -⟩ | ⟨-, entries⟩ := ask_entries fresh asked
  · cases refused
  obtain ⟨stage, pending, entries, slot⟩ : ∃ stage : Stage Response, (∀ a, stage ≠ .answered a) ∧
      n.entries = m.entries ++ [⟨t, q, stage, false⟩] ∧ (n.slot = m.slot ∨ n.slot = some (t, q)) := by
    rcases entries with ⟨entries, slot⟩ | ⟨entries, slot⟩
    · exact ⟨.waiting, by simp, entries, .inl slot⟩
    · exact ⟨.posted, by simp, entries, .inr slot⟩
  have old : ∀ d ∈ m.entries, d ∈ n.entries := fun d hd => entries ▸ List.mem_append_left _ hd
  have rest : ∀ {a : Stake}, a ∈ ({.deposit i t q} + all) → a ≠ .deposit i t q → a ∈ all := by
    intro a ha other
    rcases Multiset.mem_add.mp ha with ha | ha
    · exact absurd (Multiset.mem_singleton.mp ha) other
    · exact ha
  have more : ∀ {a : Stake}, a ∈ all → a ∈ ({.fresh t} + all) := fun ha => Multiset.mem_add.mpr (.inr ha)
  refine b.move moves (box.append tidy bound pending entries slot) (fun {x} ha => ?_)
    (fun {j x q'} ha => ?_) (fun d hd _ => ⟨d, old d hd, rfl, rfl⟩)
    (fun ha => more (rest ha (by simp))) (fun d hd _ _ => old d hd) (fun j x q' => ?_)
    (fun j x q' => ?_)
  · have ha := rest ha (by simp)
    refine ⟨more ha, fun d hd => ?_⟩
    rw [entries] at hd
    rcases List.mem_append.mp hd with hd | hd
    · exact b.fresh (more ha) hm d hd
    · rw [List.mem_singleton.mp hd]
      rintro rfl
      exact single ha
  · by_cases new : Stake.deposit j x q' = .deposit i t q
    · cases new
      exact .inr ⟨rfl, _, entries ▸ List.mem_append_right _ List.mem_cons_self, rfl, rfl⟩
    · exact .inl (more (rest ha new))
  · have before := b.deposits j x q'
    rw [Multiset.count_add, Multiset.count_singleton] at before ⊢
    split
    · next new =>
      cases new
      have none : all.count (.deposit i t q) = 0 := Multiset.count_eq_zero.mpr fun ha => by
        obtain ⟨d, hd, same, -⟩ := b.known_deposit hm (more ha)
        exact away d hd same
      rw [none]
    · rw [if_neg (by simp)] at before
      exact before
  · have before := b.duties j x q'
    rw [Multiset.count_add, Multiset.count_singleton, if_neg (by simp)] at before ⊢
    exact before

/-- One who looks and waits on keeps his claim. -/
theorem Mailed.look_on (b : Mailed h s next all) (ha : .deposit i t q ∈ all)
    (moves : s.Moves s' i m n) (looked : m.look t = (none, n)) :
    Mailed h s' next all ∧ ∀ k, n.rights k = m.rights k := by
  have hm := moves.before
  have box := b.box hm
  have tidy : n.Tidy := by
    have stays := box.tidy.look t
    rwa [looked] at stays
  obtain ⟨d, hd, rfl, rfl⟩ := b.known_deposit hm ha
  obtain gone | ⟨e, he, same, ⟨a, none, -⟩ | ⟨-, ⟨entries, slot⟩ | ⟨waiting, entries, slot⟩⟩⟩ :=
    look_entries looked
  · exact absurd rfl (gone d hd)
  · cases none
  · exact ⟨b.same moves tidy entries slot, fun k => by rw [rights, entries, ← rights]⟩
  · rw [← same] at entries slot
    refine ⟨b.setStage moves (box.setStage tidy he entries (.inr (.inr ⟨_, slot⟩)) (by simp)) entries
      (b.no_duty hm he (by simp [waiting])), fun k => ?_⟩
    have changed := box.rights_setStage he entries k
    simpa [toNat_holds, waiting, Stage.isUnrun] using changed

/-- One who gets an answer leaves. -/
theorem Mailed.look_off (b : Mailed h s next ({.deposit i t q} + all)) {a : Answer Response}
    (moves : s.Moves s' i m n) (looked : m.look t = (some a, n)) : Mailed h s' next all ∧
      ∃ e ∈ m.entries, e.id = t ∧ e.request = q ∧ n.entries = m.entries.filter (·.id ≠ t) ∧
        (e.stage = .answered a ∨ e.stage = .waiting ∧ a = .refused) := by
  have hm := moves.before
  have box := b.box hm
  have tidy : n.Tidy := by
    have stays := box.tidy.look t
    rwa [looked] at stays
  have mine : Stake.deposit i t q ∈ ({.deposit i t q} + all : Multiset Stake) :=
    Multiset.mem_add.mpr (.inl (Multiset.mem_singleton_self _))
  have more : ∀ {a : Stake}, a ∈ all → a ∈ ({.deposit i t q} + all) := fun ha =>
    Multiset.mem_add.mpr (.inr ha)
  obtain ⟨d, hd, rfl, rfl⟩ := b.known_deposit hm mine
  obtain gone | ⟨e, he, same, ⟨_, answer, how, entries, slot⟩ | ⟨none, -⟩⟩ := look_entries looked
  · exact absurd rfl (gone d hd)
  · cases answer
    obtain rfl := box.same he hd same
    have notPosted : e.stage ≠ .posted := by
      rcases how with how | ⟨how, -⟩ <;> simp [how]
    have notHanded : e.stage ≠ .handedOver := by
      rcases how with how | ⟨how, -⟩ <;> simp [how]
    refine ⟨?_, e, he, rfl, rfl, entries, how⟩
    have stays : ∀ d ∈ m.entries, d.id ≠ e.id → d ∈ n.entries := fun d hd other =>
      entries ▸ List.mem_filter.mpr ⟨hd, by simpa using other⟩
    refine b.move moves (box.filter tidy he notPosted entries slot) (fun {x} ha => ?_)
      (fun ha => .inl (more ha)) (fun d hd ha => ⟨d, stays d hd fun same => ?_, rfl, rfl⟩) more
      (fun d hd handed _ => stays d hd fun same => ?_) (fun j x q' => ?_) (fun j x q' => ?_)
    · exact ⟨more ha, fun d hd => b.fresh (more ha) hm d (List.mem_filter.mp (entries ▸ hd)).1⟩
    · -- Nobody else waits for the same entry.
      obtain rfl := box.same hd he same
      have twice := b.deposits i d.id d.request
      rw [Multiset.count_add, Multiset.count_singleton_self] at twice
      have some := Multiset.count_pos.mpr ha
      omega
    · exact notHanded (box.same hd he same ▸ handed)
    · have fewer := b.deposits j x q'
      rw [Multiset.count_add] at fewer
      omega
    · have fewer := b.duties j x q'
      rw [Multiset.count_add] at fewer
      omega
  · cases none

theorem Mailed.handOver (b : Mailed h s next all) (hs : m.slot = some (t, q)) (open' : m.closed = false)
    (moves : s.Moves s' i m (m.handOver t)) : Mailed h s' next ({.duty i t q} + all) ∧
      ∃ e ∈ m.entries, e.id = t ∧ e.request = q ∧ e.stage = .posted := by
  have hm := moves.before
  have box := b.box hm
  obtain ⟨e, he, rfl⟩ := box.manned hs
  obtain ⟨posted, rfl⟩ := box.posted he hs
  obtain ⟨entries, slot⟩ := handOver_entries m e.id
  have free := b.no_duty hm he (by simp [posted])
  have handed := b.setStage moves
    (box.setStage (box.tidy.handOver hs open') he entries (.inl slot) (by simp)) entries free
  refine ⟨?_, e, he, rfl, rfl, posted⟩
  have stands : ∃ d ∈ (m.handOver e.id).entries,
      d.id = e.id ∧ d.stage = .handedOver ∧ d.request = e.request :=
    ⟨{ e with stage := .handedOver }, entries ▸ mem_setStage.mpr ⟨e, he, .inl ⟨rfl, rfl⟩⟩, rfl, rfl, rfl⟩
  refine ⟨handed.box, fun ha => handed.fresh ?_, fun ha => handed.deposit ?_, fun {j x q'} ha => ?_,
    fun j x q' => ?_, fun j x q' => ?_⟩
  · simpa using ha
  · simpa using ha
  · rcases Multiset.mem_add.mp ha with ha | ha
    · cases Multiset.mem_singleton.mp ha
      exact ⟨_, by rw [moves.after, if_pos rfl], stands⟩
    · exact handed.duty ha
  · rw [Multiset.count_add, Multiset.count_singleton, if_neg (by simp), Nat.zero_add]
    exact b.deposits j x q'
  · rw [Multiset.count_add, Multiset.count_singleton]
    split
    · next new =>
      cases new
      rw [Multiset.count_eq_zero.mpr (free e.request)]
    · rw [Nat.zero_add]
      exact b.duties j x q'

theorem Mailed.answer (b : Mailed h s next ({.duty i t q} + all)) {a : Answer Response}
    (told : ∀ r, a = .served r → hasRun r ∧ Ran h q ∨ r = .error .frameExited)
    (moves : s.Moves s' i m (m.answer t a)) : Mailed h s' next all ∧
      ∃ e ∈ m.entries, e.id = t ∧ e.request = q ∧ e.stage = .handedOver := by
  have hm := moves.before
  have box := b.box hm
  have mine : Stake.duty i t q ∈ ({.duty i t q} + all : Multiset Stake) :=
    Multiset.mem_add.mpr (.inl (Multiset.mem_singleton_self _))
  obtain ⟨e, he, rfl, handed, rfl⟩ := b.known_duty hm mine
  obtain ⟨entries, slot⟩ := answer_entries m e.id a
  have tidy : (m.answer e.id a).Tidy := by
    refine box.tidy.answer a fun c hc same => ?_
    obtain rfl : c.entry = e := box.same (entry_mem hc) he same
    have stage : c.stage = .handedOver := handed
    exact ⟨by simp [stage], by simp [stage]⟩
  -- There is no other duty about this entry.
  have free : ∀ q, .duty i e.id q ∉ all := by
    intro q ha
    obtain ⟨d, hd, same, -, rfl⟩ := b.known_duty hm (Multiset.mem_add.mpr (.inr ha))
    obtain rfl := box.same hd he same
    have twice := b.duties i d.id d.request
    rw [Multiset.count_add, Multiset.count_singleton_self] at twice
    have some := Multiset.count_pos.mpr ha
    omega
  have fewer : Mailed h s next all := b.less fun a _ => by
    rw [Multiset.count_add]
    exact Nat.le_add_left _ _
  refine ⟨fewer.setStage moves (box.setStage tidy he entries (.inr (.inl slot)) ?_) entries free,
    e, he, rfl, rfl, handed⟩
  intro r hr
  cases hr
  exact told r rfl

theorem Mailed.dispose (b : Mailed h s next all) (moves : s.Moves s' i m m.dispose) :
    Mailed h s' next all ∧ ∀ k, m.dispose.rights k = m.rights k := by
  have hm := moves.before
  have box := b.box hm
  obtain ⟨entries, slot⟩ | ⟨t, q, hs, entries, slot⟩ := dispose_entries m
  · exact ⟨b.same moves box.tidy.dispose entries slot, fun k => by rw [rights, entries, ← rights]⟩
  · obtain ⟨e, he, rfl⟩ := box.manned hs
    obtain ⟨posted, -⟩ := box.posted he hs
    refine ⟨b.setStage moves (box.setStage box.tidy.dispose he entries (.inl slot) (by simp)) entries
      (b.no_duty hm he (by simp [posted])), fun k => ?_⟩
    have changed := box.rights_setStage he entries k
    simpa [toNat_holds, posted, Stage.isUnrun] using changed

end SessionBroker.Accounts
