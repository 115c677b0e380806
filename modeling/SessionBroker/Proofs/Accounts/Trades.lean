import SessionBroker.Proofs.Accounts.Terms

/-!
# Trades

The books stay right when numbers are given out, promises are made, kept, redeemed or broken, tasks
are scheduled or taken, and actions are put down or taken.
-/

namespace SessionBroker.Accounts

variable {h : History} {l l' : Ledger} {jobs : List Job} {all few : Multiset Stake} {s : FrameStack}
  {next p k n : Nat} {j : Job} {q : Request} {a x : Stake} {own : Multiset Stake} {payload : Payload}

/-! ## Tokens that do not matter -/

theorem count_other (other : a ≠ x) : ({x} + all : Multiset Stake).count a = all.count a := by
  rw [Multiset.count_add, Multiset.count_singleton, if_neg other, Nat.zero_add]

/-- A token of another kind counts for nothing. -/
theorem count_le_of_kind {P : Stake → Prop} (hx : ¬P x) (a : Stake) (ha : P a) :
    ({x} + all : Multiset Stake).count a ≤ all.count a := by
  refine (count_other ?_).le
  rintro rfl
  exact hx ha

theorem Pledged.ledger (b : Pledged h l jobs all) (promises : l'.promises = l.promises)
    (tasks : l'.tasks = l.tasks) : Pledged h l' jobs all := by
  obtain ⟨_, _, _, _, _⟩ := l'
  cases promises
  cases tasks
  exact ⟨b.length, b.claim, b.owed, b.task, b.claims, b.keepers, b.kept⟩

theorem Counted.addRan (b : Counted h l all) (ran : Ran h q) : Counted h l ({.ran q} + all) := by
  refine b.step (fun k => ?_) (fun k => (count_other (by simp)).le) le_rfl fun ha => ?_
  · refine Nat.add_le_add_left ?_ _
    rw [Multiset.countP_add]
    exact (Nat.zero_add _).le
  · rcases Multiset.mem_add.mp ha with ha | ha
    · cases Multiset.mem_singleton.mp ha
      exact ran
    · exact b.ran ha

theorem Computed.addDid {actions : List (Option Json.Value)} (b : Computed h actions all)
    (did : Did h n) : Computed h actions ({.did n} + all) where
  once m := by
    rw [count_other (by simp)]
    exact b.once m
  asked m := by
    rw [count_other (by simp)]
    exact b.asked m
  next m hm := by
    rw [count_other (by simp), count_other (by simp)]
    exact b.next m hm
  did ha := by
    rcases Multiset.mem_add.mp ha with ha | ha
    · cases Multiset.mem_singleton.mp ha
      exact did
    · exact b.did ha
  ends := b.ends

/-! ## Numbers -/

theorem Mailed.ticket (b : Mailed h s next all) (new : a = .fresh next ∨ ∃ q, a = .right q) :
    Mailed h s (next + 1) ({a} + all) := by
  have old : ∀ c ∈ ({a} + all : Multiset Stake), c ≠ a → c ∈ all := fun c hc other =>
    (Multiset.mem_add.mp hc).resolve_left fun ha => other (Multiset.mem_singleton.mp ha)
  have notMail : ∀ c, c ≠ .fresh next → c.IsMail → c ≠ a := by
    rintro c other mail rfl
    obtain rfl | ⟨q, rfl⟩ := new
    · exact other rfl
    · exact mail
  refine ⟨fun hm => ?_, fun {n} hn i m hm e he => ?_, fun ha => ?_, fun ha => ?_, fun i t q => ?_,
    fun i t q => ?_⟩
  · have box := b.box hm
    exact { box with below := fun e he => (box.below e he).trans (Nat.lt_succ_self _) }
  · by_cases mine : n = next
    · subst mine
      exact ((b.box hm).below e he).ne
    · exact b.fresh (old _ hn (notMail _ (by simpa using mine) trivial)) hm e he
  · exact b.deposit (old _ ha (notMail _ (by simp) trivial))
  · exact b.duty (old _ ha (notMail _ (by simp) trivial))
  · exact (count_other (notMail (.deposit i t q) (by simp) trivial)).le.trans (b.deposits i t q)
  · exact (count_other (notMail (.duty i t q) (by simp) trivial)).le.trans (b.duties i t q)

theorem Balanced.ticket (b : Balanced h l all)
    (new : a = .fresh l.next ∨ ∃ q : Request, q.call = l.next ∧ a = .right q) :
    Balanced h { l with next := l.next + 1 } ({a} + all) := by
  have notPledge : ¬a.IsPledge := by obtain rfl | ⟨q, -, rfl⟩ := new <;> exact id
  have notAction : ¬a.IsAction := by obtain rfl | ⟨q, -, rfl⟩ := new <;> exact id
  obtain ⟨⟨jobs, pledged⟩, mailed, counted, computed⟩ := b
  exact ⟨⟨jobs, (pledged.less (count_le_of_kind notPledge)).ledger rfl rfl⟩,
    mailed.ticket (new.imp_right fun ⟨q, _, hq⟩ => ⟨q, hq⟩), counted.ticket new,
    computed.less (count_le_of_kind notAction)⟩

/-! ## Promises -/

theorem isBroken_append (ps : List Promise) (p : Nat) :
    isBroken (ps ++ [.open])[p]? = isBroken ps[p]? := by
  rcases Nat.lt_or_ge p ps.length with bound | bound
  · rw [List.getElem?_append_left bound]
  · rw [List.getElem?_append_right bound, List.getElem?_eq_none bound]
    cases p - ps.length <;> rfl

@[simp] theorem isRight_append (ps : List Promise) (a : Stake) :
    isRight (ps ++ [.open]) k a = isRight ps k a := by
  cases a with
  | claim p j =>
    cases j with
    | command q => simp [isBroken_append]
    | _ => rfl
  | _ => rfl

theorem Balanced.promise (b : Balanced h l all) :
    Balanced h { l with promises := l.promises ++ [.open] } ({.owed l.promises.length .other} + all) := by
  obtain ⟨⟨jobs, pledged⟩, mailed, counted, computed⟩ := b
  refine ⟨⟨jobs ++ [.other], ?_⟩, mailed.less (count_le_of_kind id), ?_,
    computed.less (count_le_of_kind id)⟩
  · have here : (jobs ++ [Job.other])[l.promises.length]? = some .other := by
      simp [← pledged.length]
    refine (pledged.promise .other).addOwed here ?_
    obtain ⟨-, owed, tasks⟩ := pledged.unmade
    have none : l.tasks.countP (·.promise = l.promises.length) = 0 :=
      List.countP_eq_zero.mpr fun t ht => by simpa using tasks t ht
    rw [Multiset.count_eq_zero.mpr (owed .other)]
    exact (Nat.zero_add _).trans none
  · refine (counted.less (count_le_of_kind id)).step (fun k => ?_) (fun _ => le_rfl) le_rfl
      fun ha => counted.ran ((Multiset.mem_add.mp ha).resolve_left (by simp))
    simp [uses]

theorem Gives.fits (gives : Gives j payload own) (counted : Counted h l (own + all))
    (computed : Computed h l.actions (own + all)) : Fits h j payload := by
  cases j with
  | command q =>
    cases payload with
    | response r =>
      obtain ⟨run, rfl⟩ := gives
      exact ⟨r, rfl, run, counted.ran (Multiset.mem_add.mpr (.inl (Multiset.mem_singleton_self _)))⟩
    | _ => exact gives.elim
  | action n =>
    cases payload with
    | value v =>
      obtain rfl : own = if v.isSome then {.did n} else 0 := gives
      refine ⟨v, rfl, fun some => computed.did ?_⟩
      simp [some]
    | _ => exact gives.elim
  | other => trivial

theorem Balanced.keep (b : Balanced h l ({.owed p j} + own + all)) (gives : Gives j payload own) :
    Balanced h { l with promises := l.promises.set p (.kept payload) } all := by
  have owed : .owed p j ∈ ({.owed p j} + own + all : Multiset Stake) := by simp
  have le : all ≤ {.owed p j} + own + all := Multiset.le_add_left _ _
  have le' : own + all ≤ {.owed p j} + own + all := by
    rw [add_assoc]
    exact Multiset.le_add_left _ _
  have fewer := b.less fun a => Multiset.count_le_of_le a le
  have fewer' := b.less fun a => Multiset.count_le_of_le a le'
  have fits := gives.fits fewer'.counted fewer'.computed
  obtain ⟨jobs, pledged⟩ := b.pledged
  have mine := pledged.owed owed
  refine ⟨⟨jobs, (pledged.less fun a _ => Multiset.count_le_of_le a le).set p ?_⟩, fewer.mailed,
    fewer.counted.keep p payload, fewer.computed⟩
  rintro _ ⟨⟩ j' hj
  rw [mine] at hj
  cases hj
  exact fits

/-- Who has a claim gets what he was promised, or the right to go on himself. -/
theorem Balanced.redeem (b : Balanced h l ({.claim p j} + all)) {promise : Promise}
    (hp : l.promises[p]? = some promise) :
    (∀ payload, promise = .kept payload → ∃ got, Gives j payload got ∧ Balanced h l (got + all)) ∧
      (promise = .broken → ∃ got, Redeems j none got ∧ Balanced h l (got + all)) := by
  have fewer : Balanced h l (0 + all) := b.less fun a => by
    rw [zero_add]
    exact Multiset.count_le_of_le a (Multiset.le_add_left _ _)
  obtain ⟨jobs, pledged⟩ := b.pledged
  have mine : jobs[p]? = some j := pledged.claim (by simp)
  have give : ∀ x : Stake, ¬x.IsPledge → ¬x.IsMail → Counted h l ({x} + all) →
      Computed h l.actions ({x} + all) → Balanced h l ({x} + all) := by
    intro x notPledge notMail counted computed
    rw [zero_add] at fewer
    obtain ⟨jobs, pledged⟩ := fewer.pledged
    exact ⟨⟨jobs, pledged.less (count_le_of_kind notPledge)⟩,
      fewer.mailed.less (count_le_of_kind notMail), counted, computed⟩
  have counted := (zero_add all ▸ fewer).counted
  have computed := (zero_add all ▸ fewer).computed
  constructor
  · rintro payload rfl
    have fits := pledged.kept hp mine
    cases j with
    | command q =>
      obtain ⟨r, rfl, run, ran⟩ := fits
      exact ⟨{.ran q}, ⟨run, rfl⟩, give _ id id (counted.addRan ran)
        (computed.less (count_le_of_kind id))⟩
    | action n =>
      obtain ⟨v, rfl, did⟩ := fits
      cases v with
      | none => exact ⟨0, rfl, fewer⟩
      | some v =>
        exact ⟨{Stake.did n}, rfl, give _ id id (counted.less (count_le_of_kind id))
          (computed.addDid (did rfl))⟩
    | other => exact ⟨0, rfl, fewer⟩
  · rintro rfl
    cases j with
    | command q =>
      refine ⟨{Stake.right q}, rfl, give _ id id ?_ (computed.less (count_le_of_kind id))⟩
      refine b.counted.step (fun k => ?_) (fun k => ?_) le_rfl fun ha => ?_
      · refine Nat.add_le_add_left ?_ _
        rw [Multiset.countP_add, Multiset.countP_add, countP_single, countP_single]
        simp [hp, isBroken]
      · rw [count_other (by simp), count_other (by simp)]
      · exact counted.ran ((Multiset.mem_add.mp ha).resolve_left (by simp))
    | action n => exact ⟨0, rfl, fewer⟩
    | other => exact ⟨0, rfl, fewer⟩

/-! ## Tasks -/

theorem countP_price (ps : List Promise) (k : Nat) (task : IdleTask) :
    (price task.work).countP (fun a => isRight ps k a) = (runsFor k task).toNat := by
  obtain ⟨promise, work⟩ := task
  cases work with
  | command frame e q => exact countP_single _ _
  | _ => rfl

theorem mem_price {work : IdleWork} (ha : a ∈ price work) : ∃ q, a = .right q := by
  cases work with
  | command frame e q => exact ⟨q, Multiset.mem_singleton.mp ha⟩
  | _ => exact absurd ha (Multiset.notMem_zero a)

theorem count_price {work : IdleWork} (other : ∀ q, a ≠ .right q) :
    (price work + all).count a = all.count a := by
  rw [Multiset.count_add, Multiset.count_eq_zero.mpr fun ha => ?_, Nat.zero_add]
  obtain ⟨q, hq⟩ := mem_price ha
  exact other q hq

theorem Balanced.schedule {work : IdleWork} (b : Balanced h l (price work + all)) :
    Balanced h
      { l with
        tasks := l.tasks ++ [⟨l.promises.length, work⟩]
        promises := l.promises ++ [.open] }
      ({.claim l.promises.length (jobOf work)} + all) := by
  have fewer : Balanced h l all := b.less fun a => Multiset.count_le_of_le a (Multiset.le_add_left _ _)
  obtain ⟨⟨jobs, pledged⟩, mailed, counted, computed⟩ := fewer
  refine ⟨⟨jobs ++ [jobOf work], ?_⟩, mailed.less (count_le_of_kind id), ?_,
    computed.less (count_le_of_kind id)⟩
  · have here : (jobs ++ [jobOf work])[l.promises.length]? = some (jobOf work) := by
      simp [← pledged.length]
    obtain ⟨claims, owed, tasks⟩ := pledged.unmade
    refine ((pledged.promise (jobOf work)).addClaim here claims).addTask here (fun j ha => ?_) tasks
    exact owed j ((Multiset.mem_add.mp ha).resolve_left (by simp))
  · refine b.counted.step (fun k => ?_) (fun k => ?_) le_rfl fun ha => ?_
    · have claim : ({.claim l.promises.length (jobOf work)} : Multiset Stake).countP
          (fun a => isRight l.promises k a) = 0 := by
        rw [countP_single]
        cases work <;> simp [jobOf, isRight, isBroken]
      have paid := countP_price l.promises k ⟨l.promises.length, work⟩
      have put := countP_cons_toNat (runsFor k) ⟨l.promises.length, work⟩ []
      simp only [uses, List.countP_append, Multiset.countP_add, isRight_append]
      rw [claim, paid, put, List.countP_nil]
      omega
    · rw [count_other (by simp), count_price (by simp)]
    · exact counted.ran ((Multiset.mem_add.mp ha).resolve_left (by simp))

theorem Balanced.takeTask {task : IdleTask} {rest : List IdleTask} (b : Balanced h l all)
    (ht : l.tasks = task :: rest) :
    Balanced h { l with tasks := rest } ({.owed task.promise (jobOf task.work)} + price task.work + all) := by
  obtain ⟨⟨jobs, pledged⟩, mailed, counted, computed⟩ := b
  have irrelevant : ∀ a, (∀ q, a ≠ .right q) → (∀ p j, a ≠ .owed p j) →
      ({.owed task.promise (jobOf task.work)} + price task.work + all : Multiset Stake).count a =
        all.count a := by
    intro a notRight notOwed
    rw [add_assoc, count_other (notOwed _ _), count_price notRight]
  refine ⟨⟨jobs, ?_⟩, mailed.less fun a ha => (irrelevant a ?_ ?_).le, ?_,
    computed.less fun a ha => (irrelevant a ?_ ?_).le⟩
  · have here := pledged.task task (by rw [ht]; exact List.mem_cons_self)
    obtain ⟨dropped, none⟩ := pledged.dropTask ht
    rw [add_assoc]
    have paid : Pledged h { l with tasks := rest } jobs (price task.work + all) :=
      dropped.less fun a ha => (count_price fun q hq => by rw [hq] at ha; exact ha).le
    refine paid.addOwed here ?_
    rw [count_price (by simp)]
    exact none _
  · rintro q rfl
    exact ha
  · rintro p j rfl
    exact ha
  · refine counted.step (fun k => ?_) (fun k => (irrelevant _ (by simp) (by simp)).le) le_rfl fun ha => ?_
    · have paid := countP_price l.promises k task
      have owed : ({.owed task.promise (jobOf task.work)} : Multiset Stake).countP
          (fun a => isRight l.promises k a) = 0 := rfl
      simp only [uses, ht, countP_cons_toNat, Multiset.countP_add]
      rw [owed, paid]
      omega
    · rw [add_assoc] at ha
      have ha := (Multiset.mem_add.mp ha).resolve_left (by simp)
      refine counted.ran ((Multiset.mem_add.mp ha).resolve_left fun hp => ?_)
      obtain ⟨q, hq⟩ := mem_price hp
      cases hq
  · rintro q rfl
    exact ha
  · rintro p j rfl
    exact ha

theorem Balanced.breakAll {tasks : List IdleTask} (b : Balanced h l all) (ht : l.tasks = tasks) :
    Balanced h { l with tasks := [], promises := World.breakAll l.promises tasks } all := by
  induction tasks generalizing l with
  | nil =>
    have same : { l with tasks := [], promises := World.breakAll l.promises [] } = l := by
      obtain ⟨_, _, _, _, _⟩ := l
      cases ht
      rfl
    rw [same]
    exact b
  | cons task rest ih =>
    obtain ⟨⟨jobs, pledged⟩, mailed, counted, computed⟩ := b
    have broken : Balanced h
        { l with tasks := rest, promises := l.promises.set task.promise .broken } all :=
      ⟨⟨jobs, (pledged.dropTask ht).1.set task.promise (by rintro _ ⟨⟩)⟩, mailed,
        counted.break pledged ht, computed⟩
    exact ih broken rfl

/-! ## Actions -/

theorem Balanced.offer (b : Balanced h l all) (v : Json.Value) :
    Balanced h { l with actions := l.actions ++ [some v] } ({.offered l.actions.length} + all) := by
  obtain ⟨⟨jobs, pledged⟩, mailed, counted, computed⟩ := b
  exact ⟨⟨jobs, (pledged.less (count_le_of_kind id)).ledger rfl rfl⟩, mailed.less (count_le_of_kind id),
    (counted.less (count_le_of_kind id)).step (fun _ => le_rfl) (fun _ => le_rfl) le_rfl
      fun ha => counted.ran ((Multiset.mem_add.mp ha).resolve_left (by simp)),
    computed.offer v⟩

theorem Balanced.takeAction (b : Balanced h l all) (n : Nat) :
    Balanced h { l with actions := l.actions.set n none }
      ((if (l.actions[n]?).join.isSome then {.taken n} else 0) + all) := by
  obtain ⟨⟨jobs, pledged⟩, mailed, counted, computed⟩ := b
  have irrelevant : ∀ {P : Stake → Prop}, ¬P (.taken n) → ∀ a, P a →
      ((if (l.actions[n]?).join.isSome then {.taken n} else 0) + all : Multiset Stake).count a ≤
        all.count a := by
    intro P notThat a ha
    split
    · exact count_le_of_kind notThat a ha
    · rw [zero_add]
  have fewer := counted.less (irrelevant id)
  exact ⟨⟨jobs, (pledged.less (irrelevant id)).ledger rfl rfl⟩, mailed.less (irrelevant id),
    fewer.step (fun _ => le_rfl) (fun _ => le_rfl) le_rfl fewer.ran, computed.take n⟩

end SessionBroker.Accounts
