import SessionBroker.Proofs.Accounts.Tokens

/-!
# Entries in the books

What each step on the ledger does to the books: numbers that are given out, promises that are made,
kept or broken, tasks that are scheduled or taken, and actions.
-/

namespace SessionBroker.Accounts

variable {h : History} {l : Ledger} {jobs : List Job} {all : Multiset Stake} {s t : FrameStack}
  {next p k n i : Nat} {j : Job} {q : Request} {actions : List (Option Json.Value)}

/-! ## Promises -/

theorem Pledged.bound (b : Pledged h l jobs all) (hj : jobs[p]? = some j) : p < l.promises.length := by
  obtain ⟨bound, -⟩ := List.getElem?_eq_some_iff.mp hj
  exact b.length ▸ bound

theorem Pledged.promise (b : Pledged h l jobs all) (j : Job) :
    Pledged h { l with promises := l.promises ++ [.open] } (jobs ++ [j]) all := by
  have grown : ∀ {p : Nat} {j' : Job}, jobs[p]? = some j' → (jobs ++ [j])[p]? = some j' := by
    intro p j' hj
    obtain ⟨bound, -⟩ := List.getElem?_eq_some_iff.mp hj
    exact (List.getElem?_append_left bound).trans hj
  refine ⟨by simp [b.length], fun ha => grown (b.claim ha), fun ha => grown (b.owed ha),
    fun t ht => grown (b.task t ht), b.claims, b.keepers, ?_⟩
  intro p payload hp j' hj
  rcases Nat.lt_or_ge p l.promises.length with bound | bound
  · rw [List.getElem?_append_left bound] at hp
    rw [List.getElem?_append_left (b.length ▸ bound)] at hj
    exact b.kept hp hj
  · rw [List.getElem?_append_right bound] at hp
    have made := List.mem_of_getElem? hp
    simp at made

/-- Nobody has to do with a promise that is not made yet. -/
theorem Pledged.unmade (b : Pledged h l jobs all) :
    (∀ j, .claim l.promises.length j ∉ all) ∧ (∀ j, .owed l.promises.length j ∉ all)
      ∧ ∀ t ∈ l.tasks, t.promise ≠ l.promises.length := by
  refine ⟨fun j ha => ?_, fun j ha => ?_, fun t ht e => ?_⟩
  · exact lt_irrefl _ (b.bound (b.claim ha))
  · exact lt_irrefl _ (b.bound (b.owed ha))
  · exact lt_irrefl _ (e ▸ b.bound (b.task t ht))

theorem Pledged.addClaim (b : Pledged h l jobs all) (hj : jobs[p]? = some j)
    (none : ∀ j', .claim p j' ∉ all) : Pledged h l jobs ({.claim p j} + all) where
  length := b.length
  claim ha := by
    rcases Multiset.mem_add.mp ha with ha | ha
    · cases Multiset.mem_singleton.mp ha
      exact hj
    · exact b.claim ha
  owed ha := by
    rcases Multiset.mem_add.mp ha with ha | ha
    · cases Multiset.mem_singleton.mp ha
    · exact b.owed ha
  task := b.task
  claims p' j' := by
    rw [Multiset.count_add, Multiset.count_singleton]
    split
    · next same =>
      cases same
      rw [Multiset.count_eq_zero.mpr (none j)]
    · exact (Nat.zero_add _).le.trans (b.claims p' j')
  keepers p' j' := by
    rw [Multiset.count_add, Multiset.count_singleton, if_neg (by simp), Nat.zero_add]
    exact b.keepers p' j'
  kept := b.kept

theorem Pledged.addOwed (b : Pledged h l jobs all) (hj : jobs[p]? = some j)
    (none : all.count (.owed p j) + l.tasks.countP (·.promise = p) = 0) :
    Pledged h l jobs ({.owed p j} + all) where
  length := b.length
  claim ha := by
    rcases Multiset.mem_add.mp ha with ha | ha
    · cases Multiset.mem_singleton.mp ha
    · exact b.claim ha
  owed ha := by
    rcases Multiset.mem_add.mp ha with ha | ha
    · cases Multiset.mem_singleton.mp ha
      exact hj
    · exact b.owed ha
  task := b.task
  claims p' j' := by
    rw [Multiset.count_add, Multiset.count_singleton, if_neg (by simp), Nat.zero_add]
    exact b.claims p' j'
  keepers p' j' := by
    rw [Multiset.count_add, Multiset.count_singleton]
    split
    · next same =>
      cases same
      omega
    · rw [Nat.zero_add]
      exact b.keepers p' j'
  kept := b.kept

theorem Pledged.addTask (b : Pledged h l jobs all) {task : IdleTask}
    (hj : jobs[task.promise]? = some (jobOf task.work))
    (none : ∀ j, .owed task.promise j ∉ all) (alone : ∀ t ∈ l.tasks, t.promise ≠ task.promise) :
    Pledged h { l with tasks := l.tasks ++ [task] } jobs all where
  length := b.length
  claim := b.claim
  owed := b.owed
  task t ht := by
    rcases List.mem_append.mp ht with ht | ht
    · exact b.task t ht
    · rw [List.mem_singleton.mp ht]
      exact hj
  claims := b.claims
  keepers p j := by
    rw [List.countP_append]
    by_cases mine : p = task.promise
    · subst mine
      have others : l.tasks.countP (·.promise = task.promise) = 0 :=
        List.countP_eq_zero.mpr fun t ht => by simpa using alone t ht
      rw [Multiset.count_eq_zero.mpr (none j), others]
      simp
    · have zero : [task].countP (·.promise = p) = 0 := by simp [Ne.symm mine]
      rw [zero]
      exact b.keepers p j
  kept := b.kept

theorem Pledged.dropTask {task : IdleTask} {rest : List IdleTask} (b : Pledged h l jobs all)
    (ht : l.tasks = task :: rest) : Pledged h { l with tasks := rest } jobs all ∧
      ∀ j, all.count (.owed task.promise j) + rest.countP (·.promise = task.promise) = 0 := by
  refine ⟨⟨b.length, b.claim, b.owed, fun t hr => ?_, b.claims, fun p j => ?_, b.kept⟩, fun j => ?_⟩
  · exact b.task t (ht ▸ List.mem_cons_of_mem _ hr)
  · have before := b.keepers p j
    rw [ht, List.countP_cons] at before
    exact le_trans (by simp only; omega) before
  · have before := b.keepers task.promise j
    rw [ht, List.countP_cons] at before
    simp only [decide_true, if_true] at before
    omega

/-- A promise is kept as its job demands, or broken. -/
theorem Pledged.set (b : Pledged h l jobs all) (p : Nat) {promise : Promise}
    (fits : ∀ payload, promise = .kept payload → ∀ j, jobs[p]? = some j → Fits h j payload) :
    Pledged h { l with promises := l.promises.set p promise } jobs all where
  length := by simp [b.length]
  claim := b.claim
  owed := b.owed
  task := b.task
  claims := b.claims
  keepers := b.keepers
  kept := by
    intro p' payload hp j hj
    rw [List.getElem?_set] at hp
    split at hp
    · next same =>
      subst same
      split at hp
      · exact fits payload (Option.some.inj hp) j hj
      · cases hp
    · exact b.kept hp hj

/-! ## Requests that are run -/

@[simp] theorem isRight_fresh (ps : List Promise) : isRight ps k (.fresh n) = decide (n = k) := rfl
@[simp] theorem isRight_right (ps : List Promise) :
    isRight ps k (.right q) = decide (q.call = k) := rfl
@[simp] theorem isRight_claim (ps : List Promise) :
    isRight ps k (.claim p (.command q)) = (decide (q.call = k) && isBroken ps[p]?) := rfl

theorem countP_single (P : Stake → Bool) (a : Stake) :
    ({a} : Multiset Stake).countP (fun a => P a) = (P a).toNat := by
  rw [← Multiset.cons_zero, Multiset.countP_cons, Multiset.countP_zero]
  cases P a <;> rfl

theorem Counted.step (b : Counted h l all) {l' : Ledger} {all' : Multiset Stake}
    (fewer : ∀ k, uses h l' all' k ≤ uses h l all k)
    (fresh : ∀ k, all'.count (.fresh k) ≤ all.count (.fresh k)) (next : l.next ≤ l'.next)
    (ran : ∀ {q}, .ran q ∈ all' → Ran h q) : Counted h l' all' where
  once k := (fewer k).trans (b.once k)
  asked k := (Nat.add_le_add_left (fresh k) _).trans (b.asked k)
  next k hk := ⟨Nat.le_zero.mp ((fewer k).trans (b.next k (next.trans hk)).1.le),
    (b.next k (next.trans hk)).2⟩
  ran := ran
  ends := b.ends

/-- A token that stands for a number stands for one that has been given out. -/
theorem Counted.bound (b : Counted h l all) {a : Stake} (ha : a ∈ all)
    (right : isRight l.promises k a) : k < l.next := by
  by_contra late
  have none := (b.next k (Nat.le_of_not_lt late)).1
  have some : 0 < all.countP fun a => isRight l.promises k a :=
    Multiset.countP_pos.mpr ⟨a, ha, right⟩
  unfold uses at none
  omega

theorem Counted.ticket (b : Counted h l all) {a : Stake}
    (new : a = .fresh l.next ∨ ∃ q : Request, q.call = l.next ∧ a = .right q) :
    Counted h { l with next := l.next + 1 } ({a} + all) := by
  have mine : ∀ k, isRight l.promises k a = decide (l.next = k) := by
    intro k
    obtain rfl | ⟨q, hq, rfl⟩ := new
    · rfl
    · simp [hq]
  have unused := b.next l.next le_rfl
  have here : ∀ k, uses h { l with next := l.next + 1 } ({a} + all) k =
      uses h l all k + (decide (l.next = k)).toNat := by
    intro k
    simp only [uses, Multiset.countP_add, countP_single, mine k]
    omega
  have fresh : ∀ k, ({a} + all).count (.fresh k) ≤ all.count (.fresh k) + (decide (l.next = k)).toNat := by
    intro k
    rw [Multiset.count_add, Multiset.count_singleton, Nat.add_comm]
    refine Nat.add_le_add_left ?_ _
    obtain rfl | ⟨q, hq, rfl⟩ := new
    · by_cases same : l.next = k
      · simp [same]
      · simp [same, Ne.symm same]
    · simp
  refine ⟨fun k => ?_, fun k => ?_, fun k hk => ?_, fun ha => ?_, b.ends⟩
  · rw [here]
    by_cases same : l.next = k
    · subst same
      simp [unused.1]
    · simpa [same] using b.once k
  · have few := fresh k
    by_cases same : l.next = k
    · subst same
      have none : all.count (.fresh l.next) = 0 :=
        Multiset.count_eq_zero.mpr fun ha => lt_irrefl _ (b.bound ha (by simp))
      have calls := unused.2
      simp only [none, decide_true, Bool.toNat_true] at few
      omega
    · simp only [same, decide_false, Bool.toNat_false, Nat.add_zero] at few
      exact (Nat.add_le_add_left few _).trans (b.asked k)
  · have later : l.next ≠ k := by
      simp only at hk
      omega
    have before := b.next k (by simp only at hk; omega)
    rw [here]
    simpa [later] using before
  · rcases Multiset.mem_add.mp ha with ha | ha
    · obtain rfl | ⟨q, hq, rfl⟩ := new <;> cases Multiset.mem_singleton.mp ha
    · exact b.ran ha

theorem countP_le {P P' : Stake → Bool} (fewer : ∀ a ∈ all, P' a → P a) :
    all.countP (fun a => P' a) ≤ all.countP fun a => P a := by
  induction all using Multiset.induction_on with
  | empty => simp
  | cons a all ih =>
    have rest := ih fun b hb => fewer b (Multiset.mem_cons_of_mem hb)
    have here := fewer a (Multiset.mem_cons_self a all)
    simp only [Multiset.countP_cons]
    cases h' : P' a
    · simp only [Bool.false_eq_true, if_false]
      omega
    · simp only [here h', if_true]
      omega

/-- What holds of one token more is counted more often only by that token. -/
theorem countP_le_add {P P' : Stake → Bool} {x : Stake} (more : ∀ a ∈ all, P' a → P a ∨ a = x) :
    all.countP (fun a => P' a) ≤ all.countP (fun a => P a) + all.count x := by
  induction all using Multiset.induction_on with
  | empty => simp
  | cons a all ih =>
    have rest := ih fun b hb => more b (Multiset.mem_cons_of_mem hb)
    have here := more a (Multiset.mem_cons_self a all)
    simp only [Multiset.countP_cons, Multiset.count_cons]
    cases h' : P' a
    · simp only [Bool.false_eq_true, if_false]
      omega
    · obtain hp | rfl := here h'
      · simp only [hp, if_true]
        omega
      · simp only [if_true]
        omega

/-- A task that is discarded hands the right to run its request to the one who has the claim. -/
theorem Counted.break (b : Counted h l all) (pledged : Pledged h l jobs all) {task : IdleTask}
    {rest : List IdleTask} (ht : l.tasks = task :: rest) :
    Counted h { l with tasks := rest, promises := l.promises.set task.promise .broken } all := by
  refine b.step (fun k => ?_) (fun _ => le_rfl) le_rfl b.ran
  have more : ∀ a ∈ all, isRight (l.promises.set task.promise .broken) k a →
      isRight l.promises k a ∨ a = .claim task.promise (jobOf task.work) ∧ runsFor k task := by
    intro a ha right
    cases a
    case claim p j =>
      by_cases mine : p = task.promise
      · subst mine
        have same : j = jobOf task.work :=
          Option.some.inj ((pledged.claim ha).symm.trans (pledged.task task (by rw [ht]; simp)))
        subst same
        refine .inr ⟨rfl, ?_⟩
        unfold runsFor
        cases hw : task.work
        case command f e q =>
          rw [hw] at right
          simp only [jobOf, isRight_claim, Bool.and_eq_true] at right
          exact right.1
        all_goals
          rw [hw] at right
          cases right
      · refine .inl ?_
        cases j
        case command q => simpa [List.getElem?_set_ne (Ne.symm mine)] using right
        all_goals cases right
    all_goals exact .inl right
  have one := pledged.claims task.promise (jobOf task.work)
  simp only [uses, ht, List.countP_cons]
  by_cases mine : runsFor k task
  · have few := countP_le_add fun a ha right => (more a ha right).imp_right (·.1)
    simp only [mine, if_true]
    omega
  · have few := countP_le fun a ha right => (more a ha right).resolve_right fun h => mine h.2
    simp only [mine]
    omega

theorem Counted.keep (b : Counted h l all) (p : Nat) (payload : Payload) :
    Counted h { l with promises := l.promises.set p (.kept payload) } all := by
  refine b.step (fun k => ?_) (fun _ => le_rfl) le_rfl b.ran
  refine Nat.add_le_add_left (countP_le fun a _ right => ?_) _
  cases a with
  | claim p' j =>
    cases j with
    | command q =>
      simp only [isRight_claim, List.getElem?_set] at right ⊢
      split at right
      · split at right <;> simp [isBroken] at right
      · exact right
    | _ => cases right
  | _ => exact right

/-! ## Actions -/

theorem Computed.offer (b : Computed h actions all) (v : Json.Value) :
    Computed h (actions ++ [some v]) ({.offered actions.length} + all) where
  once m := by
    rw [Multiset.count_add, Multiset.count_singleton, if_neg (by simp), Nat.zero_add]
    rcases Nat.lt_trichotomy m actions.length with bound | rfl | bound
    · rw [List.getElem?_append_left bound]
      exact b.once m
    · have unused := (b.next actions.length le_rfl).1
      have one := Bool.toNat_le ((actions ++ [some v])[actions.length]?).join.isSome
      omega
    · rw [List.getElem?_eq_none (by simp; omega)]
      have unused := (b.next m bound.le).1
      simp only [Option.join_none, Option.isSome_none, Bool.toNat_false]
      omega
  asked m := by
    rw [Multiset.count_add, Multiset.count_singleton]
    split
    · next mine =>
      cases mine
      have unused := (b.next actions.length le_rfl).2
      omega
    · rw [Nat.zero_add]
      exact b.asked m
  next m hm := by
    rw [List.length_append, List.length_singleton] at hm
    have other : m ≠ actions.length := by omega
    rw [Multiset.count_add, Multiset.count_add, Multiset.count_singleton, Multiset.count_singleton,
      if_neg (by simp), if_neg (by simpa using other), Nat.zero_add, Nat.zero_add]
    exact b.next m (by omega)
  did ha := by
    rcases Multiset.mem_add.mp ha with ha | ha
    · cases Multiset.mem_singleton.mp ha
    · exact b.did ha
  ends := b.ends

theorem Computed.take (b : Computed h actions all) (n : Nat) :
    Computed h (actions.set n none)
      ((if (actions[n]?).join.isSome then {.taken n} else 0) + all) := by
  have other : ∀ a : Stake, a ≠ .taken n →
      (if (actions[n]?).join.isSome then {.taken n} else 0 : Multiset Stake).count a = 0 := by
    intro a ha
    split <;> simp [ha]
  refine ⟨fun m => ?_, fun m => ?_, fun m hm => ?_, fun ha => ?_, b.ends⟩
  · have before := b.once m
    rw [Multiset.count_add]
    by_cases mine : m = n
    · subst mine
      have gone : ((actions.set m none)[m]?).join = none := by
        rw [List.getElem?_set, if_pos rfl]
        split <;> rfl
      rw [gone]
      split
      · next some =>
        simp only [some, Bool.toNat_true] at before
        simp only [Option.isSome_none, Bool.toNat_false, Multiset.count_singleton_self]
        omega
      · simp only [Option.isSome_none, Bool.toNat_false, Multiset.count_zero]
        omega
    · rw [other _ (by simpa using mine), List.getElem?_set_ne (Ne.symm mine)]
      omega
  · rw [Multiset.count_add, other _ (by simp), Nat.zero_add]
    exact b.asked m
  · rw [List.length_set] at hm
    rw [Multiset.count_add, Multiset.count_add, other (.offered m) (by simp), Nat.zero_add]
    have none : (if (actions[n]?).join.isSome then {.taken n} else 0 : Multiset Stake).count (.taken m) = 0 := by
      by_cases mine : m = n
      · subst mine
        simp [List.getElem?_eq_none hm]
      · exact other _ (by simpa using mine)
    rw [none, Nat.zero_add]
    exact b.next m hm
  · rcases Multiset.mem_add.mp ha with ha | ha
    · split at ha <;> simp at ha
    · exact b.did ha

end SessionBroker.Accounts
