import SessionBroker.Proofs.Accounts.Deals

/-!
# Events in the books

What it does to the books that somebody enters a procedure or returns from one. Most events do
nothing; calls, commands, pipeline calls and actions are counted.
-/

namespace SessionBroker.Accounts

variable {h : History} {l : Ledger} {w : World} {all : Multiset Stake} {proc : Proc} {q : Request}
  {n : Nat} {e : Event brokerInterface}

/-- An event that uses up no less than it counts. -/
theorem Counted.event {few : Multiset Stake} (b : Counted h l all)
    (fewer : ∀ k, uses (e :: h) l few k ≤ uses h l all k)
    (fresh : ∀ k, (calls k e).toNat + few.count (.fresh k) ≤ all.count (.fresh k))
    (ran : ∀ {q}, .ran q ∈ few → Ran (e :: h) q)
    (ends : ∀ {q t} {r : Response}, e = .returned (.execute q t) r → hasRun r ∧ Ran h q ∨ isRest r) :
    Counted (e :: h) l few where
  once k := (fewer k).trans (b.once k)
  asked k := by
    have before := b.asked k
    have here := fresh k
    rw [countP_cons_toNat]
    omega
  next k hk := by
    have none : all.count (.fresh k) = 0 := Multiset.count_eq_zero.mpr fun ha =>
      Nat.not_lt.mpr hk (b.bound ha (by simp))
    have here := fresh k
    refine ⟨Nat.le_zero.mp ((fewer k).trans (b.next k hk).1.le), ?_⟩
    rw [countP_cons_toNat, (b.next k hk).2]
    omega
  ran := ran
  ends {q t r} hr := by
    have old : hasRun r ∧ Ran h q ∨ isRest r := by
      rcases List.mem_cons.mp hr with same | hr
      · exact ends same.symm
      · exact b.ends hr
    exact old.imp_left fun ⟨run, ran⟩ => ⟨run, ran.cons⟩

theorem Computed.event {few : Multiset Stake} {actions : List (Option Json.Value)}
    (b : Computed h actions all)
    (taken : ∀ k, (computes k e).toNat + few.count (.taken k) ≤ all.count (.taken k))
    (offered : ∀ k, (asks k e).toNat + few.count (.offered k) ≤ all.count (.offered k))
    (did : ∀ {k}, .did k ∈ few → Did (e :: h) k)
    (ends : ∀ {k} {v : Json.Value × Bool}, e = .returned (.onPipeline k) (.ok v) → Did h k) :
    Computed (e :: h) actions few where
  once k := by
    have before := b.once k
    have here := taken k
    rw [countP_cons_toNat]
    omega
  asked k := by
    have before := b.asked k
    have here := offered k
    rw [countP_cons_toNat]
    omega
  next k hk := by
    have before := b.next k hk
    have computes := taken k
    have asks := offered k
    rw [countP_cons_toNat, countP_cons_toNat]
    omega
  did := did
  ends hv := by
    rcases List.mem_cons.mp hv with same | hv
    · exact (ends same.symm).cons
    · exact (b.ends hv).cons

/-! ## Events that nobody counts -/

/-- Events that are neither about commands nor about actions. -/
def IsPlain : Event brokerInterface → Prop
  | .entered (.execute ..) | .entered (.runCommand ..) | .entered (.onPipeline _)
  | .entered (.compute ..) | .returned (.execute ..) _ | .returned (.onPipeline _) _ => False
  | _ => True

/-- Events that are not about commands. -/
theorem Counted.cons (b : Counted h l all) (run : ∀ k, runs k e = false) (rest : ∀ k, rests k e = false)
    (call : ∀ k, calls k e = false)
    (ends : ∀ {q t} {r : Response}, e ≠ .returned (.execute q t) r) : Counted (e :: h) l all := by
  refine b.event (fun k => ?_) (fun k => ?_) (fun ha => (b.ran ha).cons) fun same => absurd same ends
  · simp only [uses, countP_cons_toNat, run k, rest k]
    exact le_rfl
  · rw [call k]
    exact (Nat.zero_add _).le

theorem Computed.cons {actions : List (Option Json.Value)} (b : Computed h actions all)
    (compute : ∀ k, computes k e = false) (ask : ∀ k, asks k e = false)
    (ends : ∀ {k} {v : Json.Value × Bool}, e ≠ .returned (.onPipeline k) (.ok v)) :
    Computed (e :: h) actions all := by
  refine b.event (fun k => ?_) (fun k => ?_) (fun ha => (b.did ha).cons) fun same => absurd same ends
  · rw [compute k]
    exact (Nat.zero_add _).le
  · rw [ask k]
    exact (Nat.zero_add _).le

theorem Balanced.cons (b : Balanced h l all) (plain : IsPlain e) : Balanced (e :: h) l all := by
  obtain ⟨⟨jobs, pledged⟩, mailed, counted, computed⟩ := b
  have uncounted : ∀ k, runs k e = false ∧ rests k e = false ∧ calls k e = false ∧ asks k e = false
      ∧ computes k e = false := by
    intro k
    cases e with
    | entered proc => cases proc <;> first | exact ⟨rfl, rfl, rfl, rfl, rfl⟩ | exact plain.elim
    | returned proc r => cases proc <;> first | exact ⟨rfl, rfl, rfl, rfl, rfl⟩ | exact plain.elim
  refine ⟨⟨jobs, pledged.cons⟩, mailed.cons, ?_, ?_⟩
  · exact counted.cons (fun k => (uncounted k).1) (fun k => (uncounted k).2.1)
      (fun k => (uncounted k).2.2.1) (by rintro _ _ _ rfl; exact plain)
  · exact computed.cons (fun k => (uncounted k).2.2.2.2) (fun k => (uncounted k).2.2.2.1)
      (by rintro _ _ rfl; exact plain)

/-! ## Commands -/

/-- What is neither pledged nor mailed may be exchanged at any event. -/
theorem Balanced.exchange {x : Stake} {few : Multiset Stake} (b : Balanced h l (few + all))
    (notPledge : ¬x.IsPledge) (notMail : ¬x.IsMail) (counted : Counted (e :: h) l ({x} + all))
    (computed : Computed (e :: h) l.actions ({x} + all)) : Balanced (e :: h) l ({x} + all) := by
  have fewer := b.less fun a => Multiset.count_le_of_le a (Multiset.le_add_left all few)
  obtain ⟨jobs, pledged⟩ := fewer.pledged
  exact ⟨⟨jobs, (pledged.less (count_le_of_kind notPledge)).cons⟩,
    (fewer.mailed.less (count_le_of_kind notMail)).cons, counted, computed⟩

theorem Balanced.call {token : Option Token} (b : Balanced h l ({.fresh q.call} + all)) :
    Balanced (.entered (.execute q token) :: h) l ({.right q} + all) := by
  refine b.exchange id id (b.counted.event (fun k => ?_) (fun k => ?_) (fun ha => ?_) (by rintro _ _ _ ⟨⟩)) ?_
  · simp only [uses, countP_cons_toNat, Multiset.countP_add, countP_single, isRight_right, isRight_fresh,
      runs, rests, Bool.toNat_false]
    omega
  · rw [count_other (by simp), Multiset.count_add, Multiset.count_singleton]
    by_cases mine : q.call = k
    · simp [calls, mine]
    · simp [calls, mine]
  · have ha := (Multiset.mem_add.mp ha).resolve_left (by simp)
    exact (b.counted.ran (Multiset.mem_add.mpr (.inr ha))).cons
  · refine Computed.cons ?_ (fun _ => rfl) (fun _ => rfl) (by rintro _ _ ⟨⟩)
    exact b.computed.less fun a ha => by
      rw [count_other (by rintro rfl; exact ha), count_other (by rintro rfl; exact ha)]

theorem Balanced.run {frame : FrameRef} {engine : EngineName} {route : Route}
    (b : Balanced h l ({.right q} + all)) :
    Balanced (.entered (.runCommand frame engine q route) :: h) l ({.ran q} + all) := by
  refine b.exchange id id (b.counted.event (fun k => ?_) (fun k => ?_) (fun ha => ?_) (by rintro _ _ _ ⟨⟩)) ?_
  · have none : isRight l.promises k (.ran q) = false := rfl
    simp only [uses, countP_cons_toNat, Multiset.countP_add, countP_single, isRight_right, none,
      runs, rests, Bool.toNat_false]
    omega
  · rw [count_other (by simp), count_other (by simp)]
    exact (Nat.zero_add _).le
  · rcases Multiset.mem_add.mp ha with ha | ha
    · cases Multiset.mem_singleton.mp ha
      exact ⟨frame, engine, route, List.mem_cons_self⟩
    · exact (b.counted.ran (Multiset.mem_add.mpr (.inr ha))).cons
  · refine Computed.cons ?_ (fun _ => rfl) (fun _ => rfl) (by rintro _ _ ⟨⟩)
    exact b.computed.less fun a ha => by
      rw [count_other (by rintro rfl; exact ha), count_other (by rintro rfl; exact ha)]

theorem isRest_of_hasRun {r : Response} (run : hasRun r) : isRest r = false := by
  cases r with
  | ok outcome => rfl
  | error f => cases f <;> first | rfl | cases run

theorem Balanced.end {token : Option Token} {r : Response} {own : Multiset Stake}
    (b : Balanced h l (own + all)) (ends : Ends (isRest ·) q r own) :
    Balanced (.returned (.execute q token) r :: h) l all := by
  have fewer := b.less fun a => Multiset.count_le_of_le a (Multiset.le_add_left all own)
  obtain ⟨jobs, pledged⟩ := fewer.pledged
  refine ⟨⟨jobs, pledged.cons⟩, fewer.mailed.cons, ?_, ?_⟩
  · have rest : ∀ k, (q.call = k && isRest r).toNat ≤ own.countP fun a => isRight l.promises k a := by
      intro k
      obtain ⟨run, -⟩ | ⟨rest, rfl⟩ := ends
      · rw [isRest_of_hasRun run, Bool.and_false]
        exact Nat.zero_le _
      · have rest : isRest r = true := rest
        rw [countP_single, isRight_right, rest, Bool.and_true]
    refine b.counted.event (fun k => ?_) (fun k => ?_) (fun ha => (fewer.counted.ran ha).cons) ?_
    · have here := rest k
      simp only [uses, countP_cons_toNat, Multiset.countP_add, runs, rests, Bool.toNat_false]
      omega
    · rw [Multiset.count_add]
      exact (Nat.zero_add _).le.trans (Nat.le_add_left _ _)
    · rintro _ _ _ ⟨⟩
      obtain ⟨run, rfl⟩ | ⟨rest, -⟩ := ends
      · exact .inl ⟨run, b.counted.ran (by simp)⟩
      · exact .inr rest
  · exact fewer.computed.cons (fun _ => rfl) (fun _ => rfl) (by rintro _ _ ⟨⟩)

/-! ## Actions -/

theorem Balanced.request (b : Balanced h l ({.offered n} + all)) :
    Balanced (.entered (.onPipeline n) :: h) l all := by
  have fewer := b.less fun a => Multiset.count_le_of_le a (Multiset.le_add_left all _)
  obtain ⟨jobs, pledged⟩ := fewer.pledged
  refine ⟨⟨jobs, pledged.cons⟩, fewer.mailed.cons, ?_, b.computed.event (fun k => ?_) (fun k => ?_)
    (fun ha => (fewer.computed.did ha).cons) (by rintro _ _ ⟨⟩)⟩
  · exact fewer.counted.cons (fun _ => rfl) (fun _ => rfl) (fun _ => rfl) (by rintro _ _ _ ⟨⟩)
  · rw [count_other (by simp)]
    exact (Nat.zero_add _).le
  · rw [Multiset.count_add, Multiset.count_singleton]
    by_cases mine : n = k
    · simp [asks, mine]
    · simp [asks, mine]

theorem Balanced.compute {v : Json.Value} (b : Balanced h l ({.taken n} + all)) :
    Balanced (.entered (.compute n v) :: h) l ({.did n} + all) := by
  refine b.exchange id id ?_ (b.computed.event (fun k => ?_) (fun k => ?_) (fun ha => ?_)
    (by rintro _ _ ⟨⟩))
  · refine Counted.cons ?_ (fun _ => rfl) (fun _ => rfl) (fun _ => rfl) (by rintro _ _ _ ⟨⟩)
    exact b.counted.less fun a ha => by
      rw [count_other (by rintro rfl; exact ha), count_other (by rintro rfl; exact ha)]
  · rw [count_other (by simp), Multiset.count_add, Multiset.count_singleton]
    by_cases mine : n = k
    · simp [computes, mine]
    · simp [computes, mine]
  · rw [count_other (by simp), count_other (by simp)]
    exact (Nat.zero_add _).le
  · rcases Multiset.mem_add.mp ha with ha | ha
    · cases Multiset.mem_singleton.mp ha
      exact ⟨v, List.mem_cons_self⟩
    · exact (b.computed.did (Multiset.mem_add.mpr (.inr ha))).cons

theorem Balanced.value {r : Except Failure (Json.Value × Bool)} {own : Multiset Stake}
    (b : Balanced h l (own + all)) (did : r.isOk → own = {.did n}) :
    Balanced (.returned (.onPipeline n) r :: h) l all := by
  have fewer := b.less fun a => Multiset.count_le_of_le a (Multiset.le_add_left all own)
  obtain ⟨jobs, pledged⟩ := fewer.pledged
  refine ⟨⟨jobs, pledged.cons⟩, fewer.mailed.cons, ?_, fewer.computed.event (fun k => ?_) (fun k => ?_)
    (fun ha => (fewer.computed.did ha).cons) ?_⟩
  · exact fewer.counted.cons (fun _ => rfl) (fun _ => rfl) (fun _ => rfl) (by rintro _ _ _ ⟨⟩)
  · exact (Nat.zero_add _).le
  · exact (Nat.zero_add _).le
  · rintro _ _ ⟨⟩
    obtain rfl := did rfl
    exact b.computed.did (by simp)

/-! ## All events -/

theorem books_enters (errand : Errand brokerInterface Stake proc) (he : errand ∈ errands proc)
    (right : books h w (errand.price + all)) :
    books (.entered proc :: h) w (errand.kept + errand.stock + all) := by
  cases proc
  case execute q token =>
    obtain rfl := he
    exact Balanced.call right
  case runCommand frame e q route =>
    obtain rfl := he
    exact Balanced.run right
  case onPipeline n =>
    obtain rfl := he
    rw [add_zero, zero_add]
    exact Balanced.request right
  case compute n v =>
    obtain rfl := he
    exact Balanced.compute right
  case awaitAnswer =>
    obtain ⟨q, rfl⟩ := he
    rw [zero_add]
    exact Balanced.cons right trivial
  case rehearsedLoop | rehearsedNext => exact he.elim
  all_goals
    obtain rfl := he
    show books _ w (0 + _ + all)
    rw [zero_add]
    exact Balanced.cons right trivial

theorem books_returns {r : proc.Result} {own : Multiset Stake}
    (errand : Errand brokerInterface Stake proc) (he : errand ∈ errands proc)
    (yields : errand.yields r own) (right : books h w (errand.kept + own + all)) :
    books (.returned proc r :: h) w (errand.back r own + all) := by
  have fewer : ∀ {few : Multiset Stake}, few ≤ errand.kept + own → books h w (few + all) := fun le =>
    right.less fun a => Multiset.count_le_of_le a (add_le_add_left le all)
  cases proc
  case execute q token =>
    obtain rfl := he
    rw [zero_add] at right ⊢
    exact Balanced.end right yields
  case onPipeline n =>
    obtain rfl := he
    rw [zero_add] at right ⊢
    exact Balanced.value right yields
  case awaitAnswer =>
    obtain ⟨q, rfl⟩ := he
    exact Balanced.cons (fewer (Multiset.le_add_left _ _)) trivial
  case route =>
    obtain rfl := he
    exact Balanced.cons (fewer (Multiset.le_add_left _ _)) trivial
  case runCommand | compute =>
    obtain rfl := he
    exact Balanced.cons (fewer (Multiset.le_add_right _ _)) trivial
  case rehearsedLoop | rehearsedNext => exact he.elim
  all_goals
    obtain rfl := he
    exact Balanced.cons (fewer (Multiset.zero_le _)) trivial

end SessionBroker.Accounts
