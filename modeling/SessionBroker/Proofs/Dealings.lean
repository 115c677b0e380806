import SessionBroker.Proofs.Plays

/-!
# What one step does to the tokens

A flow that keeps a contract hands tokens over with each step: an action takes some and gives others,
a caller pays and gets something back. `Dealt` says what all flows own after a step, whatever the
books make of it, so that books which change from step to step can be kept too.
-/

namespace SessionBroker

variable {I : Interface} {A σ : Type}

/-- What the flows own after a step of one of them, if they owned `all` before. -/
inductive Dealt (C : Contract I A) (m : Machine I σ) (id : Nat) (pick : Bool) (c d : Config I σ)
    (all : Multiset A) : Flow I → Prop where
  | act {proc : I.Proc} {action : I.Action} {next : I.Reply action → Program I (I.Result proc)}
    {wait : Waiting I proc} {r : I.Reply action} (u : Use I A action) (others : Multiset A) :
    u ∈ C.uses action → u.takes + others ≤ all →
    m.perform id pick action c.shared = some (r, d.shared) →
    (∀ got, u.gives r got → Owned C d.flows (got + others)) → Dealt C m id pick c d all
      ⟨proc, .act action next, wait⟩
  | enter {f : Flow I} {callee : I.Proc} (e : Errand I A callee) (others : Multiset A) :
    f.event? = some (.entered callee) → e ∈ C.errands callee → e.price + others ≤ all →
    d.shared = c.shared → Owned C d.flows (e.kept + e.stock + others) → Dealt C m id pick c d all f
  | return {proc : I.Proc} {a : I.Result proc} {wait : Waiting I proc} (e : Errand I A proc)
    (y others : Multiset A) :
    e ∈ C.errands proc → e.yields a y → e.kept + y + others ≤ all → d.shared = c.shared →
    Owned C d.flows (e.back a y + others) → Dealt C m id pick c d all ⟨proc, .done a, wait⟩

variable {C : Contract I A} {m : Machine I σ} {c d : Config I σ} {all : Multiset A} {id : Nat}
  {pick : Bool} {f : Flow I}

/-- The bodies of all procedures keep a contract. -/
def Contract.Bodies (C : Contract I A) (m : Machine I σ) : Prop :=
  ∀ proc, ∀ e ∈ C.errands proc, (m.body proc).Obeys C e.yields e.stock

theorem Owned.apart (owned : Owned C c.flows all) (numbered : c.Numbered) (hf : c.find? id = some f) :
    ∃ own others, own + others ≤ all ∧ c.Apart C id others ∧ f.Obeys C own := by
  obtain ⟨before, after, flows, updated, removed⟩ := numbered.split hf
  rw [flows] at owned
  obtain ⟨own, others, le, obeys, rest⟩ := owned_middle.mp owned
  refine ⟨own, others, le, ⟨numbered, fun {g own'} obeys' => ?_, ?_⟩, obeys⟩
  · rw [updated]
    exact owned_middle.mpr ⟨own', others, le_rfl, obeys', rest⟩
  · rw [removed]
    exact rest

theorem Contract.Bodies.fresh (bodies : C.Bodies m) {proc : I.Proc} {e : Errand I A proc}
    (he : e ∈ C.errands proc) :
    Flow.Obeys C ⟨proc, m.body proc, .root proc⟩ (e.kept + e.stock) :=
  ⟨e, he, e.stock, e.kept, by rw [add_comm], bodies proc e he, le_rfl⟩

/-- Every step deals like that. -/
theorem Owned.dealt (owned : Owned C c.flows all) (bodies : C.Bodies m) (numbered : c.Numbered)
    (hf : c.find? id = some f) (hs : m.stepFlow c id pick f = some d) :
    Dealt C m id pick c d all f := by
  obtain ⟨own, others, all_le, apart, e, he, here, below, own_le, obeys, waiting⟩ :=
    owned.apart numbered hf
  have split : here + below + others ≤ all := (add_le_add_left own_le others).trans all_le
  obtain ⟨proc, code, wait⟩ := f
  cases code with
  | done a =>
    obtain ⟨y, hy, yields⟩ := obeys
    cases wait with
    | root =>
      cases hs
      have kept : e.kept ≤ below := waiting
      refine .return e y others he yields ?_ rfl (apart.remove.mono (Multiset.le_add_left _ _))
      calc _ = y + e.kept + others := by rw [add_comm e.kept y]
        _ ≤ here + below + others := add_le_add_left (add_le_add hy kept) others
        _ ≤ all := split
    | caller next under =>
      cases hs
      obtain ⟨d, hd, left, rest, le, continues, waiting⟩ := waiting
      refine .return e y (left + rest + others) he yields ?_ rfl ?_
      · calc _ = y + (e.kept + left + rest) + others := by abel
          _ ≤ here + below + others := add_le_add_left (add_le_add hy le) others
          _ ≤ all := split
      · rw [← add_assoc]
        exact apart.update ⟨d, hd, e.back a y + left, rest, (add_assoc _ _ _).le,
          continues a y yields, waiting⟩
  | act action next =>
    simp only [Machine.stepFlow] at hs
    split at hs
    · cases hs
    · next r s hp =>
      cases hs
      obtain ⟨u, hu, left, le, continues⟩ := obeys
      refine .act u (left + below + others) hu ?_ hp fun got gives => ?_
      · calc _ = u.takes + left + below + others := by abel
          _ ≤ here + below + others := add_le_add_left (add_le_add_left le below) others
          _ ≤ all := split
      · rw [← add_assoc]
        exact apart.update ⟨e, he, got + left, below, (add_assoc _ _ _).le, continues r got gives, waiting⟩
  | call callee next =>
    cases hs
    obtain ⟨d, hd, left, le, continues⟩ := obeys
    refine .enter d (left + below + others) rfl hd ?_ rfl ?_
    · calc _ = d.price + left + below + others := by abel
        _ ≤ here + below + others := add_le_add_left (add_le_add_left le below) others
        _ ≤ all := split
    · rw [← add_assoc]
      exact apart.update ⟨d, hd, d.stock, d.kept + left + below, le_of_eq (by abel), bodies callee d hd,
        e, he, left, below, le_rfl, continues, waiting⟩
  | fork other next =>
    cases hs
    obtain ⟨d, hd, left, le, continues⟩ := obeys
    refine .enter d (left + below + others) rfl hd ?_ rfl ?_
    · calc _ = d.price + left + below + others := by abel
        _ ≤ here + below + others := add_le_add_left (add_le_add_left le below) others
        _ ≤ all := split
    · have mine : Flow.Obeys C ⟨proc, next, wait⟩ (left + below) :=
        ⟨e, he, left, below, le_rfl, continues, waiting⟩
      refine owned_append.mpr ⟨left + below + others, d.kept + d.stock, ?_, apart.update mine,
        d.kept + d.stock, 0, by simp, bodies.fresh hd, trivial⟩
      exact le_of_eq (by abel)

theorem Waiting.Obeys.on_errand {own : Multiset A} {proc : I.Proc} {wait : Waiting I proc}
    {e : Errand I A proc} (he : e ∈ C.errands proc) (obeys : wait.Obeys C e own) :
    ∀ other ∈ wait.procs, (C.errands other).Nonempty := by
  induction wait generalizing own with
  | root proc =>
    intro other h
    rw [List.mem_singleton.mp h]
    exact ⟨e, he⟩
  | caller next below ih =>
    obtain ⟨d, hd, rest, under, -, -, lower⟩ := obeys
    intro other h
    rcases List.mem_cons.mp h with rfl | h
    · exact ⟨e, he⟩
    · exact ih hd lower other h

/-- Whoever is under way is on some errand. -/
theorem Owned.on_errand {fs : List (Nat × Flow I)} (owned : Owned C fs all) :
    ∀ p ∈ fs, ∀ proc ∈ p.2.procs, (C.errands proc).Nonempty := by
  intro p hp
  obtain ⟨before, after, rfl⟩ := List.append_of_mem hp
  obtain ⟨own, others, -, ⟨e, he, here, below, -, -, waiting⟩, -⟩ := owned_middle.mp owned
  exact waiting.on_errand he

variable {C : Contract brokerInterface A} {J J' : Books brokerInterface A World} {p : Play}

/-- What books are right after a move that were right before it, whatever the move is. -/
structure Play.Entered (p : Play) (C : Contract brokerInterface A)
    (J J' : Books brokerInterface A World) (m : Move) : Prop where
  arrive : ∀ name request, m = .arrive name request →
    ∃ e ∈ C.errands (.serveClient name request), ∀ all, J p.history p.config.shared all →
      J' (.entered (.serveClient name request) :: p.history) p.config.shared (e.kept + e.stock + all)
  outside : ∀ change, m = .outside change → ∀ all, J p.history p.config.shared all →
    J' p.history (change.apply p.config.shared) all
  waits : ∀ flow pick, m = .step flow pick → brokerMachine.step? p.config flow pick = none →
    ∀ all, J p.history p.config.shared all → J' p.history p.config.shared all
  step : ∀ flow pick f d all, m = .step flow pick → p.config.find? flow = some f →
    J p.history p.config.shared all → Dealt C brokerMachine flow pick p.config d all f →
    (p.move m).config.shared = d.shared →
    ∃ rest, Owned C d.flows rest ∧ J' (f.event?.toList ++ p.history) d.shared rest

/-- Books that everything keeps right are right after a move. -/
theorem Contract.Balances.entered (b : C.Balances brokerMachine J) {m : Move}
    (client : ∀ name request, m = .arrive name request →
      ∃ e ∈ C.errands (.serveClient name request), e.price = 0)
    (outside : ∀ (change : Outside) h w all, J h w all → J h (change.apply w) all) :
    p.Entered C J J m where
  arrive name request hm := by
    obtain ⟨e, he, nothing⟩ := client name request hm
    exact ⟨e, he, fun all right => b.enters e he (by rw [nothing, zero_add]; exact right)⟩
  outside change _ all right := outside change _ _ _ right
  waits _ _ _ _ _ right := right
  step flow pick f d all _ _ right dealt _ := by
    cases dealt with
    | act u others hu le hp owned =>
      obtain ⟨got, gives, right⟩ := b.acts u hu (b.loses le right) hp
      exact ⟨got + others, owned got gives, right⟩
    | enter e others event he le same owned =>
      refine ⟨_, owned, ?_⟩
      rw [event, same]
      exact b.enters e he (b.loses le right)
    | «return» e y others he yields le same owned =>
      refine ⟨_, owned, ?_⟩
      rw [same]
      exact b.returns e he yields (b.loses le right)

theorem Play.Keeps.move (keeps : p.Keeps C J) (bodies : C.Bodies brokerMachine) {m : Move}
    (entered : p.Entered C J J' m) : (p.move m).Keeps C J' := by
  obtain ⟨numbered, all, owned, books⟩ := keeps
  cases m with
  | arrive name request =>
    obtain ⟨e, he, after⟩ := entered.arrive name request rfl
    refine ⟨numbered.spawn _ _, all + (e.kept + e.stock), ?_, ?_⟩
    · exact owned_append.mpr ⟨all, e.kept + e.stock, le_rfl, owned, e.kept + e.stock, 0, by simp,
        bodies.fresh he, trivial⟩
    · rw [add_comm]
      exact after all books
  | outside change =>
    exact ⟨⟨numbered.unique, numbered.below⟩, all, owned, entered.outside change rfl all books⟩
  | step flow pick =>
    rcases hs : brokerMachine.step? p.config flow pick with _ | d
    · have same : p.move (.step flow pick) = p := by simp only [Play.move, hs]
      rw [same]
      exact ⟨numbered, all, owned, entered.waits flow pick rfl hs all books⟩
    · obtain ⟨f, hf, hs'⟩ := Option.bind_eq_some_iff.mp hs
      have next : p.move (.step flow pick) = ⟨d, f.event?.toList ++ p.history⟩ := by
        simp only [Play.move, hs, Play.event?, hf, Option.bind_some]
      obtain ⟨rest, owned, books⟩ := entered.step flow pick f d all rfl hf books
        (owned.dealt bodies numbered hf hs') (by rw [next])
      rw [next]
      exact ⟨numbered.step hs', rest, owned, books⟩

end SessionBroker
