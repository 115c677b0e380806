import SessionBroker.Proofs.Plays
import SessionBroker.Proofs.Ways

/-!
# Walks of flows

What a flow has done since it began, in whatever procedures, is a walk through their bodies; so what is true of all
walks from where it began is true of the flow. Somebody on record stays on record, and what a flow comes to within some
steps of its own, it comes to in any run in which it makes them.
-/

namespace SessionBroker

variable {I : Interface} {σ α β μ : Type} {m : Machine I σ} {flow id : Nat} {who : I.Proc}

/-! ## What counts of what one does -/

namespace Program

/-- Whatever way a program takes in states of some kind, what counts of what was done is as `ok` says at any time, and
as `post` says at its end. -/
def Marks (m : Machine I σ) (flow : Nat) (who : I.Proc) (kind : σ → Prop) (mark? : Deed I σ → Option μ)
    (ok : List μ → Prop) (post : List μ → α → Prop) : Program I α → List μ → Prop
  | .done a, marks => ok marks ∧ post marks a
  | .act action next, marks => ok marks ∧ ∀ pick r s t, kind s → m.perform flow pick action s = some (r, t) →
      (next r).Marks m flow who kind mark? ok post ((mark? (.act ⟨flow, who, action, r, s, t⟩)).toList ++ marks)
  | .call callee next, marks => ok marks ∧ ∀ r,
      (next r).Marks m flow who kind mark? ok post ((mark? (.call callee r)).toList ++ marks)
  | .fork other next, marks => ok marks ∧
      next.Marks m flow who kind mark? ok post ((mark? (.start other)).toList ++ marks)

variable {kind : σ → Prop} {mark? : Deed I σ → Option μ} {ok : List μ → Prop} {post : List μ → α → Prop}
  {p : Program I α} {q : Program I β} {f : β → Program I α} {marks : List μ} {ds : List (Deed I σ)}

theorem Marks.bind {R : List μ → β → Prop} (h : q.Marks m flow who kind mark? ok R marks)
    (hf : ∀ marks b, R marks b → (f b).Marks m flow who kind mark? ok post marks) :
    (q >>= f).Marks m flow who kind mark? ok post marks := by
  induction q generalizing marks with
  | done b => exact hf marks b h.2
  | act action next ih => exact ⟨h.1, fun pick r s t hs hp => ih r (h.2 pick r s t hs hp)⟩
  | call callee next ih => exact ⟨h.1, fun r => ih r (h.2 r)⟩
  | fork other next ih => exact ⟨h.1, ih h.2⟩

theorem marks_perform {action : I.Action} {f : I.Reply action → Program I α} (fine : ok marks)
    (hf : ∀ pick r s t, kind s → m.perform flow pick action s = some (r, t) →
      (f r).Marks m flow who kind mark? ok post ((mark? (.act ⟨flow, who, action, r, s, t⟩)).toList ++ marks)) :
    (perform action >>= f).Marks m flow who kind mark? ok post marks := ⟨fine, hf⟩

/-- What follows something that does not count. -/
theorem marks_then {S : Scope I} (h : q.Within S) (silent : ∀ d : Deed I σ, d.Stays S → mark? d = none)
    (fine : ok marks) (hf : ∀ b, (f b).Marks m flow who kind mark? ok post marks) :
    (q >>= f).Marks m flow who kind mark? ok post marks := by
  induction q with
  | done b => exact hf b
  | act action next ih =>
    refine ⟨fine, fun pick r s t _ _ => ?_⟩
    rw [silent (.act ⟨flow, who, action, r, s, t⟩) h.1]
    exact ih r (h.2 r)
  | call callee next ih =>
    refine ⟨fine, fun r => ?_⟩
    rw [silent (.call callee r) h.1]
    exact ih r (h.2 r)
  | fork other next ih =>
    refine ⟨fine, ?_⟩
    rw [silent (.start other) h.1]
    exact ih h.2

/-- What counts on all ways of a program, counts on each of them. -/
theorem Marks.leads (h : p.Marks m flow who kind mark? ok post []) {q : Program I α} (leads : p.Leads m flow who ds q)
    (all : ∀ a, .act a ∈ ds → kind a.before) : q.Marks m flow who kind mark? ok post (ds.filterMap mark?) := by
  have grown : ∀ (d : Deed I σ) (ds : List (Deed I σ)),
      (d :: ds).filterMap mark? = (mark? d).toList ++ ds.filterMap mark? := fun d ds => by
    rw [List.filterMap_cons]
    cases mark? d <;> rfl
  induction leads with
  | nil => exact h
  | act _ performed ih =>
    rw [grown]
    exact (ih fun a ha => all a (List.mem_cons_of_mem _ ha)).2 _ _ _ _ (all _ List.mem_cons_self) performed
  | call r _ ih =>
    rw [grown]
    exact (ih fun a ha => all a (List.mem_cons_of_mem _ ha)).2 r
  | start _ ih =>
    rw [grown]
    exact (ih fun a ha => all a (List.mem_cons_of_mem _ ha)).2

theorem Marks.fine (h : p.Marks m flow who kind mark? ok post marks) : ok marks := by
  cases p <;> exact h.1

end Program

/-! ## Who is on record -/

namespace Annals

variable {n : Annals I σ} {c : Config I σ} {pick : Bool} {proc : I.Proc} {ds : List (Deed I σ)}

/-- Somebody is on record, under way or returned, with what he has done. -/
def Did (n : Annals I σ) (flow : Nat) (proc : I.Proc) (ds : List (Deed I σ)) : Prop :=
  ⟨proc, ds⟩ ∈ n.tracks flow ∨ ∃ x, ⟨flow, proc, x, ds⟩ ∈ n.returns

theorem Did.mem_log (did : n.Did flow proc ds) (fits : n.Fits m c) {a : Act I σ} (done : .act a ∈ ds) : a ∈ n.log := by
  rcases did with here | ⟨x, here⟩
  · exact fits.mem_log_of_track here done
  · exact fits.mem_log_of_return here done

theorem Did.leads (did : n.Did flow proc ds) (fits : n.Fits m c) : ∃ q, (m.body proc).Leads m flow proc ds q := by
  rcases did with here | ⟨x, here⟩
  · exact fits.leads here
  · exact ⟨_, fits.returned _ here⟩

/-- Whatever was done, somebody on record did it. -/
theorem Fits.did_of_log (fits : n.Fits m c) {a : Act I σ} (logged : a ∈ n.log) :
    ∃ ds, n.Did a.flow a.proc ds ∧ .act a ∈ ds := by
  rcases fits.mem_of_log logged with ⟨⟨_, _, x, ds⟩, here, rfl, proc, done⟩ | ⟨⟨_, ds⟩, here, proc, done⟩
  · cases proc
    exact ⟨ds, .inr ⟨x, here⟩, done⟩
  · cases proc
    exact ⟨ds, .inl here, done⟩

theorem one_le_countP_acts {g : Act I σ → Bool} {t : Track I σ} {ts : List (Track I σ)} (here : t ∈ ts) {a : Act I σ}
    (done : .act a ∈ t.deeds) (good : g a = true) : 1 ≤ (ts.flatMap Track.acts).countP g :=
  List.countP_pos_iff.mpr ⟨a, List.mem_flatMap.mpr ⟨t, here, Track.mem_acts.mpr done⟩, good⟩

/-- If at most one act is of some kind, nobody else has performed it but the one who has. -/
theorem Did.eq_of_countP_le_one (did : n.Did flow proc ds) (fits : n.Fits m c) {g : Act I σ → Bool}
    (few : n.log.countP g ≤ 1) {t : Track I σ} {lower : List (Track I σ)} (top : n.tracks id = t :: lower) {a b : Act I σ}
    (mine : .act a ∈ t.deeds) (good : g a = true) (done : .act b ∈ ds) (good' : g b = true) :
    flow = id ∧ ds = t.deeds := by
  have under : t ∈ n.tracks id := top ▸ List.mem_cons_self
  have own : a.flow = id := by
    obtain ⟨q, leads⟩ := fits.leads under
    exact (leads.act_mem mine).1
  have other : b.flow = flow := by
    obtain ⟨q, leads⟩ := did.leads fits
    exact (leads.act_mem done).1
  have same : a = b := by
    have here : a ∈ n.log := fits.mem_log_of_track under mine
    have there : b ∈ n.log := did.mem_log fits done
    rw [List.countP_eq_length_filter] at few
    have ha : a ∈ n.log.filter g := List.mem_filter.mpr ⟨here, good⟩
    have hb : b ∈ n.log.filter g := List.mem_filter.mpr ⟨there, good'⟩
    rcases all : n.log.filter g with _ | ⟨x, _ | ⟨y, rest⟩⟩
    · simp [all] at ha
    · rw [all, List.mem_singleton] at ha hb
      exact ha.trans hb.symm
    · rw [all] at few
      simp at few
  obtain rfl : flow = id := by rw [← other, ← same, own]
  refine ⟨rfl, ?_⟩
  have one : (n.actsOf flow).countP g ≤ 1 :=
    ((fits.complete flow).countP_eq g).le.trans (List.filter_sublist.countP_le.trans few)
  have some : 1 ≤ t.acts.countP g := List.countP_pos_iff.mpr ⟨a, Track.mem_acts.mpr mine, good⟩
  simp only [actsOf, top, List.flatMap_cons, List.countP_append] at one
  rcases did with here | ⟨x, here⟩
  · rcases List.mem_cons.mp (top ▸ here) with rfl | deeper
    · rfl
    · have more := one_le_countP_acts deeper done good'
      omega
  · have more : 1 ≤ ((n.returns.filter (·.flow = flow)).flatMap Return.acts).countP g :=
      List.countP_pos_iff.mpr ⟨b, List.mem_flatMap.mpr
        ⟨_, List.mem_filter.mpr ⟨here, by simp⟩, Return.mem_acts.mpr done⟩, good'⟩
    omega

/-- How somebody who is on record after a step of a flow has come there. -/
inductive Recalled (n : Annals I σ) (c : Config I σ) (id flow : Nat) (proc : I.Proc) : List (Deed I σ) → Prop where
  /-- He was on record before. -/
  | old {ds : List (Deed I σ)} : n.Did flow proc ds → Recalled n c id flow proc ds
  /-- He has done one thing more. -/
  | more {d : Deed I σ} {ds : List (Deed I σ)} : n.Did flow proc ds →
      (∀ other, d = .start other → ∃ next wait, c.find? id = some ⟨proc, .fork other next, wait⟩) →
      Recalled n c id flow proc (d :: ds)
  /-- He has been called. -/
  | called {caller : I.Proc} {next : I.Result proc → Program I (I.Result caller)} {wait : Waiting I caller} :
      c.find? id = some ⟨caller, .call proc next, wait⟩ → Recalled n c id flow proc []
  /-- A flow has begun with him. -/
  | started {starter : I.Proc} {next : Program I (I.Result starter)} {wait : Waiting I starter} :
      c.find? id = some ⟨starter, .fork proc next, wait⟩ → flow = c.next → Recalled n c id flow proc []

theorem recalled_modifyHead {d : Deed I σ} {ts : List (Track I σ)} (known : ∀ t ∈ ts, n.Did flow t.proc t.deeds)
    (head : ∀ t ∈ ts.head?, ∀ other, d = .start other → ∃ next wait, c.find? id = some ⟨t.proc, .fork other next, wait⟩)
    (here : ⟨proc, ds⟩ ∈ ts.modifyHead (·.note d)) : Recalled n c id flow proc ds := by
  cases ts with
  | nil => cases here
  | cons t ts =>
    obtain ⟨mine, others⟩ := List.forall_mem_cons.mp known
    rcases List.mem_cons.mp here with same | deeper
    · obtain ⟨_, early⟩ := t
      cases same
      exact .more mine (head _ rfl)
    · exact .old (others _ deeper)

/-- Whoever is on record after a step was so before, or has done one thing more, or was entered. -/
theorem recalled_of_step (fits : n.Fits m c) (did : (n.step m c id pick).Did flow proc ds) :
    Recalled n c id flow proc ds := by
  unfold Annals.step at did
  rcases hf : c.find? id with _ | ⟨proc', code, wait⟩
  · exact .old (by simpa only [hf] using did)
  · obtain ⟨early, lower, tracks, -⟩ := fits.tracked_of_find hf
    have mine : ∀ t ∈ n.tracks id, n.Did id t.proc t.deeds := fun t ht => .inl ht
    -- the tracks of one flow are new, and nobody has returned
    have updated : ∀ {tracks' : Nat → List (Track I σ)} {i : Nat} {ts : List (Track I σ)},
        ⟨proc, ds⟩ ∈ Function.update tracks' i ts flow →
        (flow = i → ⟨proc, ds⟩ ∈ ts → Recalled n c id flow proc ds) →
        (⟨proc, ds⟩ ∈ tracks' flow → Recalled n c id flow proc ds) → Recalled n c id flow proc ds :=
      fun {tracks' i ts} here new old => by
        by_cases own : flow = i
        · exact new own (by simpa [own] using here)
        · exact old (by rwa [Function.update_of_ne own] at here)
    have past : ⟨proc, ds⟩ ∈ n.tracks flow → Recalled n c id flow proc ds := fun here => .old (.inl here)
    have silent : ∀ {d : Deed I σ}, (∀ other, d ≠ .start other) → flow = id → ∀ {ts : List (Track I σ)},
        ts ⊆ n.tracks id → ⟨proc, ds⟩ ∈ ts.modifyHead (·.note d) → Recalled n c id flow proc ds :=
      fun none own ts known here => by
        subst own
        exact recalled_modifyHead (fun t ht => mine t (known ht)) (fun _ _ other same => absurd same (none other)) here
    cases code with
    | done r =>
      simp only [hf, tracks, List.tail_cons, List.headD_cons] at did
      rcases did with here | ⟨x, here⟩
      · exact updated here (fun own => silent (by simp) own (tracks ▸ List.subset_cons_self ..)) past
      · rcases List.mem_cons.mp here with same | old
        · cases same
          exact .old (mine _ (tracks ▸ List.mem_cons_self))
        · exact .old (.inr ⟨x, old⟩)
    | call callee next =>
      simp only [hf] at did
      rcases did with here | back
      · refine updated here (fun own here => ?_) past
        rcases List.mem_cons.mp here with same | old
        · cases same
          exact .called hf
        · exact past (own ▸ old)
      · exact .old (.inr back)
    | fork other next =>
      simp only [hf] at did
      rcases did with here | back
      · refine updated here (fun new here => ?_) fun here => updated here (fun own here => ?_) past
        · cases List.mem_singleton.mp here
          exact .started hf new
        · subst own
          refine recalled_modifyHead mine (fun t ht x same => ?_) here
          cases same
          rw [tracks] at ht
          cases ht
          exact ⟨next, wait, hf⟩
      · exact .old (.inr back)
    | act action next =>
      simp only [hf] at did
      split at did
      · exact .old did
      · rcases did with here | back
        · exact updated here (fun own => silent (by simp) own (List.Subset.refl _)) past
        · exact .old (.inr back)

/-- The flow of those who are under way is there. -/
theorem Fits.find_of_tracks (fits : n.Fits m c) (some : n.tracks id ≠ []) :
    ∃ f, c.find? id = .some f ∧ f.Tracked m id (n.tracks id) := by
  rcases hf : c.find? id with _ | f
  · refine absurd (fits.gone id fun mem => ?_) some
    obtain ⟨p, hp, rfl⟩ := List.mem_map.mp mem
    simpa using List.find?_eq_none.mp (Option.map_eq_none_iff.mp hf) p hp
  · exact ⟨f, rfl, fits.tracked_of_find hf⟩

/-- Whoever is on record stays so. -/
theorem Did.step (did : n.Did flow proc ds) (fits : n.Fits m c) (numbered : c.Numbered) :
    ∃ late, (n.step m c id pick).Did flow proc (late ++ ds) := by
  have stays : ∀ {i : Nat} {ts : List (Track I σ)} {o : Annals I σ}, (∀ t ∈ o.tracks i, t ∈ ts ∨
      ∃ d, t.note d ∈ ts) → o.Did flow proc ds →
      ∃ late, Did { o with tracks := Function.update o.tracks i ts } flow proc (late ++ ds) := by
    rintro i ts o kept (here | back)
    · by_cases own : flow = i
      · subst own
        rcases kept _ here with same | ⟨d, noted⟩
        · exact ⟨[], .inl (by simpa using same)⟩
        · exact ⟨[d], .inl (by simpa [Track.note] using noted)⟩
      · exact ⟨[], .inl (by simpa [Function.update_of_ne own] using here)⟩
    · exact ⟨[], .inr back⟩
  have noted : ∀ {d : Deed I σ} {ts : List (Track I σ)}, ∀ t ∈ ts, t ∈ ts.modifyHead (·.note d) ∨
      ∃ d', t.note d' ∈ ts.modifyHead (·.note d) := fun {d ts} t ht => by
    cases ts with
    | nil => cases ht
    | cons u ts =>
      rcases List.mem_cons.mp ht with rfl | deeper
      · exact .inr ⟨d, List.mem_cons_self⟩
      · exact .inl (List.mem_cons_of_mem _ deeper)
  unfold Annals.step
  rcases hf : c.find? id with _ | ⟨proc', code, wait⟩
  · exact ⟨[], did⟩
  · obtain ⟨early, lower, tracks, -⟩ := fits.tracked_of_find hf
    cases code with
    | done r =>
      simp only [tracks, List.tail_cons, List.headD_cons]
      rcases did with here | ⟨x, back⟩
      · by_cases own : flow = id
        · subst own
          rcases List.mem_cons.mp (tracks ▸ here) with same | deeper
          · cases same
            exact ⟨[], .inr ⟨r, List.mem_cons_self⟩⟩
          · rcases noted (d := .call proc' r) _ deeper with same | ⟨d, more⟩
            · exact ⟨[], .inl (by simpa using same)⟩
            · exact ⟨[d], .inl (by simpa [Track.note] using more)⟩
        · exact ⟨[], .inl (by simpa [Function.update_of_ne own] using here)⟩
      · exact ⟨[], .inr ⟨x, List.mem_cons_of_mem _ back⟩⟩
    | call callee next => exact stays (fun t ht => .inl (List.mem_cons_of_mem _ ht)) did
    | fork other next =>
      obtain ⟨late, did⟩ := stays (i := id) (noted (d := .start other)) did
      have new : c.next ∉ c.flows.map Prod.fst := fun present => by
        obtain ⟨p, hp, same⟩ := List.mem_map.mp present
        exact (numbered.below p hp).ne same
      have ne : c.next ≠ id := fun same => by
        have none := fits.gone c.next new
        rw [same, tracks] at none
        cases none
      refine ⟨late, did.imp_left fun here => ?_⟩
      by_cases own : flow = c.next
      · rw [own] at here
        simp [Function.update_of_ne ne, fits.gone c.next new] at here
      · simpa [Function.update_of_ne own] using here
    | act action next =>
      simp only
      split
      · exact ⟨[], did⟩
      · next r u _ => exact stays (o := { n with log := _ :: n.log }) noted did

end Annals

namespace Chronicle

variable {c : Chronicle} {mv : Move} {proc : Proc} {ds : List (Deed brokerInterface World)}

/-- Whoever is on record after a move is a client who has just arrived, or was on record before, or has come there with
a step. -/
theorem did_of_move (faithful : c.Faithful) (did : (c.move mv).annals.Did flow proc ds) :
    (∃ name request, proc = .serveClient name request ∧ ds = []) ∨ c.annals.Did flow proc ds ∨
      ∃ id pick, mv = .step id pick ∧ c.annals.Recalled c.play.config id flow proc ds := by
  cases mv with
  | outside change => exact .inr (.inl did)
  | step id pick => exact .inr (.inr ⟨id, pick, rfl, Annals.recalled_of_step faithful.fits did⟩)
  | arrive name request =>
    rcases did with here | back
    · by_cases own : flow = c.play.config.next
      · subst own
        have here : ⟨proc, ds⟩ ∈ [(⟨.serveClient name request, []⟩ : Track brokerInterface World)] := by
          simpa [Chronicle.move] using here
        cases List.mem_singleton.mp here
        exact .inl ⟨name, request, rfl, rfl⟩
      · exact .inr (.inl (.inl (by simpa [Chronicle.move, Function.update_of_ne own] using here)))
    · exact .inr (.inl (.inr back))

/-- Who starts a flow is on record with it, and so is the one with whom it begins. -/
theorem did_start (faithful : c.Faithful) {id : Nat} (pick : Bool) {other : Proc} {next : Code proc.Result}
    {wait : Waiting brokerInterface proc} (here : c.play.config.find? id = some ⟨proc, .fork other next, wait⟩) :
    ∃ early lower, c.tracks id = ⟨proc, early⟩ :: lower ∧
      (body proc).Leads brokerMachine id proc early (.fork other next) ∧
      (c.move (.step id pick)).annals.Did id proc (.start other :: early) ∧
      ∃ flow, (c.move (.step id pick)).annals.Did flow other [] := by
  obtain ⟨early, lower, tracks, leads, -⟩ := faithful.fits.tracked_of_find here
  have new : c.play.config.next ∉ c.play.config.flows.map Prod.fst := fun present => by
    obtain ⟨p, hp, same⟩ := List.mem_map.mp present
    exact (faithful.numbered.below p hp).ne same
  have ne : id ≠ c.play.config.next := fun same => by
    have none := faithful.fits.gone _ new
    rw [← same, tracks] at none
    cases none
  refine ⟨early, lower, tracks, leads, .inl ?_, c.play.config.next, .inl ?_⟩
  · simp [Chronicle.move, Annals.step, here, tracks, Function.update_of_ne ne, Track.note]
  · simp [Chronicle.move, Annals.step, here]

/-- Whoever is on record stays so. -/
theorem did_move (faithful : c.Faithful) (mv : Move) (did : c.annals.Did flow proc ds) :
    ∃ late, (c.move mv).annals.Did flow proc (late ++ ds) := by
  cases mv with
  | outside change => exact ⟨[], did⟩
  | step id pick => exact did.step (m := brokerMachine) faithful.fits faithful.numbered
  | arrive name request =>
    refine ⟨[], did.imp_left fun here => ?_⟩
    have new : c.play.config.next ∉ c.play.config.flows.map Prod.fst := fun present => by
      obtain ⟨p, hp, same⟩ := List.mem_map.mp present
      exact (faithful.numbered.below p hp).ne same
    by_cases own : flow = c.play.config.next
    · rw [own, faithful.fits.gone _ new] at here
      cases here
    · simpa [Chronicle.move, Function.update_of_ne own] using here

end Chronicle

/-! ## Walks -/

/-- What a flow has done since it began with a procedure, the last act first, and where that has brought it. -/
inductive Flow.Walks (m : Machine I σ) (id : Nat) (first : I.Proc) : List (Act I σ) → Flow I → Prop where
  | start : Walks m id first [] ⟨first, m.body first, .root first⟩
  | act {acts : List (Act I σ)} {proc : I.Proc} {action : I.Action} {next : I.Reply action → Program I (I.Result proc)}
      {wait : Waiting I proc} {pick : Bool} {r : I.Reply action} {s t : σ} :
      Walks m id first acts ⟨proc, .act action next, wait⟩ → m.perform id pick action s = some (r, t) →
      Walks m id first (⟨id, proc, action, r, s, t⟩ :: acts) ⟨proc, next r, wait⟩
  | call {acts : List (Act I σ)} {proc callee : I.Proc} {next : I.Result callee → Program I (I.Result proc)}
      {wait : Waiting I proc} : Walks m id first acts ⟨proc, .call callee next, wait⟩ →
      Walks m id first acts ⟨callee, m.body callee, .caller next wait⟩
  | back {acts : List (Act I σ)} {proc callee : I.Proc} {next : I.Result callee → Program I (I.Result proc)}
      {wait : Waiting I proc} {r : I.Result callee} : Walks m id first acts ⟨callee, .done r, .caller next wait⟩ →
      Walks m id first acts ⟨proc, next r, wait⟩
  | fork {acts : List (Act I σ)} {proc other : I.Proc} {next : Program I (I.Result proc)} {wait : Waiting I proc} :
      Walks m id first acts ⟨proc, .fork other next, wait⟩ → Walks m id first acts ⟨proc, next, wait⟩

/-- The procedure with which a flow began. -/
def Waiting.first : {proc : I.Proc} → Waiting I proc → I.Proc
  | _, .root proc => proc
  | _, .caller _ below => below.first

theorem Flow.Walks.first {first : I.Proc} {acts : List (Act I σ)} {f : Flow I} (walks : f.Walks m id first acts) :
    f.waiting.first = first := by
  induction walks with
  | start => rfl
  | act _ _ ih | call _ ih | back _ ih | fork _ ih => exact ih

theorem Waiting.Tracked.root {proc : I.Proc} {wait : Waiting I proc} (tracked : wait.Tracked m flow []) :
    wait = .root proc := by
  cases wait with
  | root => rfl
  | caller next below =>
    obtain ⟨ds, lower, none, -⟩ := tracked
    cases none

/-- A flow began with whom nobody waits for; whoever waits for somebody has called him. -/
theorem Waiting.Tracked.first {proc : I.Proc} {wait : Waiting I proc} {ts : List (Track I σ)}
    (tracked : wait.Tracked m flow ts) : wait.first = proc ∧ ts = [] ∨
      ∃ caller ds lower next, ts = ⟨caller, ds⟩ :: lower ∧ (m.body caller).Leads m flow caller ds (.call proc next) := by
  cases wait with
  | root => exact .inl ⟨rfl, tracked⟩
  | caller next below =>
    obtain ⟨ds, lower, rfl, leads, -⟩ := tracked
    exact .inr ⟨_, ds, lower, next, rfl, leads⟩

namespace Annals

variable {n : Annals I σ} {c d : Config I σ} {pick : Bool}

/-- All that the flows have done is on record. -/
structure Walked (m : Machine I σ) (c : Config I σ) (n : Annals I σ) : Prop where
  below : ∀ a ∈ n.log, a.flow < c.next
  walks : ∀ p ∈ c.flows, ∃ first, p.2.Walks m p.1 first (n.log.filter (·.flow = p.1))

theorem Walked.of_find (walked : n.Walked m c) {f : Flow I} (hf : c.find? id = some f) :
    ∃ first, f.Walks m id first (n.log.filter (·.flow = id)) := by
  obtain ⟨p, hp, rfl⟩ := Option.map_eq_some_iff.mp hf
  have here : p.1 = id := by simpa using List.find?_some hp
  exact here ▸ walked.walks p (List.mem_of_find?_eq_some hp)

/-- One flow goes on, and the others are where they were. -/
theorem Walked.update (walked : n.Walked m c) {g : Flow I} {s : σ} (new : List (Act I σ))
    {ts : Nat → List (Track I σ)} {rs : List (Return I σ)} (mine : ∀ a ∈ new, a.flow = id ∧ id < c.next)
    (walks : ∃ first, g.Walks m id first (new ++ n.log.filter (·.flow = id))) :
    Walked m (Config.update { c with shared := s } id g) ⟨ts, new ++ n.log, rs⟩ := by
  refine ⟨fun a ha => ?_, fun q hq => ?_⟩
  · rcases List.mem_append.mp ha with new | old
    · obtain ⟨own, below⟩ := mine a new
      exact own ▸ below
    · exact walked.below a old
  · obtain ⟨old, hold, rfl⟩ := List.mem_map.mp hq
    by_cases own : old.1 = id
    · have all : new.filter (·.flow = id) = new := List.filter_eq_self.mpr fun a ha => by simp [mine a ha]
      simpa only [if_pos own, List.filter_append, all] using walks
    · have none : new.filter (·.flow = old.1) = [] := List.filter_eq_nil_iff.mpr fun a ha => by
        simpa [(mine a ha).1] using Ne.symm own
      simpa only [if_neg own, List.filter_append, none, List.nil_append] using walked.walks old hold

/-- A flow begins. -/
theorem Walked.spawn (walked : n.Walked m c) (proc : I.Proc) {ts : Nat → List (Track I σ)} {rs : List (Return I σ)} :
    Walked m (c.spawn m proc) ⟨ts, n.log, rs⟩ := by
  refine ⟨fun a ha => (walked.below a ha).trans (Nat.lt_succ_self _), fun q hq => ?_⟩
  rcases List.mem_append.mp hq with old | new
  · exact walked.walks q old
  · rw [List.mem_singleton.mp new]
    have none : n.log.filter (·.flow = c.next) = [] :=
      List.filter_eq_nil_iff.mpr fun a ha => by simpa using (walked.below a ha).ne
    exact ⟨proc, none ▸ .start⟩

theorem Walked.step (walked : n.Walked m c) (numbered : c.Numbered) (hs : m.step? c id pick = some d) :
    (n.step m c id pick).Walked m d := by
  obtain ⟨⟨proc, code, wait⟩, hf, hs⟩ := Option.bind_eq_some_iff.mp hs
  obtain ⟨first, walks⟩ := walked.of_find hf
  have below : id < c.next := by
    obtain ⟨p, hp, -⟩ := Option.map_eq_some_iff.mp hf
    have here : p.1 = id := by simpa using List.find?_some hp
    exact here ▸ numbered.below p (List.mem_of_find?_eq_some hp)
  have quiet : ∀ {g : Flow I} {ts : Nat → List (Track I σ)} {rs : List (Return I σ)},
      g.Walks m id first (n.log.filter (·.flow = id)) → Walked m (c.update id g) ⟨ts, n.log, rs⟩ := fun walks =>
    walked.update (s := c.shared) [] (by simp) ⟨first, walks⟩
  unfold Annals.step
  rw [hf]
  cases code with
  | done r =>
    cases wait with
    | root =>
      cases hs
      exact ⟨walked.below, fun q hq => walked.walks q (List.mem_filter.mp hq).1⟩
    | caller next under =>
      cases hs
      exact quiet walks.back
  | act action next =>
    simp only [Machine.stepFlow] at hs
    rcases hp : m.perform id pick action c.shared with _ | ⟨r, s⟩
    · simp only [hp] at hs
      cases hs
    · simp only [hp] at hs ⊢
      cases hs
      exact walked.update [_] (by simpa using below) ⟨first, walks.act hp⟩
  | call callee next =>
    cases hs
    exact quiet walks.call
  | fork other next =>
    cases hs
    have gone : Walked m (c.update id ⟨proc, next, wait⟩) ⟨n.tracks, n.log, n.returns⟩ := quiet walks.fork
    exact gone.spawn other

end Annals

namespace Chronicle

variable {c : Chronicle}

theorem walked_move (faithful : c.Faithful) (walked : c.annals.Walked brokerMachine c.play.config) (mv : Move) :
    (c.move mv).annals.Walked brokerMachine (c.move mv).play.config := by
  cases mv with
  | outside change => exact ⟨walked.below, walked.walks⟩
  | arrive name request => exact walked.spawn _
  | step id pick =>
    rcases hs : brokerMachine.step? c.play.config id pick with _ | d
    · have stays : c.move (.step id pick) = c := by
        simp only [Chronicle.move, Play.move, hs, Annals.step_of_none hs]
      rwa [stays]
    · have moved : (c.move (.step id pick)).play.config = d := by simp only [Chronicle.move, Play.move, hs]
      exact moved ▸ walked.step faithful.numbered hs

end Chronicle

/-! ## What is true of all walks -/

namespace Lore

variable {M : Type} {L : Lore I σ M}

/-- What is remembered of some acts, the last one first. -/
def recalled (L : Lore I σ M) (acts : List (Act I σ)) : M :=
  acts.foldr (fun a k => L.note a.action a.reply a.before k) L.blank

/-- If all procedures that may be called mind a lore, so does a flow wherever it has come from one of them. -/
theorem minds_walks (minds : ∀ proc k, L.calls proc k → (m.body proc).Minds L m (L.back proc k) k) {first : I.Proc}
    (may : L.calls first L.blank) {acts : List (Act I σ)} {f : Flow I} (walks : f.Walks m id first acts) :
    f.Minds L m (L.recalled acts) := by
  induction walks with
  | start => exact ⟨L.blank, minds first L.blank may, trivial⟩
  | act _ performed ih =>
    obtain ⟨called, code, waiting⟩ := ih
    exact ⟨called, code.2 _ _ _ _ _ performed, waiting⟩
  | call _ ih =>
    obtain ⟨called, code, waiting⟩ := ih
    exact ⟨_, minds _ _ code.1, called, code.2, waiting⟩
  | back _ ih =>
    obtain ⟨called, code, before, goesOn, waiting⟩ := ih
    exact ⟨before, goesOn _ _ code, waiting⟩
  | fork _ ih =>
    obtain ⟨called, code, waiting⟩ := ih
    exact ⟨called, code.2, waiting⟩

end Lore

/-! ## What a flow comes to -/

/-- In at most some steps, made in states of some kind, a flow performs what it is to perform. -/
def Flow.Soon (m : Machine I σ) (kind : σ → Prop) (goal : Act I σ → Prop) (id : Nat) : Nat → Flow I → Prop
  | 0, _ => False
  | n + 1, ⟨proc, .act action next, wait⟩ => ∀ pick s, kind s → ∃ r t, m.perform id pick action s = some (r, t) ∧
      (goal ⟨id, proc, action, r, s, t⟩ ∨ Flow.Soon m kind goal id n ⟨proc, next r, wait⟩)
  | n + 1, ⟨_, .call callee next, wait⟩ => Flow.Soon m kind goal id n ⟨callee, m.body callee, .caller next wait⟩
  | n + 1, ⟨_, .done r, .caller next below⟩ => Flow.Soon m kind goal id n ⟨_, next r, below⟩
  | _ + 1, ⟨_, .done _, .root _⟩ => False
  | n + 1, ⟨proc, .fork _ next, wait⟩ => Flow.Soon m kind goal id n ⟨proc, next, wait⟩

/-- Whether a move is a step of a flow. -/
def Move.isStepOf (id : Nat) : Move → Bool
  | .step flow _ => flow = id
  | _ => false

namespace Chronicle

variable {c : Chronicle} {kind : World → Prop} {goal : Act brokerInterface World → Prop}

/-- What was done, was done. -/
theorem log_moves (c : Chronicle) (ns : List Move) : c.log <:+ (c.moves ns).log := by
  refine moves_keep (P := fun d => c.log <:+ d.log) (fun d mv suffix => ?_) List.suffix_rfl ns
  rcases d.log_move mv with ⟨log, -⟩ | ⟨a, -, log, -⟩
  · exact log ▸ suffix
  · exact log ▸ suffix.trans (List.suffix_cons ..)

/-- A flow that makes a step has performed what it was to perform, or will do so one step sooner. -/
theorem soon_step {f : Flow brokerInterface} {n : Nat} (pick : Bool) (here : c.play.config.find? id = some f)
    (fine : kind c.world) (soon : f.Soon brokerMachine kind goal id (n + 1)) :
    (∃ a ∈ (c.move (.step id pick)).log, goal a) ∨
      ∃ g, (c.move (.step id pick)).play.config.find? id = some g ∧ g.Soon brokerMachine kind goal id n := by
  have updated : ∀ g, brokerMachine.stepFlow c.play.config id pick f = some (c.play.config.update id g) →
      (c.move (.step id pick)).play.config.find? id = some g := fun g hs => by
    have hs : brokerMachine.step? c.play.config id pick = some (c.play.config.update id g) := by
      rw [Machine.step?, here, Option.bind_some, hs]
    simp only [Chronicle.move, Play.move, hs]
    exact Config.find?_update_self here
  obtain ⟨proc, code, wait⟩ := f
  cases code with
  | done r =>
    cases wait with
    | root => exact soon.elim
    | caller next below => exact .inr ⟨_, updated _ rfl, soon⟩
  | call callee next => exact .inr ⟨_, updated _ rfl, soon⟩
  | fork other next =>
    have hs : brokerMachine.step? c.play.config id pick =
        some ((c.play.config.update id ⟨proc, next, wait⟩).spawn brokerMachine other) := by
      rw [Machine.step?, here, Option.bind_some]
      rfl
    refine .inr ⟨⟨proc, next, wait⟩, ?_, soon⟩
    simp only [Chronicle.move, Play.move, hs]
    obtain ⟨q, hq, same⟩ := Option.map_eq_some_iff.mp (Config.find?_update_self (g := ⟨proc, next, wait⟩) here)
    simp [Config.find?, Config.spawn, List.find?_append, hq, same]
  | act action next =>
    obtain ⟨r, u, performed, done⟩ := soon pick c.world fine
    have hp : brokerMachine.perform id pick action c.play.config.shared = some (r, u) := performed
    refine done.imp (fun good => ⟨_, ?_, good⟩) fun soon => ⟨_, Play.find?_move_act here hp, soon⟩
    simp only [Chronicle.log, Chronicle.move, Annals.step, here, hp]
    exact List.mem_cons_self

/-- What a flow is to perform soon, it has performed when it has made so many steps. -/
theorem soon_moves {ns : List Move} {f : Flow brokerInterface} {n : Nat} (here : c.play.config.find? id = some f)
    (soon : f.Soon brokerMachine kind goal id n) (fine : ∀ k ≤ ns.length, kind (c.moves (ns.take k)).world)
    (often : n ≤ ns.countP (Move.isStepOf id)) : ∃ a ∈ (c.moves ns).log, goal a := by
  induction ns generalizing c f n with
  | nil =>
    obtain rfl : n = 0 := Nat.le_zero.mp often
    cases soon
  | cons mv ns ih =>
    have later : ∀ k ≤ ns.length, kind ((c.move mv).moves (ns.take k)).world := fun k le =>
      fine (k + 1) (Nat.succ_le_succ le)
    by_cases mine : ∃ pick, mv = .step id pick
    · obtain ⟨pick, rfl⟩ := mine
      rw [List.countP_cons_of_pos (by simp [Move.isStepOf])] at often
      cases n with
      | zero => cases soon
      | succ n =>
        rcases soon_step pick here (fine 0 (Nat.zero_le _)) soon with ⟨a, logged, good⟩ | ⟨g, here, soon⟩
        · exact ⟨a, (log_moves _ ns).subset logged, good⟩
        · exact ih here soon later (Nat.le_of_succ_le_succ often)
    · have other : ∀ pick, mv ≠ .step id pick := by simpa using mine
      have silent : Move.isStepOf id mv = false := by
        cases mv
        case step flow pick => simpa [Move.isStepOf] using fun same => other pick (by rw [same])
        all_goals rfl
      rw [List.countP_cons_of_neg (by simp [silent])] at often
      exact ih (Play.find?_move other here) soon later often

end Chronicle

end SessionBroker
