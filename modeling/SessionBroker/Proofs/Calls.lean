import SessionBroker.Proofs.Stories

/-!
# Calls and results

Whoever is called does all that he does after what his caller has done before, and he returns to that caller. So
each result on record is that of somebody who was called when the deeds on record before it had been done, and
whoever has returned has his result on record with somebody, unless a flow began with him.
-/

namespace SessionBroker

variable {I : Interface} {σ α β : Type} {m : Machine I σ} {flow : Nat} {who : I.Proc}

namespace Program

variable {S : Scope I} {p p' : Program I α} {q : Program I β} {f : β → Program I α} {ds : List (Deed I σ)}

/-- Whatever is done on a way through a program within a scope, the scope allows. -/
theorem Leads.stays (leads : p.Leads m flow who ds p') (h : p.Within S) : ∀ d ∈ ds, d.Stays S := by
  induction leads with
  | nil => simp
  | act before _ ih => exact List.forall_mem_cons.mpr ⟨(before.within h).1, ih⟩
  | call r before ih => exact List.forall_mem_cons.mpr ⟨(before.within h).1, ih⟩
  | start before ih => exact List.forall_mem_cons.mpr ⟨(before.within h).1, ih⟩

theorem leads_invoke {callee : I.Proc} {q : Program I (I.Result callee)} (leads : (invoke callee).Leads m flow who ds q) :
    ds = [] ∧ q = invoke callee ∨ ∃ r, ds = [.call callee r] ∧ q = .done r := by
  induction leads with
  | nil => exact .inl ⟨rfl, rfl⟩
  | call r _ ih =>
    rcases ih with ⟨rfl, same⟩ | ⟨_, -, same⟩
    · cases same
      exact .inr ⟨r, rfl, rfl⟩
    · cases same
  | act _ _ ih | start _ ih => rcases ih with ⟨-, same⟩ | ⟨_, -, same⟩ <;> cases same

/-- A way to a call leads through a program that does not make such a call. -/
theorem Leads.of_bind_call {callee : I.Proc} {next : I.Result callee → Program I α}
    (leads : (q >>= f).Leads m flow who ds (.call callee next)) (inside : q.Within S) (other : ¬S.calls callee) :
    ∃ early late b, ds = late ++ early ∧ q.Leads m flow who early (.done b) ∧
      (f b).Leads m flow who late (.call callee next) := by
  rcases leads.of_bind with ⟨q', way, same⟩ | through
  · cases q' with
    | done b => exact ⟨ds, [], b, rfl, way, same ▸ .nil⟩
    | call callee' next' =>
      cases same
      exact absurd (way.within inside).1 other
    | act | fork => cases same
  · exact through

end Program

/-! ## When somebody was called -/

/-- Each result among some deeds is that of somebody who did what he did after the deeds before it. -/
def Timely (log : List (Act I σ)) (returns : List (Return I σ)) (flow : Nat) : List (Deed I σ) → Prop
  | [] => True
  | .call callee x :: ds => (∃ ds', ⟨flow, callee, x, ds'⟩ ∈ returns ∧
      ∀ a, .act a ∈ ds → ∀ b, .act b ∈ ds' → [b, a].Sublist log) ∧ Timely log returns flow ds
  | _ :: ds => Timely log returns flow ds

/-- Of those who have returned, everybody has the results of those who had returned before. -/
def Recounted (log : List (Act I σ)) : List (Return I σ) → Prop
  | [] => True
  | r :: older => Timely log older r.flow r.deeds ∧ Recounted log older

section Timely

variable {log log' : List (Act I σ)} {returns returns' : List (Return I σ)} {ds : List (Deed I σ)}

theorem Timely.mono (timely : Timely log returns flow ds) (acts : log.Sublist log') (more : returns ⊆ returns') :
    Timely log' returns' flow ds := by
  induction ds with
  | nil => trivial
  | cons d ds ih =>
    cases d with
    | act | start => exact ih timely
    | call callee x =>
      obtain ⟨⟨ds', here, after⟩, older⟩ := timely
      exact ⟨⟨ds', more here, fun a ha b hb => (after a ha b hb).trans acts⟩, ih older⟩

theorem Timely.result (timely : Timely log returns flow ds) {late early : List (Deed I σ)} {callee : I.Proc}
    {x : I.Result callee} (split : ds = late ++ .call callee x :: early) : ∃ ds', ⟨flow, callee, x, ds'⟩ ∈ returns ∧
      ∀ a, .act a ∈ early → ∀ b, .act b ∈ ds' → [b, a].Sublist log := by
  subst split
  induction late with
  | nil => exact timely.1
  | cons d late ih =>
    cases d with
    | act | start => exact ih timely
    | call => exact ih timely.2

theorem Recounted.mono (recounted : Recounted log returns) (acts : log.Sublist log') : Recounted log' returns := by
  induction returns with
  | nil => trivial
  | cons r older ih => exact ⟨recounted.1.mono acts (List.Subset.refl _), ih recounted.2⟩

/-- What is true of all who return if it is true of all whom they called, is true of all. -/
theorem Recounted.all {P : Return I σ → Prop} (recounted : Recounted log returns)
    (step : ∀ r ∈ returns, (∀ late callee x early, r.deeds = late ++ .call callee x :: early →
      ∃ ds', P ⟨r.flow, callee, x, ds'⟩ ∧ ∀ a, .act a ∈ early → ∀ b, .act b ∈ ds' → [b, a].Sublist log) → P r) :
    ∀ r ∈ returns, P r := by
  suffices all : ∀ older, older <:+ returns → Recounted log older → ∀ r ∈ older, P r from
    all returns List.suffix_rfl recounted
  intro older suffix recounted
  induction older with
  | nil => simp
  | cons r older ih =>
    have rest := ih ((List.suffix_cons r older).trans suffix) recounted.2
    refine List.forall_mem_cons.mpr ⟨step r (suffix.subset List.mem_cons_self) fun late callee x early split => ?_, rest⟩
    obtain ⟨ds', here, after⟩ := recounted.1.result split
    exact ⟨ds', rest _ here, after⟩

end Timely

namespace Annals

variable {n : Annals I σ} {c : Config I σ} {id : Nat} {pick : Bool}

/-- Those who were called later did what they did later. -/
structure Timed (n : Annals I σ) : Prop where
  /-- Whatever those under way in a flow have done, the inner ones have done it later. -/
  nested : ∀ flow, ((n.tracks flow).flatMap Track.acts).Sublist n.log
  tracks : ∀ flow, ∀ t ∈ n.tracks flow, Timely n.log n.returns flow t.deeds
  returns : Recounted n.log n.returns

/-- The tracks of one flow change. -/
theorem Timed.update {ts : List (Track I σ)} (timed : n.Timed) (nested : (ts.flatMap Track.acts).Sublist n.log)
    (mine : ∀ t ∈ ts, Timely n.log n.returns id t.deeds) :
    Timed { n with tracks := Function.update n.tracks id ts } := by
  refine ⟨fun flow => ?_, fun flow t ht => ?_, timed.returns⟩
  · by_cases own : flow = id
    · subst own
      simpa using nested
    · simpa [Function.update_of_ne own] using timed.nested flow
  · by_cases own : flow = id
    · subst own
      exact mine t (by simpa using ht)
    · exact timed.tracks flow t (by simpa [Function.update_of_ne own] using ht)

theorem Timed.act {a : Act I σ} {t : Track I σ} {lower : List (Track I σ)} (timed : n.Timed)
    (here : n.tracks a.flow = t :: lower) : Timed { n with
      tracks := Function.update n.tracks a.flow (t.note (.act a) :: lower), log := a :: n.log } := by
  have grown : Timed { n with log := a :: n.log } :=
    ⟨fun flow => (timed.nested flow).cons a,
      fun flow t ht => (timed.tracks flow t ht).mono (List.sublist_cons_self ..) (List.Subset.refl _),
      timed.returns.mono (List.sublist_cons_self ..)⟩
  refine grown.update ?_ ?_
  · have before := timed.nested a.flow
    rw [here, List.flatMap_cons] at before
    simpa [Track.note, Track.acts, Deed.act?] using before.cons_cons a
  · obtain ⟨mine, others⟩ := List.forall_mem_cons.mp (here ▸ grown.tracks a.flow)
    exact List.forall_mem_cons.mpr ⟨mine, others⟩

theorem Timed.return {r : Return I σ} {lower : List (Track I σ)} (timed : n.Timed)
    (here : n.tracks r.flow = ⟨r.proc, r.deeds⟩ :: lower) : Timed { n with
      tracks := Function.update n.tracks r.flow (lower.modifyHead (·.note (.call r.proc r.result)))
      returns := r :: n.returns } := by
  have before := timed.nested r.flow
  obtain ⟨mine, others⟩ := List.forall_mem_cons.mp (here ▸ timed.tracks r.flow)
  rw [here, List.flatMap_cons] at before
  have grown : Timed { n with returns := r :: n.returns } :=
    ⟨timed.nested, fun flow t ht => (timed.tracks flow t ht).mono (List.Sublist.refl _) (List.subset_cons_self ..),
      mine, timed.returns⟩
  have known : ∀ t ∈ lower, Timely n.log (r :: n.returns) r.flow t.deeds := fun t ht =>
    (others t ht).mono (List.Sublist.refl _) (List.subset_cons_self ..)
  refine grown.update ?_ ?_
  · rw [flatMap_acts_modifyHead rfl]
    exact (List.sublist_append_right ..).trans before
  · cases lower with
    | nil => simp
    | cons t lower =>
      obtain ⟨caller, lower⟩ := List.forall_mem_cons.mp known
      refine List.forall_mem_cons.mpr ⟨⟨⟨r.deeds, List.mem_cons_self, fun a ha b hb => ?_⟩, caller⟩, lower⟩
      have pair : [b, a].Sublist (r.acts ++ t.acts) :=
        (List.singleton_sublist.mpr (Return.mem_acts.mpr hb)).append
          (List.singleton_sublist.mpr (Track.mem_acts.mpr ha))
      rw [List.flatMap_cons, ← List.append_assoc] at before
      exact pair.trans ((List.sublist_append_left ..).trans before)

theorem Timed.step (timed : n.Timed) (fits : n.Fits m c) : (n.step m c id pick).Timed := by
  unfold Annals.step
  rcases hf : c.find? id with _ | ⟨proc, code, wait⟩
  · exact timed
  · obtain ⟨ds, lower, here, -, -⟩ := fits.tracked_of_find hf
    have all := timed.tracks id
    cases code with
    | done r =>
      simp only [here, List.tail_cons, List.headD_cons]
      exact timed.return (r := ⟨id, proc, r, ds⟩) here
    | call callee next =>
      exact timed.update (by simpa [Track.acts] using timed.nested id) (List.forall_mem_cons.mpr ⟨trivial, all⟩)
    | fork other next =>
      have noted : Timed { n with
          tracks := Function.update n.tracks id ((n.tracks id).modifyHead (·.note (.start other))) } := by
        refine timed.update (by rw [flatMap_acts_modifyHead rfl]; exact timed.nested id) ?_
        rw [here] at all ⊢
        exact List.forall_mem_cons.mpr (List.forall_mem_cons.mp all)
      exact noted.update (by simp [Track.acts]) (List.forall_mem_singleton.mpr trivial)
    | act action next =>
      simp only
      split
      · exact timed
      · next r s _ =>
        simp only [here, List.modifyHead_cons]
        exact timed.act (a := ⟨id, proc, action, r, c.shared, s⟩) (t := ⟨proc, ds⟩) here

/-! ## To whom somebody returned -/

/-- Whoever has returned has his result on record with somebody who is under way in that flow, or has returned
later; or the flow began with him, of which only some are capable. -/
structure Told (begins : I.Proc → Prop) (n : Annals I σ) : Prop where
  begun : ∀ flow, ∀ t ∈ (n.tracks flow).getLast?, begins t.proc
  told : ∀ later r older, n.returns = later ++ r :: older → begins r.proc ∨
    (∃ t ∈ n.tracks r.flow, .call r.proc r.result ∈ t.deeds) ∨
      ∃ s ∈ later, s.flow = r.flow ∧ .call r.proc r.result ∈ s.deeds

variable {begins : I.Proc → Prop}

/-- The tracks of one flow change, and no deed gets lost. -/
theorem Told.update {ts : List (Track I σ)} (told : n.Told begins) (begun : ∀ t ∈ ts.getLast?, begins t.proc)
    (kept : ∀ t ∈ n.tracks id, ∃ t' ∈ ts, t.deeds ⊆ t'.deeds) :
    Told begins { n with tracks := Function.update n.tracks id ts } := by
  refine ⟨fun flow t ht => ?_, fun later r older split => ?_⟩
  · by_cases own : flow = id
    · subst own
      exact begun t (by simpa using ht)
    · exact told.begun flow t (by simpa [Function.update_of_ne own] using ht)
  · refine (told.told later r older split).imp_right (Or.imp_left ?_)
    rintro ⟨t, ht, called⟩
    by_cases own : r.flow = id
    · obtain ⟨t', ht', more⟩ := kept t (own ▸ ht)
      exact ⟨t', by simpa [own] using ht', more called⟩
    · exact ⟨t, by simpa [Function.update_of_ne own] using ht, called⟩

theorem kept_modifyHead {d : Deed I σ} (ts : List (Track I σ)) :
    ∀ t ∈ ts, ∃ t' ∈ ts.modifyHead (·.note d), t.deeds ⊆ t'.deeds := by
  cases ts with
  | nil => simp
  | cons t ts =>
    refine List.forall_mem_cons.mpr ⟨⟨t.note d, by simp, List.subset_cons_self ..⟩, fun u hu => ?_⟩
    exact ⟨u, by simp [hu], List.Subset.refl _⟩

theorem getLast?_modifyHead {P : I.Proc → Prop} {d : Deed I σ} {ts : List (Track I σ)}
    (last : ∀ t ∈ ts.getLast?, P t.proc) : ∀ t ∈ (ts.modifyHead (·.note d)).getLast?, P t.proc := by
  rcases ts with _ | ⟨t, _ | ⟨u, ts⟩⟩
  · exact last
  · simpa [Track.note] using last
  · simpa using last

theorem Told.return {r : Return I σ} {lower : List (Track I σ)} (told : n.Told begins)
    (here : n.tracks r.flow = ⟨r.proc, r.deeds⟩ :: lower) : Told begins { n with
      tracks := Function.update n.tracks r.flow (lower.modifyHead (·.note (.call r.proc r.result)))
      returns := r :: n.returns } := by
  have last := told.begun r.flow
  rw [here] at last
  refine ⟨fun flow t ht => ?_, fun later s older split => ?_⟩
  · by_cases own : flow = r.flow
    · subst own
      refine getLast?_modifyHead (fun t ht => ?_) t (by simpa using ht)
      cases lower with
      | nil => cases ht
      | cons u lower => exact last t (by rwa [List.getLast?_cons_cons])
    · exact told.begun flow t (by simpa [Function.update_of_ne own] using ht)
  · rcases List.cons_eq_append_iff.mp split with ⟨rfl, same⟩ | ⟨later', rfl, rest⟩
    · obtain ⟨rfl, -⟩ := List.cons.inj same
      cases lower with
      | nil => exact .inl (last ⟨s.proc, s.deeds⟩ rfl)
      | cons t lower => exact .inr (.inl ⟨t.note (.call s.proc s.result), by simp, List.mem_cons_self⟩)
    · rcases told.told later' s older rest with begun | ⟨t, ht, called⟩ | ⟨x, hx, flow, called⟩
      · exact .inl begun
      · by_cases own : s.flow = r.flow
        · rw [own, here] at ht
          rcases List.mem_cons.mp ht with rfl | deeper
          · exact .inr (.inr ⟨r, List.mem_cons_self, own.symm, called⟩)
          · obtain ⟨t', ht', more⟩ := kept_modifyHead (d := .call r.proc r.result) lower t deeper
            exact .inr (.inl ⟨t', by simpa [own] using ht', more called⟩)
        · exact .inr (.inl ⟨t, by simpa [Function.update_of_ne own] using ht, called⟩)
      · exact .inr (.inr ⟨x, List.mem_cons_of_mem r hx, flow, called⟩)

/-- If whoever is started is capable of beginning a flow, nobody's result gets lost. -/
theorem Told.step (told : n.Told begins) (fits : n.Fits m c) (numbered : c.Numbered)
    (starts : ∀ proc other next wait, c.find? id = some ⟨proc, .fork other next, wait⟩ → begins other) :
    (n.step m c id pick).Told begins := by
  unfold Annals.step
  rcases hf : c.find? id with _ | ⟨proc, code, wait⟩
  · exact told
  · obtain ⟨ds, lower, here, -, -⟩ := fits.tracked_of_find hf
    have noted : ∀ d, Told begins { n with
        tracks := Function.update n.tracks id ((n.tracks id).modifyHead (·.note d)) } := fun d =>
      told.update (getLast?_modifyHead (told.begun id)) (kept_modifyHead _)
    cases code with
    | done r =>
      simp only [here, List.tail_cons, List.headD_cons]
      exact told.return (r := ⟨id, proc, r, ds⟩) here
    | call callee next =>
      refine told.update (fun t ht => told.begun id t ?_) fun t ht => ⟨t, List.mem_cons_of_mem _ ht, List.Subset.refl _⟩
      rw [here] at ht ⊢
      rwa [List.getLast?_cons_cons] at ht
    | fork other next =>
      refine (noted (.start other)).update (by simpa using starts proc other next wait hf) fun t ht => ?_
      have new : c.next ≠ id := by
        obtain ⟨p, hp, -⟩ := Option.map_eq_some_iff.mp hf
        have found : p.1 = id := by simpa using List.find?_some hp
        exact found ▸ (numbered.below p (List.mem_of_find?_eq_some hp)).ne'
      have unused : n.tracks c.next = [] := fits.gone c.next fun mem => by
        obtain ⟨p, hp, same⟩ := List.mem_map.mp mem
        exact (numbered.below p hp).ne same
      simp [Function.update_of_ne new, unused] at ht
    | act action next =>
      simp only
      split
      · exact told
      · exact ⟨(noted _).begun, (noted _).told⟩

end Annals

namespace Chronicle

variable {c : Chronicle}

/-- Whatever happens to a broker, results are on record in time. -/
theorem timed_moves (settings : BrokerSettings) (endpoints : List (EngineName × Endpoint)) (main : EngineName)
    (host : Host) (ms : List Move) : ((new settings endpoints main host).moves ms).annals.Timed := by
  refine (moves_keep (P := fun c => c.Faithful ∧ c.annals.Timed) (fun c mv keeps => ?_)
    ⟨faithful_new .., fun _ => List.nil_sublist _, by rintro _ _ ⟨⟩, trivial⟩ ms).2
  obtain ⟨faithful, timed⟩ := keeps
  refine ⟨faithful.move mv, ?_⟩
  cases mv with
  | arrive name request =>
    exact timed.update (by simp [Track.acts]) (List.forall_mem_singleton.mpr trivial)
  | outside change => exact timed
  | step flow pick => exact timed.step faithful.fits

/-- Whatever happens to a broker of which nobody starts others than those who are capable of beginning a flow,
nobody's result gets lost. -/
theorem told_moves {begins : Proc → Prop} (clients : ∀ name request, begins (.serveClient name request))
    (bodies : ∀ proc, (body proc).Within ⟨fun _ => True, fun _ => True, begins⟩) (settings : BrokerSettings)
    (endpoints : List (EngineName × Endpoint)) (main : EngineName) (host : Host) (ms : List Move) :
    ((new settings endpoints main host).moves ms).annals.Told begins := by
  refine (moves_keep (P := fun c => c.Faithful ∧ c.annals.Told begins) (fun c mv keeps => ?_)
    ⟨faithful_new .., by rintro _ _ ⟨⟩, fun later r older split => by cases later <;> cases split⟩ ms).2
  obtain ⟨faithful, told⟩ := keeps
  refine ⟨faithful.move mv, ?_⟩
  cases mv with
  | arrive name request =>
    have unused : c.annals.tracks c.play.config.next = [] := faithful.fits.gone _ fun mem => by
      obtain ⟨p, hp, same⟩ := List.mem_map.mp mem
      exact (faithful.numbered.below p hp).ne same
    exact told.update (by simpa using clients name request) (by simp [unused])
  | outside change => exact told
  | step flow pick =>
    refine told.step faithful.fits faithful.numbered fun proc other next wait hf => ?_
    obtain ⟨ds, lower, -, leads, -⟩ := faithful.fits.tracked_of_find hf
    exact (leads.within (bodies proc)).1

end Chronicle

end SessionBroker
