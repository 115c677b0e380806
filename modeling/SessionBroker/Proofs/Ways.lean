import SessionBroker.Proofs.Chronicle

/-!
# Ways and results

What can be said of all ways through a program, and what the results of calls say of the procedures that
were called: those have returned before, and whatever is true of everybody who returns, if it is true of
those whom he called, is true.
-/

namespace SessionBroker

variable {I : Interface} {σ α β : Type} {m : Machine I σ} {flow : Nat} {who : I.Proc}

namespace Program

/-- Whatever way a program takes after some deeds, all deeds and its result are as `post` says. -/
def Comes (m : Machine I σ) (flow : Nat) (who : I.Proc) (post : List (Deed I σ) → α → Prop) :
    Program I α → List (Deed I σ) → Prop
  | .done a, ds => post ds a
  | .act action next, ds => ∀ pick r s t, m.perform flow pick action s = some (r, t) →
      (next r).Comes m flow who post (.act ⟨flow, who, action, r, s, t⟩ :: ds)
  | .call callee next, ds => ∀ r, (next r).Comes m flow who post (.call callee r :: ds)
  | .fork other next, ds => next.Comes m flow who post (.start other :: ds)

variable {post : List (Deed I σ) → α → Prop} {p : Program I α} {ds : List (Deed I σ)}

theorem Comes.imp {post' : List (Deed I σ) → α → Prop} (h : p.Comes m flow who post ds)
    (weaker : ∀ ds a, post ds a → post' ds a) : p.Comes m flow who post' ds := by
  induction p generalizing ds with
  | done a => exact weaker ds a h
  | act action next ih => exact fun pick r s t hp => ih r (h pick r s t hp)
  | call callee next ih => exact fun r => ih r (h r)
  | fork other next ih => exact ih h

theorem Comes.bind {R : List (Deed I σ) → β → Prop} {q : Program I β} {f : β → Program I α}
    (h : q.Comes m flow who R ds) (hf : ∀ ds b, R ds b → (f b).Comes m flow who post ds) :
    (q >>= f).Comes m flow who post ds := by
  induction q generalizing ds with
  | done b => exact hf ds b h
  | act action next ih => exact fun pick r s t hp => ih r (h pick r s t hp)
  | call callee next ih => exact fun r => ih r (h r)
  | fork other next ih => exact ih h

/-- What follows another program comes to its end, whatever that one has done. -/
theorem comes_after {q : Program I β} {f : β → Program I α} (h : ∀ ds b, (f b).Comes m flow who post ds) :
    (q >>= f).Comes m flow who post ds := by
  induction q generalizing ds with
  | done b => exact h ds b
  | act action next ih => exact fun _ r _ _ _ => ih r
  | call callee next ih => exact fun r => ih r
  | fork other next ih => exact ih

theorem comes_perform {action : I.Action} {f : I.Reply action → Program I α}
    (h : ∀ pick r s t, m.perform flow pick action s = some (r, t) →
      (f r).Comes m flow who post (.act ⟨flow, who, action, r, s, t⟩ :: ds)) :
    (perform action >>= f).Comes m flow who post ds := h

theorem comes_invoke {callee : I.Proc} {f : I.Result callee → Program I α}
    (h : ∀ r, (f r).Comes m flow who post (.call callee r :: ds)) :
    (invoke callee >>= f).Comes m flow who post ds := h

/-- What a program brings about on all its ways, is so on each of them. -/
theorem Comes.leads {q : Program I α} {es : List (Deed I σ)} (h : p.Comes m flow who post [])
    (leads : p.Leads m flow who es q) : q.Comes m flow who post es := by
  induction leads with
  | nil => exact h
  | act _ performed ih => exact ih _ _ _ _ performed
  | call r _ ih => exact ih r
  | start _ ih => exact ih

/-- A way through one program and then another ends in the first one, or leads through it. -/
theorem Leads.of_bind {q : Program I β} {f : β → Program I α} {ds : List (Deed I σ)} {p : Program I α}
    (leads : (q >>= f).Leads m flow who ds p) : (∃ q', q.Leads m flow who ds q' ∧ p = q' >>= f) ∨
      ∃ early late b, ds = late ++ early ∧ q.Leads m flow who early (.done b) ∧ (f b).Leads m flow who late p := by
  induction leads with
  | nil => exact .inl ⟨q, .nil, rfl⟩
  | act _ performed ih =>
    rcases ih with ⟨q', inside, same⟩ | ⟨early, late, b, rfl, through, on⟩
    · cases q' with
      | done b => exact .inr ⟨_, [_], b, rfl, inside, .act (same ▸ .nil) performed⟩
      | act action next =>
        cases same
        exact .inl ⟨_, .act inside performed, rfl⟩
      | call | fork => cases same
    · exact .inr ⟨early, _ :: late, b, rfl, through, .act on performed⟩
  | call r _ ih =>
    rcases ih with ⟨q', inside, same⟩ | ⟨early, late, b, rfl, through, on⟩
    · cases q' with
      | done b => exact .inr ⟨_, [_], b, rfl, inside, .call r (same ▸ .nil)⟩
      | call callee next =>
        cases same
        exact .inl ⟨_, .call r inside, rfl⟩
      | act | fork => cases same
    · exact .inr ⟨early, _ :: late, b, rfl, through, .call r on⟩
  | start _ ih =>
    rcases ih with ⟨q', inside, same⟩ | ⟨early, late, b, rfl, through, on⟩
    · cases q' with
      | done b => exact .inr ⟨_, [_], b, rfl, inside, .start (same ▸ .nil)⟩
      | fork other next =>
        cases same
        exact .inl ⟨_, .start inside, rfl⟩
      | act | call => cases same
    · exact .inr ⟨early, _ :: late, b, rfl, through, .start on⟩

/-- A way to the end of two programs, one after the other, leads through the first one. -/
theorem Leads.of_bind_done {q : Program I β} {f : β → Program I α} {ds : List (Deed I σ)} {a : α}
    (leads : (q >>= f).Leads m flow who ds (.done a)) :
    ∃ early late b, ds = late ++ early ∧ q.Leads m flow who early (.done b) ∧
      (f b).Leads m flow who late (.done a) := by
  rcases leads.of_bind with ⟨q', inside, same⟩ | through
  · cases q' with
    | done b => exact ⟨ds, [], b, rfl, inside, same ▸ .nil⟩
    | act | call | fork => cases same
  · exact through

theorem leads_perform {action : I.Action} {q : Program I (I.Reply action)} {ds : List (Deed I σ)}
    (leads : (perform action).Leads m flow who ds q) : ds = [] ∧ q = perform action ∨
      ∃ r s t, ds = [.act ⟨flow, who, action, r, s, t⟩] ∧ q = .done r := by
  induction leads with
  | nil => exact .inl ⟨rfl, rfl⟩
  | act _ _ ih =>
    rcases ih with ⟨rfl, same⟩ | ⟨_, _, _, -, same⟩
    · cases same
      exact .inr ⟨_, _, _, rfl, rfl⟩
    · cases same
  | call _ _ ih | start _ ih => rcases ih with ⟨-, same⟩ | ⟨_, _, _, -, same⟩ <;> cases same

/-- A way through a step and what follows begins with the step. -/
theorem Leads.of_perform {action : I.Action} {f : I.Reply action → Program I α} {ds : List (Deed I σ)}
    {p : Program I α} (leads : (perform action >>= f).Leads m flow who ds p) : ds = [] ∨
      ∃ r s t late, ds = late ++ [.act ⟨flow, who, action, r, s, t⟩] ∧ (f r).Leads m flow who late p := by
  rcases leads.of_bind with ⟨q, inside, rfl⟩ | ⟨early, late, r, rfl, through, on⟩
  · rcases leads_perform inside with ⟨rfl, -⟩ | ⟨r, s, t, rfl, rfl⟩
    · exact .inl rfl
    · exact .inr ⟨r, s, t, [], rfl, .nil⟩
  · rcases leads_perform through with ⟨-, same⟩ | ⟨r', s, t, rfl, same⟩
    · cases same
    · cases same
      exact .inr ⟨r, s, t, late, rfl, on⟩

/-- What has come to its end leads nowhere. -/
theorem Leads.of_done {a : α} {ds : List (Deed I σ)} {p : Program I α}
    (leads : (Program.done a).Leads m flow who ds p) : ds = [] ∧ p = .done a := by
  induction leads with
  | nil => exact ⟨rfl, rfl⟩
  | act _ _ ih | call _ _ ih | start _ ih => cases ih.2

end Program

/-- A deed that a scope allows. -/
def Deed.Stays (S : Scope I) : Deed I σ → Prop
  | .act a => S.acts a.action
  | .call callee _ => S.calls callee
  | .start other => S.starts other

namespace Program

variable {S : Scope I} {post : List (Deed I σ) → α → Prop} {p : Program I α} {ds : List (Deed I σ)}

theorem stays_cons {d : Deed I σ} (stays : d.Stays S)
    (done : ∀ new a, (∀ d ∈ new, Deed.Stays S d) → post (new ++ ds) a) (new : List (Deed I σ)) (a : α)
    (all : ∀ d ∈ new, Deed.Stays S d) : post (new ++ d :: ds) a := by
  have grown := done (new ++ [d]) a (by simpa [or_imp, forall_and] using ⟨all, stays⟩)
  rwa [List.append_assoc] at grown

/-- Of a program within a scope one knows what it may have done. -/
theorem Within.comes (h : p.Within S)
    (done : ∀ new a, (∀ d ∈ new, Deed.Stays S d) → post (new ++ ds) a) : p.Comes m flow who post ds := by
  induction p generalizing ds with
  | done a => exact done [] a (by simp)
  | act action next ih => exact fun pick r s t _ => ih r (h.2 r) (stays_cons h.1 done)
  | call callee next ih => exact fun r => ih r (h.2 r) (stays_cons h.1 done)
  | fork other next ih => exact ih h.2 (stays_cons h.1 done)

/-- What follows a program within a scope. -/
theorem comes_then {q : Program I β} {f : β → Program I α} (h : q.Within S)
    (hf : ∀ new b, (∀ d ∈ new, Deed.Stays S d) → (f b).Comes m flow who post (new ++ ds)) :
    (q >>= f).Comes m flow who post ds :=
  Comes.bind (R := fun all b => (f b).Comes m flow who post all) (h.comes hf) fun _ _ h => h

end Program

/-! ## Those who have returned -/

/-- Whoever is said to have returned a result in a flow, has. -/
def Answers (older : List (Return I σ)) (flow : Nat) (ds : List (Deed I σ)) : Prop :=
  ∀ callee r, .call callee r ∈ ds → ∃ ds', ⟨flow, callee, r, ds'⟩ ∈ older

/-- Of those who have returned, everybody's callees had returned before. -/
def Answered : List (Return I σ) → Prop
  | [] => True
  | r :: older => Answers older r.flow r.deeds ∧ Answered older

/-- What is true of all who return if it is true of all whom they called, is true of all. -/
theorem Answered.all {P : Return I σ → Prop} {rs : List (Return I σ)} (answered : Answered rs)
    (step : ∀ r ∈ rs, (∀ callee x, .call callee x ∈ r.deeds → ∃ ds, ⟨r.flow, callee, x, ds⟩ ∈ rs ∧
      P ⟨r.flow, callee, x, ds⟩) → P r) : ∀ r ∈ rs, P r := by
  suffices all : ∀ older, older <:+ rs → Answered older → ∀ r ∈ older, P r from all rs List.suffix_rfl answered
  intro older suffix answered
  induction older with
  | nil => simp
  | cons r older ih =>
    have rest := ih ((List.suffix_cons r older).trans suffix) answered.2
    refine List.forall_mem_cons.mpr ⟨step r (suffix.subset List.mem_cons_self) fun callee x called => ?_, rest⟩
    obtain ⟨ds, here⟩ := answered.1 callee x called
    exact ⟨ds, suffix.subset (List.mem_cons_of_mem r here), rest _ here⟩

namespace Annals

variable {n : Annals I σ} {c : Config I σ} {id : Nat} {pick : Bool}

/-- All results on record are those of calls on record. -/
structure Heard (n : Annals I σ) : Prop where
  tracks : ∀ flow, ∀ t ∈ n.tracks flow, Answers n.returns flow t.deeds
  returns : Answered n.returns

theorem answers_of_subset {older newer : List (Return I σ)} {ds : List (Deed I σ)} (more : older ⊆ newer)
    (h : Answers older flow ds) : Answers newer flow ds := fun callee r called =>
  have ⟨ds', here⟩ := h callee r called
  ⟨ds', more here⟩

/-- Whose result is on record with one who has returned, has returned. -/
theorem Heard.returned_call (heard : n.Heard) {r : Return I σ} (here : r ∈ n.returns) {callee : I.Proc}
    {x : I.Result callee} (called : .call callee x ∈ r.deeds) : ∃ ds, ⟨r.flow, callee, x, ds⟩ ∈ n.returns := by
  have found : ∀ r ∈ n.returns, ∀ callee x, .call callee x ∈ r.deeds →
      ∃ ds, ⟨r.flow, callee, x, ds⟩ ∈ n.returns :=
    heard.returns.all fun r _ told callee x called => (told callee x called).imp fun ds here => here.1
  exact found r here callee x called

theorem Heard.update {ts : List (Track I σ)} (heard : n.Heard)
    (mine : ∀ t ∈ ts, Answers n.returns id t.deeds) :
    ∀ flow, ∀ t ∈ Function.update n.tracks id ts flow, Answers n.returns flow t.deeds := by
  intro flow t ht
  by_cases own : flow = id
  · subst own
    exact mine t (by simpa using ht)
  · exact heard.tracks flow t (by simpa [Function.update_of_ne own] using ht)

/-- Whoever notes no result that he did not get. -/
theorem answers_modifyHead {older : List (Return I σ)} {d : Deed I σ} {ts : List (Track I σ)}
    (all : ∀ t ∈ ts, Answers older id t.deeds) (known : Answers older id [d]) :
    ∀ t ∈ ts.modifyHead (·.note d), Answers older id t.deeds := by
  cases ts with
  | nil => exact all
  | cons t ts =>
    obtain ⟨mine, others⟩ := List.forall_mem_cons.mp all
    refine List.forall_mem_cons.mpr ⟨fun callee r called => ?_, others⟩
    rcases List.mem_cons.mp called with same | old
    · exact known callee r (List.mem_singleton.mpr same)
    · exact mine callee r old

theorem Heard.step (heard : n.Heard) (fits : n.Fits m c) : (n.step m c id pick).Heard := by
  unfold Annals.step
  rcases hf : c.find? id with _ | ⟨proc, code, wait⟩
  · exact heard
  · obtain ⟨ds, lower, here, -, -⟩ := fits.tracked_of_find hf
    have all := heard.tracks id
    cases code with
    | done r =>
      have whole : Heard { n with returns := ⟨id, proc, r, ds⟩ :: n.returns } :=
        ⟨fun flow t ht => answers_of_subset (List.subset_cons_self ..) (heard.tracks flow t ht),
          all _ (here ▸ List.mem_cons_self), heard.returns⟩
      simp only [here, List.tail_cons, List.headD_cons]
      refine ⟨whole.update (answers_modifyHead (fun t ht => ?_) ?_), whole.returns⟩
      · exact whole.tracks id t (here ▸ List.mem_cons_of_mem _ ht)
      · intro callee x called
        cases List.mem_singleton.mp called
        exact ⟨ds, List.mem_cons_self⟩
    | act action next =>
      simp only
      split
      · exact heard
      · exact ⟨heard.update (answers_modifyHead all (by simp [Answers])), heard.returns⟩
    | call callee next =>
      exact ⟨heard.update (List.forall_mem_cons.mpr ⟨by simp [Answers], all⟩), heard.returns⟩
    | fork other next =>
      have noted : Heard { n with
          tracks := Function.update n.tracks id ((n.tracks id).modifyHead (·.note (.start other))) } :=
        ⟨heard.update (answers_modifyHead all (by simp [Answers])), heard.returns⟩
      exact ⟨noted.update (List.forall_mem_singleton.mpr (by simp [Answers])), heard.returns⟩

/-! ### What was done by those who have returned -/

theorem Fits.flow_of_return (fits : n.Fits m c) {r : Return I σ} (here : r ∈ n.returns) {a : Act I σ}
    (done : a ∈ r.acts) : a.flow = r.flow :=
  ((fits.returned r here).act_mem (Return.mem_acts.mp done)).1

theorem count_flatMap_acts [DecidableEq (Act I σ)] {rs : List (Return I σ)} (a : Act I σ)
    (own : ∀ r ∈ rs, ∀ b ∈ r.acts, b.flow = r.flow) :
    (rs.flatMap Return.acts).count a = ((rs.filter (·.flow = a.flow)).flatMap Return.acts).count a := by
  induction rs with
  | nil => rfl
  | cons r rs ih =>
    obtain ⟨mine, others⟩ := List.forall_mem_cons.mp own
    by_cases same : r.flow = a.flow
    · simp [same, ih others]
    · have none : a ∉ r.acts := fun here => same (mine a here).symm
      simp [same, ih others, List.count_eq_zero_of_not_mem none]

/-- The acts of those who have returned are on record one by one. -/
theorem Fits.subperm_log (fits : n.Fits m c) : (n.returns.flatMap Return.acts).Subperm n.log := by
  classical
  refine List.subperm_ext_iff.mpr fun a _ => ?_
  calc (n.returns.flatMap Return.acts).count a
    _ = ((n.returns.filter (·.flow = a.flow)).flatMap Return.acts).count a :=
      count_flatMap_acts a fun r here b done => fits.flow_of_return here done
    _ ≤ (n.actsOf a.flow).count a := (List.sublist_append_left ..).count_le a
    _ = (n.log.filter (·.flow = a.flow)).count a := (fits.complete a.flow).count_eq a
    _ ≤ n.log.count a := List.filter_sublist.count_le a

/-- There are no more of those who have returned and did something than acts of that kind. -/
theorem Fits.countP_returns_le (fits : n.Fits m c) {f : Return I σ → Bool} {g : Act I σ → Bool}
    (did : ∀ r ∈ n.returns, f r = true → ∃ a, .act a ∈ r.deeds ∧ g a = true) :
    n.returns.countP f ≤ n.log.countP g := by
  refine le_trans ?_ (fits.subperm_log.countP_le g)
  generalize n.returns = rs at did
  induction rs with
  | nil => simp
  | cons r rs ih =>
    obtain ⟨mine, others⟩ := List.forall_mem_cons.mp did
    rw [List.countP_cons, List.flatMap_cons, List.countP_append]
    have rest := ih others
    split
    · next counts =>
      obtain ⟨a, done, good⟩ := mine counts
      have some : 0 < r.acts.countP g := List.countP_pos_iff.mpr ⟨a, Return.mem_acts.mpr done, good⟩
      omega
    · omega

end Annals

namespace Chronicle

variable {c : Chronicle}

theorem heard_move (faithful : c.Faithful) (heard : c.annals.Heard) (m : Move) :
    (c.move m).annals.Heard := by
  cases m with
  | arrive name request =>
    exact ⟨heard.update (List.forall_mem_singleton.mpr (by simp [Answers])), heard.returns⟩
  | outside change => exact heard
  | step flow pick => exact heard.step (m := brokerMachine) faithful.fits

/-- Whatever happens, all results on record are those of calls on record. -/
theorem heard_moves (settings : BrokerSettings) (endpoints : List (EngineName × Endpoint))
    (main : EngineName) (host : Host) (ms : List Move) :
    ((new settings endpoints main host).moves ms).annals.Heard := by
  refine (moves_keep (P := fun c => c.Faithful ∧ c.annals.Heard) (fun c m keeps => ?_)
    ⟨faithful_new .., by rintro _ _ ⟨⟩, trivial⟩ ms).2
  exact ⟨keeps.1.move m, heard_move keeps.1 keeps.2 m⟩

end Chronicle

end SessionBroker
