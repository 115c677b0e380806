import Mathlib.Data.List.Perm.Basic
import SessionBroker.Proofs.Lore

/-!
# Chronicles

A chronicle keeps, next to a play, what everybody has done: for each procedure under way what it has done
itself, which is neither what its callees did nor what its callers did; the same for each procedure that
has returned; and all actions in the order in which they were performed. What a procedure has done is a
way through its body, so that whatever is true of the ways through a body is true of the procedure.
-/

namespace SessionBroker

variable {I : Interface} {σ : Type}

/-- An action that a procedure performed in some flow. -/
structure Act (I : Interface) (σ : Type) where
  flow : Nat
  proc : I.Proc
  action : I.Action
  reply : I.Reply action
  before : σ
  after : σ

/-- One thing that a procedure did itself. -/
inductive Deed (I : Interface) (σ : Type) where
  | act (a : Act I σ)
  /-- It called a procedure, which has returned. -/
  | call (callee : I.Proc) (result : I.Result callee)
  | start (other : I.Proc)

def Deed.act? : Deed I σ → Option (Act I σ)
  | .act a => some a
  | _ => none

/-- A procedure under way, and what it has done, the last deed first. -/
structure Track (I : Interface) (σ : Type) where
  proc : I.Proc
  deeds : List (Deed I σ)

/-- A procedure that has returned, and what it had done. -/
structure Return (I : Interface) (σ : Type) where
  flow : Nat
  proc : I.Proc
  result : I.Result proc
  deeds : List (Deed I σ)

def Track.note (t : Track I σ) (d : Deed I σ) : Track I σ := { t with deeds := d :: t.deeds }

/-- The actions among the deeds. -/
def Track.acts (t : Track I σ) : List (Act I σ) := t.deeds.filterMap Deed.act?

def Return.acts (r : Return I σ) : List (Act I σ) := r.deeds.filterMap Deed.act?

theorem Deed.act?_eq_some {d : Deed I σ} {a : Act I σ} : d.act? = some a ↔ d = .act a := by
  cases d <;> simp [act?]

theorem Track.mem_acts {t : Track I σ} {a : Act I σ} : a ∈ t.acts ↔ .act a ∈ t.deeds := by
  simp [acts, Deed.act?_eq_some]

theorem Return.mem_acts {r : Return I σ} {a : Act I σ} : a ∈ r.acts ↔ .act a ∈ r.deeds := by
  simp [acts, Deed.act?_eq_some]

/-! ## Ways through programs -/

/-- By some deeds of a procedure in a flow, a program comes to what is left of it. -/
inductive Program.Leads (m : Machine I σ) (flow : Nat) (who : I.Proc) {α : Type} (p : Program I α) :
    List (Deed I σ) → Program I α → Prop where
  | nil : Leads m flow who p [] p
  | act {ds : List (Deed I σ)} {action : I.Action} {next : I.Reply action → Program I α} {pick : Bool}
      {r : I.Reply action} {s t : σ} : Leads m flow who p ds (.act action next) →
      m.perform flow pick action s = some (r, t) →
      Leads m flow who p (.act ⟨flow, who, action, r, s, t⟩ :: ds) (next r)
  | call {ds : List (Deed I σ)} {callee : I.Proc} {next : I.Result callee → Program I α}
      (r : I.Result callee) : Leads m flow who p ds (.call callee next) →
      Leads m flow who p (.call callee r :: ds) (next r)
  | start {ds : List (Deed I σ)} {other : I.Proc} {next : Program I α} :
      Leads m flow who p ds (.fork other next) → Leads m flow who p (.start other :: ds) next

namespace Program.Leads

variable {m : Machine I σ} {flow : Nat} {who : I.Proc} {α : Type} {p q : Program I α}
  {ds : List (Deed I σ)} {a : Act I σ}

/-- Its acts are a procedure's own, and were performed as it says. -/
theorem act_mem (leads : p.Leads m flow who ds q) (here : .act a ∈ ds) :
    a.flow = flow ∧ a.proc = who ∧ ∃ pick, m.perform flow pick a.action a.before = some (a.reply, a.after) := by
  induction leads with
  | nil => cases here
  | act _ performed ih =>
    rcases List.mem_cons.mp here with same | old
    · cases same
      exact ⟨rfl, rfl, _, performed⟩
    · exact ih old
  | call r _ ih => exact ih (List.mem_of_ne_of_mem (by rintro ⟨⟩) here)
  | start _ ih => exact ih (List.mem_of_ne_of_mem (by rintro ⟨⟩) here)

variable {S : Scope I}

/-- What is left of a program within a scope is within it. -/
theorem within (leads : p.Leads m flow who ds q) (h : p.Within S) : q.Within S := by
  induction leads with
  | nil => exact h
  | act _ _ ih => exact ih.2 _
  | call r _ ih => exact ih.2 r
  | start _ ih => exact ih.2

theorem acts_within (leads : p.Leads m flow who ds q) (h : p.Within S) (here : .act a ∈ ds) :
    S.acts a.action := by
  induction leads with
  | nil => cases here
  | act before _ ih =>
    rcases List.mem_cons.mp here with same | old
    · cases same
      exact (before.within h).1
    · exact ih old
  | call r _ ih => exact ih (List.mem_of_ne_of_mem (by rintro ⟨⟩) here)
  | start _ ih => exact ih (List.mem_of_ne_of_mem (by rintro ⟨⟩) here)

end Program.Leads

/-- Whom a program calls or starts next is of some kind. -/
def Program.Next {α : Type} (P : I.Proc → Prop) : Program I α → Prop
  | .call callee _ => P callee
  | .fork other _ => P other
  | _ => True

/-! ## What a procedure remembers of its deeds -/

namespace Lore

variable {M : Type} (L : Lore I σ M) (heed : (callee : I.Proc) → I.Result callee → M → M)

/-- What is remembered of some deeds; what callees did is not remembered, but their results may be. -/
def remembered : List (Deed I σ) → M → M
  | [], k => k
  | .act a :: ds, k => L.note a.action a.reply a.before (remembered ds k)
  | .call callee r :: ds, k => heed callee r (remembered ds k)
  | .start _ :: ds, k => remembered ds k

/-- Each deed was allowed by what was remembered of those before. -/
def Followed : List (Deed I σ) → M → Prop
  | [], _ => True
  | .act a :: ds, k => L.acts a.action (L.remembered heed ds k) ∧ Followed ds k
  | .call callee _ :: ds, k => L.calls callee (L.remembered heed ds k) ∧ Followed ds k
  | .start other :: ds, k => L.starts other (L.remembered heed ds k) ∧ Followed ds k

variable {L heed} {m : Machine I σ} {flow : Nat} {who : I.Proc} {α : Type} {p q : Program I α}
  {ds : List (Deed I σ)} {k : M} {post : α → M → Prop}

/-- A program that minds a lore of its own deeds minds it on all its ways. -/
theorem minds_leads (own : ∀ callee k r, L.back callee k r (heed callee r k))
    (minds : p.Minds L m post k) (leads : p.Leads m flow who ds q) :
    q.Minds L m post (L.remembered heed ds k) ∧ L.Followed heed ds k := by
  induction leads with
  | nil => exact ⟨minds, trivial⟩
  | act _ performed ih => exact ⟨ih.1.2 _ _ _ _ _ performed, ih.1.1, ih.2⟩
  | call r _ ih => exact ⟨ih.1.2 r _ (own _ _ r), ih.1.1, ih.2⟩
  | start _ ih => exact ⟨ih.1.2, ih.1.1, ih.2⟩

end Lore

/-! ## Those under way -/

/-- The callers that wait have come where they are by what they did. -/
def Waiting.Tracked (m : Machine I σ) (flow : Nat) :
    {proc : I.Proc} → Waiting I proc → List (Track I σ) → Prop
  | _, .root _, tracks => tracks = []
  | _, @Waiting.caller _ callee proc next below, tracks => ∃ ds lower, tracks = ⟨proc, ds⟩ :: lower ∧
      (m.body proc).Leads m flow proc ds (.call callee next) ∧ below.Tracked m flow lower

/-- Whoever is under way in a flow has come where he is by what he did. -/
def Flow.Tracked (m : Machine I σ) (flow : Nat) (f : Flow I) (tracks : List (Track I σ)) : Prop :=
  ∃ ds lower, tracks = ⟨f.proc, ds⟩ :: lower ∧ (m.body f.proc).Leads m flow f.proc ds f.code ∧
    f.waiting.Tracked m flow lower

/-- Each caller that waits has come to a call. -/
theorem Waiting.Tracked.waits {m : Machine I σ} {flow : Nat} {proc : I.Proc} {wait : Waiting I proc}
    {ts : List (Track I σ)} (tracked : wait.Tracked m flow ts) {t : Track I σ} (here : t ∈ ts) :
    ∃ callee next, (m.body t.proc).Leads m flow t.proc t.deeds (.call callee next) := by
  induction wait generalizing ts with
  | root =>
    cases tracked
    cases here
  | caller next below ih =>
    obtain ⟨ds, lower, rfl, leads, tracked⟩ := tracked
    rcases List.mem_cons.mp here with rfl | deeper
    · exact ⟨_, _, leads⟩
    · exact ih tracked deeper

/-- What everybody has done. -/
structure Annals (I : Interface) (σ : Type) where
  /-- The procedures under way in each flow, the innermost one first. -/
  tracks : Nat → List (Track I σ)
  /-- The actions, the last one first. -/
  log : List (Act I σ)
  /-- The procedures that have returned, the last one first. -/
  returns : List (Return I σ)

namespace Annals

variable (m : Machine I σ) (c : Config I σ) (id : Nat) (pick : Bool) (n : Annals I σ)

/-- What is on record after a step of a flow. -/
def step : Annals I σ :=
  match c.find? id with
  | none => n
  | some ⟨proc, .done r, _⟩ => { n with
      tracks := Function.update n.tracks id ((n.tracks id).tail.modifyHead (·.note (.call proc r)))
      returns := ⟨id, proc, r, ((n.tracks id).headD ⟨proc, []⟩).deeds⟩ :: n.returns }
  | some ⟨_, .call callee _, _⟩ => { n with
      tracks := Function.update n.tracks id (⟨callee, []⟩ :: n.tracks id) }
  | some ⟨_, .fork other _, _⟩ => { n with
      tracks := Function.update
        (Function.update n.tracks id ((n.tracks id).modifyHead (·.note (.start other)))) c.next
        [⟨other, []⟩] }
  | some ⟨proc, .act action _, _⟩ =>
    match m.perform id pick action c.shared with
    | none => n
    | some (r, s) => { n with
        tracks := Function.update n.tracks id
          ((n.tracks id).modifyHead (·.note (.act ⟨id, proc, action, r, c.shared, s⟩)))
        log := ⟨id, proc, action, r, c.shared, s⟩ :: n.log }

/-- All acts of a flow, in the order of the procedures that performed them. -/
def actsOf (flow : Nat) : List (Act I σ) :=
  (n.returns.filter (·.flow = flow)).flatMap Return.acts ++ (n.tracks flow).flatMap Track.acts

/-- What is on record is what happened. -/
structure Fits : Prop where
  tracked : ∀ p ∈ c.flows, p.2.Tracked m p.1 (n.tracks p.1)
  returned : ∀ r ∈ n.returns, (m.body r.proc).Leads m r.flow r.proc r.deeds (.done r.result)
  complete : ∀ flow, (n.actsOf flow).Perm (n.log.filter (·.flow = flow))
  gone : ∀ flow, flow ∉ c.flows.map Prod.fst → n.tracks flow = []

variable {m c id pick n}

theorem map_fst_update {g : Flow I} {s : σ} :
    (Config.update { c with shared := s } id g).flows.map Prod.fst = c.flows.map Prod.fst := by
  simp only [Config.update, List.map_map]
  refine List.map_congr_left fun p _ => ?_
  by_cases mine : p.1 = id <;> simp [mine]

/-- One flow changes, and nobody else's track. -/
theorem Fits.tracked_update {g : Flow I} {s : σ} {ts : List (Track I σ)}
    (tracked : ∀ p ∈ c.flows, p.2.Tracked m p.1 (n.tracks p.1)) (mine : g.Tracked m id ts) :
    ∀ p ∈ (Config.update { c with shared := s } id g).flows,
      p.2.Tracked m p.1 (Function.update n.tracks id ts p.1) := by
  intro q hq
  obtain ⟨old, hold, rfl⟩ := List.mem_map.mp hq
  split
  · simpa using mine
  · next other => simpa [Function.update_of_ne other] using tracked old hold

theorem flatMap_acts_modifyHead {d : Deed I σ} (silent : d.act? = none) (ts : List (Track I σ)) :
    (ts.modifyHead (·.note d)).flatMap Track.acts = ts.flatMap Track.acts := by
  cases ts with
  | nil => rfl
  | cons t ts => simp [Track.note, Track.acts, silent]

/-- A deed that is no act changes nothing about who performed what. -/
theorem Fits.complete_update (complete : ∀ flow, (n.actsOf flow).Perm (n.log.filter (·.flow = flow)))
    {ts : List (Track I σ)} (same : ts.flatMap Track.acts = (n.tracks id).flatMap Track.acts) (flow : Nat) :
    (actsOf { n with tracks := Function.update n.tracks id ts } flow).Perm
      (n.log.filter (·.flow = flow)) := by
  refine (List.Perm.of_eq ?_).trans (complete flow)
  by_cases mine : flow = id
  · subst mine
    simp [actsOf, same]
  · simp [actsOf, Function.update_of_ne mine]

theorem Fits.complete_act (complete : ∀ flow, (n.actsOf flow).Perm (n.log.filter (·.flow = flow)))
    {a : Act I σ} {t : Track I σ} {lower : List (Track I σ)} (here : n.tracks a.flow = t :: lower)
    (flow : Nat) :
    (actsOf { n with
        tracks := Function.update n.tracks a.flow (t.note (.act a) :: lower), log := a :: n.log }
      flow).Perm ((a :: n.log).filter (·.flow = flow)) := by
  have before := complete flow
  by_cases mine : flow = a.flow
  · subst mine
    simp only [actsOf, here, List.flatMap_cons] at before
    simp only [actsOf, Function.update_self, List.flatMap_cons, Track.acts, Track.note, List.filterMap_cons,
      Deed.act?, List.cons_append, decide_true, List.filter_cons_of_pos]
    exact List.perm_middle.trans (before.cons a)
  · have other : ¬a.flow = flow := fun same => mine same.symm
    simpa [actsOf, Function.update_of_ne mine, other] using before

theorem Fits.complete_return (complete : ∀ flow, (n.actsOf flow).Perm (n.log.filter (·.flow = flow)))
    {r : Return I σ} {lower ts : List (Track I σ)} (here : n.tracks r.flow = ⟨r.proc, r.deeds⟩ :: lower)
    (same : ts.flatMap Track.acts = lower.flatMap Track.acts) (flow : Nat) :
    (actsOf { n with tracks := Function.update n.tracks r.flow ts, returns := r :: n.returns } flow).Perm
      (n.log.filter (·.flow = flow)) := by
  have before := complete flow
  by_cases mine : flow = r.flow
  · subst mine
    simp only [actsOf, here, List.flatMap_cons] at before
    simp only [actsOf, Function.update_self, same, decide_true, List.filter_cons_of_pos, List.flatMap_cons]
    refine List.Perm.trans ?_ before
    rw [List.append_assoc, ← List.append_assoc, ← List.append_assoc]
    exact List.perm_append_comm.append_right _
  · have other : ¬r.flow = flow := fun same => mine same.symm
    simpa [actsOf, Function.update_of_ne mine, other] using before

/-- A flow begins. -/
theorem Fits.spawn (fits : n.Fits m c) (numbered : c.Numbered) (proc : I.Proc) :
    Fits m (c.spawn m proc) { n with tracks := Function.update n.tracks c.next [⟨proc, []⟩] } :=
  have unused : c.next ∉ c.flows.map Prod.fst := fun mem => by
    obtain ⟨p, hp, same⟩ := List.mem_map.mp mem
    exact (numbered.below p hp).ne same
  { tracked q hq := by
      rcases List.mem_append.mp hq with old | new
      · simpa only [Function.update_of_ne (numbered.below q old).ne] using fits.tracked q old
      · rw [List.mem_singleton.mp new]
        exact ⟨[], [], Function.update_self .., .nil, rfl⟩
    returned := fits.returned
    complete := Fits.complete_update fits.complete (by simp [fits.gone c.next unused, Track.acts])
    gone flow away := by
      have parts : flow ∉ c.flows.map Prod.fst ∧ flow ≠ c.next := by simpa [Config.spawn] using away
      exact (Function.update_of_ne parts.2 ..).trans (fits.gone flow parts.1) }

/-- The record of a flow that makes no step stays. -/
theorem step_of_none (hs : m.step? c id pick = none) : n.step m c id pick = n := by
  unfold step
  simp only [Machine.step?] at hs
  rcases hf : c.find? id with _ | ⟨proc, code, wait⟩
  · rfl
  · rw [hf, Option.bind_some] at hs
    cases code with
    | done r => cases wait <;> cases hs
    | call | fork => cases hs
    | act action next =>
      rcases hp : m.perform id pick action c.shared with _ | ⟨r, s⟩
      · simp only [hp]
      · simp only [Machine.stepFlow, hp] at hs
        cases hs

theorem Fits.tracked_of_find (fits : n.Fits m c) {f : Flow I} (hf : c.find? id = some f) :
    f.Tracked m id (n.tracks id) := by
  obtain ⟨p, hp, rfl⟩ := Option.map_eq_some_iff.mp hf
  have here : p.1 = id := by simpa using List.find?_some hp
  exact here ▸ fits.tracked p (List.mem_of_find?_eq_some hp)

/-- Whatever step is made, it is on record. -/
theorem Fits.step (fits : n.Fits m c) (numbered : c.Numbered) {d : Config I σ}
    (hs : m.step? c id pick = some d) : (n.step m c id pick).Fits m d := by
  obtain ⟨f, hf, hs⟩ := Option.bind_eq_some_iff.mp hs
  have tracked := fits.tracked_of_find hf
  have present : id ∈ c.flows.map Prod.fst := by
    obtain ⟨p, hp, -⟩ := Option.map_eq_some_iff.mp hf
    have here : p.1 = id := by simpa using List.find?_some hp
    exact here ▸ List.mem_map_of_mem (List.mem_of_find?_eq_some hp)
  have gone : ∀ (ts : List (Track I σ)) (g : Flow I) (s : σ) (flow : Nat),
      flow ∉ (Config.update { c with shared := s } id g).flows.map Prod.fst →
        Function.update n.tracks id ts flow = [] := by
    intro ts g s flow away
    rw [map_fst_update] at away
    have other : flow ≠ id := fun same => away (same ▸ present)
    exact (Function.update_of_ne other ..).trans (fits.gone flow away)
  obtain ⟨proc, code, wait⟩ := f
  obtain ⟨ds, lower, here, leads, waiting⟩ := tracked
  unfold Annals.step
  rw [hf]
  cases code with
  | done r =>
    have returned : ∀ x ∈ (⟨id, proc, r, ds⟩ :: n.returns : List (Return I σ)),
        (m.body x.proc).Leads m x.flow x.proc x.deeds (.done x.result) :=
      List.forall_mem_cons.mpr ⟨leads, fits.returned⟩
    simp only [here, List.tail_cons, List.headD_cons]
    cases wait with
    | root =>
      cases hs
      cases waiting
      refine ⟨fun q hq => ?_, returned, Fits.complete_return fits.complete here rfl, fun flow away => ?_⟩
      · obtain ⟨hq, away⟩ := List.mem_filter.mp hq
        have away : q.1 ≠ id := by simpa using away
        simpa only [Function.update_of_ne away] using fits.tracked q hq
      · by_cases mine : flow = id
        · subst mine
          exact Function.update_self ..
        · refine (Function.update_of_ne mine ..).trans (fits.gone flow fun mem => away ?_)
          obtain ⟨p, hp, rfl⟩ := List.mem_map.mp mem
          exact List.mem_map_of_mem (List.mem_filter.mpr ⟨hp, by simpa using mine⟩)
    | caller next under =>
      cases hs
      obtain ⟨ds', lower', rfl, leads', waiting⟩ := waiting
      refine ⟨Fits.tracked_update (s := c.shared) fits.tracked ⟨_, lower', rfl, .call r leads', waiting⟩,
        returned, Fits.complete_return fits.complete here ?_, gone _ _ c.shared⟩
      exact flatMap_acts_modifyHead rfl _
  | act action next =>
    simp only [Machine.stepFlow] at hs
    rcases hp : m.perform id pick action c.shared with _ | ⟨r, s⟩
    · simp only [hp] at hs
      cases hs
    · simp only [hp, here, List.modifyHead_cons] at hs ⊢
      cases hs
      exact ⟨Fits.tracked_update fits.tracked ⟨_, lower, rfl, .act leads hp, waiting⟩, fits.returned,
        Fits.complete_act (a := ⟨id, proc, action, r, c.shared, s⟩) fits.complete here, gone _ _ s⟩
  | call callee next =>
    cases hs
    exact ⟨Fits.tracked_update (s := c.shared) fits.tracked
        ⟨[], _, rfl, .nil, ds, lower, here, leads, waiting⟩,
      fits.returned, Fits.complete_update fits.complete (by simp [Track.acts]), gone _ _ c.shared⟩
  | fork other next =>
    cases hs
    have fits' : Fits m (c.update id ⟨proc, next, wait⟩)
        { n with tracks := Function.update n.tracks id ((n.tracks id).modifyHead (·.note (.start other))) } := by
      refine ⟨Fits.tracked_update (s := c.shared) fits.tracked ⟨_, lower, ?_, .start leads, waiting⟩,
        fits.returned, Fits.complete_update fits.complete (flatMap_acts_modifyHead rfl _), gone _ _ c.shared⟩
      rw [here]
      rfl
    exact fits'.spawn (numbered.update id _) other

/-! ### Who did what -/

/-- Whoever is under way has come somewhere by what he did. -/
theorem Fits.leads (fits : n.Fits m c) {flow : Nat} {t : Track I σ} (here : t ∈ n.tracks flow) :
    ∃ q, (m.body t.proc).Leads m flow t.proc t.deeds q := by
  by_cases present : flow ∈ c.flows.map Prod.fst
  · obtain ⟨p, hp, rfl⟩ := List.mem_map.mp present
    obtain ⟨ds, lower, tracks, leads, waiting⟩ := fits.tracked p hp
    rw [tracks] at here
    rcases List.mem_cons.mp here with rfl | deeper
    · exact ⟨_, leads⟩
    · obtain ⟨_, _, leads⟩ := waiting.waits deeper
      exact ⟨_, leads⟩
  · rw [fits.gone flow present] at here
    cases here

theorem Fits.mem_log_of_track (fits : n.Fits m c) {flow : Nat} {t : Track I σ}
    (here : t ∈ n.tracks flow) {a : Act I σ} (done : .act a ∈ t.deeds) : a ∈ n.log := by
  have own : a ∈ n.actsOf flow :=
    List.mem_append_right _ (List.mem_flatMap.mpr ⟨t, here, Track.mem_acts.mpr done⟩)
  exact (List.mem_filter.mp ((fits.complete flow).mem_iff.mp own)).1

theorem Fits.mem_log_of_return (fits : n.Fits m c) {r : Return I σ} (here : r ∈ n.returns) {a : Act I σ}
    (done : .act a ∈ r.deeds) : a ∈ n.log := by
  have own : a ∈ n.actsOf r.flow := List.mem_append_left _ (List.mem_flatMap.mpr
    ⟨r, List.mem_filter.mpr ⟨here, by simp⟩, Return.mem_acts.mpr done⟩)
  exact (List.mem_filter.mp ((fits.complete r.flow).mem_iff.mp own)).1

/-- Whatever was done, some procedure under way did it, or one that has returned. -/
theorem Fits.mem_of_log (fits : n.Fits m c) {a : Act I σ} (logged : a ∈ n.log) :
    (∃ r ∈ n.returns, r.flow = a.flow ∧ r.proc = a.proc ∧ .act a ∈ r.deeds) ∨
      ∃ t ∈ n.tracks a.flow, t.proc = a.proc ∧ .act a ∈ t.deeds := by
  have own : a ∈ n.actsOf a.flow :=
    (fits.complete a.flow).mem_iff.mpr (List.mem_filter.mpr ⟨logged, by simp⟩)
  rcases List.mem_append.mp own with old | now
  · obtain ⟨r, hr, done⟩ := List.mem_flatMap.mp old
    obtain ⟨hr, same⟩ := List.mem_filter.mp hr
    have done := Return.mem_acts.mp done
    exact .inl ⟨r, hr, by simpa using same, ((fits.returned r hr).act_mem done).2.1.symm, done⟩
  · obtain ⟨t, ht, done⟩ := List.mem_flatMap.mp now
    have done := Track.mem_acts.mp done
    obtain ⟨q, leads⟩ := fits.leads ht
    exact .inr ⟨t, ht, (leads.act_mem done).2.1.symm, done⟩

/-- An act lies on a way through the body of the procedure that performed it. -/
theorem Fits.leads_of_log (fits : n.Fits m c) {a : Act I σ} (logged : a ∈ n.log) :
    ∃ ds q, (m.body a.proc).Leads m a.flow a.proc ds q ∧ .act a ∈ ds := by
  rcases fits.mem_of_log logged with ⟨r, hr, flow, proc, done⟩ | ⟨t, ht, proc, done⟩
  · have leads := fits.returned r hr
    rw [flow] at leads
    obtain ⟨_, proc', result, ds⟩ := r
    cases proc
    exact ⟨ds, _, leads, done⟩
  · obtain ⟨q, leads⟩ := fits.leads ht
    obtain ⟨proc', ds⟩ := t
    cases proc
    exact ⟨ds, q, leads, done⟩

theorem Fits.performed (fits : n.Fits m c) {a : Act I σ} (logged : a ∈ n.log) :
    ∃ pick, m.perform a.flow pick a.action a.before = some (a.reply, a.after) := by
  obtain ⟨ds, q, leads, done⟩ := fits.leads_of_log logged
  exact (leads.act_mem done).2.2

/-- Who may not do something has not done it. -/
theorem Fits.acts_within (fits : n.Fits m c) {scope : I.Proc → Scope I}
    (bodies : ∀ proc, (m.body proc).Within (scope proc)) {a : Act I σ} (logged : a ∈ n.log) :
    (scope a.proc).acts a.action := by
  obtain ⟨ds, q, leads, done⟩ := fits.leads_of_log logged
  exact leads.acts_within (bodies a.proc) done

/-- All procedures under way are of some kind, and all that have returned. -/
def All (P : I.Proc → Prop) (n : Annals I σ) : Prop :=
  (∀ flow, ∀ t ∈ n.tracks flow, P t.proc) ∧ ∀ r ∈ n.returns, P r.proc

theorem All.update {P : I.Proc → Prop} (all : n.All P) {ts : List (Track I σ)} (mine : ∀ t ∈ ts, P t.proc) :
    ∀ flow, ∀ t ∈ Function.update n.tracks id ts flow, P t.proc := by
  intro flow t ht
  by_cases same : flow = id
  · subst same
    exact mine t (by simpa using ht)
  · exact all.1 flow t (by simpa [Function.update_of_ne same] using ht)

theorem proc_modifyHead {P : I.Proc → Prop} {d : Deed I σ} {ts : List (Track I σ)}
    (all : ∀ t ∈ ts, P t.proc) : ∀ t ∈ ts.modifyHead (·.note d), P t.proc := by
  cases ts with
  | nil => exact all
  | cons t ts => exact List.forall_mem_cons.mpr (List.forall_mem_cons.mp all)

/-- If whoever is called or started next is of a kind, everybody is. -/
theorem All.step {P : I.Proc → Prop} (all : n.All P) (fits : n.Fits m c)
    (next : ∀ f, c.find? id = some f → f.code.Next P) : (n.step m c id pick).All P := by
  unfold Annals.step
  rcases hf : c.find? id with _ | ⟨proc, code, wait⟩
  · exact all
  · obtain ⟨ds, lower, tracks, -, -⟩ := fits.tracked_of_find hf
    obtain ⟨mine, others⟩ := List.forall_mem_cons.mp (tracks ▸ all.1 id)
    have rest := next _ hf
    cases code with
    | done r =>
      simp only [tracks, List.tail_cons, List.headD_cons]
      exact ⟨all.update (proc_modifyHead others), List.forall_mem_cons.mpr ⟨mine, all.2⟩⟩
    | act action next =>
      simp only
      split
      · exact all
      · exact ⟨all.update (proc_modifyHead (all.1 id)), all.2⟩
    | call callee next =>
      exact ⟨all.update (List.forall_mem_cons.mpr ⟨rest, all.1 id⟩), all.2⟩
    | fork other next =>
      have noted : All P { n with
          tracks := Function.update n.tracks id ((n.tracks id).modifyHead (·.note (.start other))) } :=
        ⟨all.update (proc_modifyHead (all.1 id)), all.2⟩
      exact ⟨noted.update (List.forall_mem_singleton.mpr rest), all.2⟩

/-- Those of a kind who call and start only others of it. -/
theorem All.next {P : I.Proc → Prop} (all : n.All P) (fits : n.Fits m c)
    (bodies : ∀ proc, P proc → (m.body proc).Within ⟨fun _ => True, P, P⟩) (f : Flow I)
    (hf : c.find? id = some f) : f.code.Next P := by
  obtain ⟨ds, lower, tracks, leads, -⟩ := fits.tracked_of_find hf
  have mine := all.1 id ⟨f.proc, ds⟩ (tracks ▸ List.mem_cons_self)
  have rest := leads.within (bodies f.proc mine)
  obtain ⟨proc, code, wait⟩ := f
  cases code with
  | done | act => trivial
  | call | fork => exact rest.1

end Annals

/-! ## Plays -/

/-- A play, and what everybody has done in it. -/
structure Chronicle where
  play : Play
  annals : Annals brokerInterface World

namespace Chronicle

variable (c : Chronicle)

def world : World := c.play.config.shared

/-- The procedures under way in a flow, the innermost one first. -/
def tracks (flow : Nat) : List (Track brokerInterface World) := c.annals.tracks flow

/-- All actions, the last one first. -/
def log : List (Act brokerInterface World) := c.annals.log

/-- The procedures that have returned, the last one first. -/
def returns : List (Return brokerInterface World) := c.annals.returns

/-- A broker to which nothing has happened. -/
def new (settings : BrokerSettings) (endpoints : List (EngineName × Endpoint)) (main : EngineName)
    (host : Host) : Chronicle :=
  ⟨.new settings endpoints main host, ⟨fun _ => [], [], []⟩⟩

/-- Something happens. -/
def move (m : Move) : Chronicle where
  play := c.play.move m
  annals := match m with
    | .arrive name request => { c.annals with
        tracks := Function.update c.annals.tracks c.play.config.next [⟨.serveClient name request, []⟩] }
    | .step flow pick => c.annals.step brokerMachine c.play.config flow pick
    | .outside _ => c.annals

/-- One thing after the other happens. -/
def moves (ms : List Move) : Chronicle := ms.foldl move c

@[simp] theorem moves_cons (m : Move) (ms : List Move) : c.moves (m :: ms) = (c.move m).moves ms := rfl

theorem moves_append (ms ns : List Move) : c.moves (ms ++ ns) = (c.moves ms).moves ns :=
  List.foldl_append

variable {c}

theorem play_moves (ms : List Move) : (c.moves ms).play = c.play.moves ms := by
  induction ms generalizing c with
  | nil => rfl
  | cons m ms ih => exact ih

/-- What every move keeps, is kept. -/
theorem moves_keep {P : Chronicle → Prop} (keep : ∀ c m, P c → P (c.move m)) (hc : P c)
    (ms : List Move) : P (c.moves ms) := by
  induction ms generalizing c with
  | nil => exact hc
  | cons m ms ih => exact ih (keep c m hc)

/-- What is on record is what happened. -/
structure Faithful (c : Chronicle) : Prop where
  numbered : c.play.config.Numbered
  fits : c.annals.Fits brokerMachine c.play.config

theorem Faithful.move (faithful : c.Faithful) (m : Move) : (c.move m).Faithful := by
  obtain ⟨numbered, fits⟩ := faithful
  cases m with
  | arrive name request => exact ⟨numbered.spawn _ _, fits.spawn numbered _⟩
  | outside change =>
    exact ⟨⟨numbered.unique, numbered.below⟩, fits.tracked, fits.returned, fits.complete, fits.gone⟩
  | step flow pick =>
    rcases hs : brokerMachine.step? c.play.config flow pick with _ | d
    · have stays : c.move (.step flow pick) = c := by
        simp only [Chronicle.move, Play.move, hs, Annals.step_of_none hs]
      rw [stays]
      exact ⟨numbered, fits⟩
    · have moved : (c.move (.step flow pick)).play.config = d := by
        simp only [Chronicle.move, Play.move, hs]
      obtain ⟨f, -, hs'⟩ := Option.bind_eq_some_iff.mp hs
      exact ⟨moved ▸ numbered.step hs', moved ▸ fits.step numbered hs⟩

theorem faithful_new (settings : BrokerSettings) (endpoints : List (EngineName × Endpoint))
    (main : EngineName) (host : Host) : (new settings endpoints main host).Faithful :=
  ⟨⟨List.nodup_nil, by rintro _ ⟨⟩⟩, by rintro _ ⟨⟩, by rintro _ ⟨⟩, fun _ => .nil, fun _ _ => rfl⟩

theorem faithful_moves (faithful : c.Faithful) (ms : List Move) : (c.moves ms).Faithful :=
  moves_keep (fun _ m faithful => faithful.move m) faithful ms

/-- A move performs an act, or it changes the world from outside, or not at all. -/
theorem log_move (c : Chronicle) (m : Move) :
    (c.move m).log = c.log ∧ ((c.move m).world = c.world ∨
        ∃ change : Outside, (c.move m).world = change.apply c.world) ∨
      ∃ (a : Act brokerInterface World) (pick : Bool), (c.move m).log = a :: c.log ∧
        a.before = c.world ∧ a.after = (c.move m).world ∧
        World.perform a.flow pick a.action a.before = some (a.reply, a.after) := by
  cases m with
  | arrive name request => exact .inl ⟨rfl, .inl rfl⟩
  | outside change => exact .inl ⟨rfl, .inr ⟨change, rfl⟩⟩
  | step flow pick =>
    rcases hs : brokerMachine.step? c.play.config flow pick with _ | d
    · have stays : c.move (.step flow pick) = c := by
        simp only [move, Play.move, hs, Annals.step_of_none hs]
      exact .inl ⟨by rw [stays], .inl (by rw [stays])⟩
    · have world : (c.move (.step flow pick)).world = d.shared := by
        simp only [world, move, Play.move, hs]
      have log : (c.move (.step flow pick)).log =
          (c.annals.step brokerMachine c.play.config flow pick).log := rfl
      obtain ⟨⟨proc, code, wait⟩, hf, hs⟩ := Option.bind_eq_some_iff.mp hs
      rw [world, log, Annals.step, hf]
      cases code with
      | done r => cases wait <;> cases hs <;> exact .inl ⟨rfl, .inl rfl⟩
      | call | fork => cases hs; exact .inl ⟨rfl, .inl rfl⟩
      | act action next =>
        simp only [Machine.stepFlow] at hs
        rcases hp : brokerMachine.perform flow pick action c.play.config.shared with _ | ⟨r, u⟩
        · simp only [hp] at hs
          cases hs
        · simp only [hp] at hs ⊢
          cases hs
          exact .inr ⟨⟨flow, proc, action, r, c.world, u⟩, pick, rfl, rfl, rfl, hp⟩

/-- Who performs something was about to perform it. -/
theorem find_of_log {m : Move} {a : Act brokerInterface World} (log : (c.move m).log = a :: c.log) :
    ∃ next wait, c.play.config.find? a.flow = some ⟨a.proc, .act a.action next, wait⟩ := by
  have something : (c.move m).log ≠ c.log := fun same => List.cons_ne_self a c.log (log.symm.trans same)
  cases m with
  | arrive | outside => exact absurd rfl something
  | step flow pick =>
    have step : (c.move (.step flow pick)).log = (c.annals.step brokerMachine c.play.config flow pick).log := rfl
    rw [step, Annals.step] at log something
    rcases hf : c.play.config.find? flow with _ | ⟨proc, code, wait⟩
    · simp only [hf] at something
      exact absurd rfl something
    · cases code with
      | done | call | fork =>
        simp only [hf] at something
        exact absurd rfl something
      | act action next =>
        simp only [hf] at log something
        rcases hp : brokerMachine.perform flow pick action c.play.config.shared with _ | ⟨r, u⟩
        · simp only [hp] at something
          exact absurd rfl something
        · simp only [hp] at log
          obtain ⟨rfl, -⟩ := List.cons.inj log
          exact ⟨next, wait, hf⟩

/-- If those of a kind call and start only others of it, nobody else is ever under way. -/
theorem all_moves {P : Proc → Prop} (clients : ∀ name request, P (.serveClient name request))
    (bodies : ∀ proc, P proc → (body proc).Within ⟨fun _ => True, P, P⟩) (faithful : c.Faithful)
    (all : c.annals.All P) (ms : List Move) : (c.moves ms).annals.All P := by
  refine (moves_keep (P := fun c => c.Faithful ∧ c.annals.All P) (fun c m keeps => ?_) ⟨faithful, all⟩ ms).2
  obtain ⟨faithful, all⟩ := keeps
  refine ⟨faithful.move m, ?_⟩
  cases m with
  | arrive name request => exact ⟨all.update (List.forall_mem_singleton.mpr (clients name request)), all.2⟩
  | outside change => exact all
  | step flow pick => exact all.step (m := brokerMachine) faithful.fits (all.next faithful.fits bodies)

/-- What relates the world before each step to the world after it. -/
structure Passage (R : World → World → Prop) : Prop where
  refl : ∀ w, R w w
  trans : ∀ u v w, R u v → R v w → R u w
  act : ∀ {flow pick action w r u}, World.perform flow pick action w = some (r, u) → R w u
  outside : ∀ (change : Outside) w, R w (change.apply w)

/-- A relation holds between any two moments, the earlier one first. -/
structure Ordered (R : World → World → Prop) (first : World) (c : Chronicle) : Prop where
  now : R first c.world
  began : ∀ a ∈ c.log, R first a.before
  since : ∀ a ∈ c.log, R a.after c.world
  between : c.log.Pairwise fun late early => R early.after late.before

theorem Ordered.move {R : World → World → Prop} (passage : Passage R) {first : World}
    (ordered : c.Ordered R first) (m : Move) : (c.move m).Ordered R first := by
  have went : ∀ w, R c.world w → (c.move m).world = w → (c.move m).log = c.log →
      (c.move m).Ordered R first := by
    rintro _ step rfl log
    refine ⟨passage.trans _ _ _ ordered.now step, log ▸ ordered.began, fun a ha => ?_,
      log ▸ ordered.between⟩
    exact passage.trans _ _ _ (ordered.since a (log ▸ ha)) step
  rcases c.log_move m with ⟨log, same | ⟨change, world⟩⟩ | ⟨a, pick, log, before, after, performed⟩
  · exact went c.world (passage.refl _) same log
  · exact went _ (passage.outside change _) world log
  · have step : R c.world (c.move m).world := after ▸ before ▸ passage.act performed
    refine ⟨passage.trans _ _ _ ordered.now step, ?_, ?_, ?_⟩
    · rw [log]
      exact List.forall_mem_cons.mpr ⟨before ▸ ordered.now, ordered.began⟩
    · rw [log]
      refine List.forall_mem_cons.mpr ⟨after ▸ passage.refl _, fun b hb => ?_⟩
      exact passage.trans _ _ _ (ordered.since b hb) step
    · rw [log]
      exact List.pairwise_cons.mpr ⟨fun b hb => before ▸ ordered.since b hb, ordered.between⟩

theorem ordered_new {R : World → World → Prop} (passage : Passage R) (settings : BrokerSettings)
    (endpoints : List (EngineName × Endpoint)) (main : EngineName) (host : Host) (ms : List Move) :
    ((new settings endpoints main host).moves ms).Ordered R (.new settings endpoints main host) :=
  moves_keep (fun _ m ordered => ordered.move passage m)
    ⟨passage.refl _, by rintro _ ⟨⟩, by rintro _ ⟨⟩, .nil⟩ ms

end Chronicle

end SessionBroker
