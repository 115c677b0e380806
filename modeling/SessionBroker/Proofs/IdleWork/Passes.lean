import SessionBroker.Proofs.IdleWork.Conduct
import SessionBroker.Proofs.IdleWork.Queue

/-!
# Pumps

A pump is a chain of passes: each pass runs one task and then calls the next one, and the last pass finds
nothing to run. Who calls a procedure and has done nothing since is the last to whom something was returned,
so that the passes of a pump are those that returned one after the other. What a pump returns is how many
tasks its passes started, and when it returns, nothing waits but what others have put into the queue since
its last pass looked.
-/

namespace SessionBroker

/-! ## What was done last -/

section Recent

variable {I : Interface} {σ : Type} {m : Machine I σ} {c : Config I σ} {id : Nat} {pick : Bool}
  {n : Annals I σ}

/-- The returns of a flow, the last one first. -/
def Annals.returnsOf (n : Annals I σ) (flow : Nat) : List (Return I σ) := n.returns.filter (·.flow = flow)

/-- The last deed of a procedure is the last thing on record of its flow. -/
def Annals.Recent (n : Annals I σ) (flow : Nat) : List (Deed I σ) → Prop
  | .act a :: _ => n.log.find? (·.flow = flow) = some a
  | .call callee r :: _ => ∃ ds, (n.returnsOf flow).head? = some ⟨flow, callee, r, ds⟩
  | _ => True

/-- Who returned after a call, returned next after the one that was called. -/
def Chained : List (Return I σ) → Prop
  | [] => True
  | r :: early => (∀ callee x ds, r.deeds = .call callee x :: ds →
      ∃ ds', early.head? = some ⟨r.flow, callee, x, ds'⟩) ∧ Chained early

/-- What is on record was recorded in its order. -/
structure Annals.InOrder (n : Annals I σ) : Prop where
  recent : ∀ flow, ∀ t ∈ (n.tracks flow).head?, n.Recent flow t.deeds
  chained : ∀ flow, Chained (n.returnsOf flow)

theorem Chained.suffix {rs early : List (Return I σ)} (chained : Chained rs) (suffix : early <:+ rs) :
    Chained early := by
  obtain ⟨late, rfl⟩ := suffix
  induction late with
  | nil => exact chained
  | cons r late ih => exact ih chained.2

namespace Annals

theorem InOrder.update {ts : List (Track I σ)} (inOrder : n.InOrder)
    (mine : ∀ t ∈ ts.head?, n.Recent id t.deeds) :
    InOrder { n with tracks := Function.update n.tracks id ts } := by
  refine ⟨fun flow t top => ?_, inOrder.chained⟩
  by_cases own : flow = id
  · subst own
    exact mine t (by simpa using top)
  · exact inOrder.recent flow t (by simpa [Function.update_of_ne own] using top)

theorem InOrder.act {a : Act I σ} {t : Track I σ} {lower : List (Track I σ)} (inOrder : n.InOrder) :
    InOrder { n with
      tracks := Function.update n.tracks a.flow (t.note (.act a) :: lower), log := a :: n.log } := by
  refine ⟨fun flow u top => ?_, inOrder.chained⟩
  by_cases own : flow = a.flow
  · subst own
    simp only [Function.update_self, List.head?_cons, Option.mem_some_iff] at top
    subst top
    simp [Track.note, Recent]
  · have before := inOrder.recent flow u (by simpa [Function.update_of_ne own] using top)
    unfold Recent at before ⊢
    split at before
    · simpa [Ne.symm own] using before
    · exact before
    · trivial

theorem InOrder.return {r : Return I σ} {lower : List (Track I σ)} (inOrder : n.InOrder)
    (here : n.tracks r.flow = ⟨r.proc, r.deeds⟩ :: lower) :
    InOrder { n with
      tracks := Function.update n.tracks r.flow (lower.modifyHead (·.note (.call r.proc r.result))),
      returns := r :: n.returns } := by
  refine ⟨fun flow u top => ?_, fun flow => ?_⟩
  · by_cases own : flow = r.flow
    · subst own
      simp only [Function.update_self] at top
      cases lower with
      | nil => cases top
      | cons t lower =>
        cases top
        exact ⟨r.deeds, by simp [returnsOf]⟩
    · have before := inOrder.recent flow u (by simpa [Function.update_of_ne own] using top)
      unfold Recent at before ⊢
      split at before
      · exact before
      · simpa [returnsOf, Ne.symm own] using before
      · trivial
  · by_cases own : flow = r.flow
    · subst own
      have top := inOrder.recent r.flow ⟨r.proc, r.deeds⟩ (by rw [here]; rfl)
      simp only [returnsOf, decide_true, List.filter_cons_of_pos]
      refine ⟨fun callee x ds last => ?_, inOrder.chained r.flow⟩
      rw [last] at top
      exact top
    · simpa [returnsOf, Ne.symm own] using inOrder.chained flow

theorem InOrder.step (inOrder : n.InOrder) (fits : n.Fits m c) : (n.step m c id pick).InOrder := by
  unfold Annals.step
  rcases hf : c.find? id with _ | ⟨proc, code, wait⟩
  · exact inOrder
  · obtain ⟨ds, lower, here, -, -⟩ := fits.tracked_of_find hf
    cases code with
    | done r =>
      simp only [here, List.tail_cons, List.headD_cons]
      exact inOrder.return (r := ⟨id, proc, r, ds⟩) here
    | act action next =>
      simp only
      split
      · exact inOrder
      · next r s _ =>
        rw [here]
        exact inOrder.act (a := ⟨id, proc, action, r, c.shared, s⟩) (t := ⟨proc, ds⟩)
    | call callee next => exact inOrder.update (by simp [Recent])
    | fork other next =>
      have noted : InOrder { n with
          tracks := Function.update n.tracks id ((n.tracks id).modifyHead (·.note (.start other))) } :=
        inOrder.update (by simp [here, Track.note, Recent])
      exact noted.update (by simp [Recent])

end Annals

theorem Chronicle.inOrder_move {c : Chronicle} (faithful : c.Faithful) (inOrder : c.annals.InOrder) (m : Move) :
    (c.move m).annals.InOrder := by
  cases m with
  | arrive name request => exact inOrder.update (by simp [Annals.Recent])
  | outside change => exact inOrder
  | step flow pick => exact inOrder.step (m := brokerMachine) faithful.fits

end Recent

namespace IdleWork

/-! ## How a pass ends -/

/-- Whether a step has found the queue empty. -/
def vain : (action : Action) → action.Reply → Bool
  | .idle .take, none => true
  | _, _ => false

/-- Who looks in vain finds that nothing waits. -/
theorem empty_of_vain {w u : World} {flow : Nat} {pick : Bool} {action : Action} {r : action.Reply}
    (performed : World.perform flow pick action w = some (r, u)) (inVain : vain action r = true) :
    u.idle.tasks = [] := by
  rcases action with _ | _ | _ | op | _ | _
  case idle =>
    cases op
    case take =>
      rcases performs_take performed with ⟨_, _, -, rfl, -, -⟩ | ⟨empty, -, same⟩
      · cases inVain
      · exact same ▸ empty
    all_goals cases inVain
  all_goals cases inVain

/-- A pass that found nothing has done nothing else, and others have called the next pass last. -/
def Ends (ds : List (Deed brokerInterface World)) (n : Nat) : Prop :=
  (∃ a, ds = [.act a] ∧ vain a.action a.reply = true ∧ n = 0) ∨
    ∃ more rest, ds = .call .pump more :: rest ∧ n = more + 1

section Ends

variable {flow n : Nat} {ds : List (Deed brokerInterface World)}

theorem comes_pump : Reading.pump.Comes brokerMachine flow .pump Ends [] := by
  refine Program.comes_perform fun pick task w u _ => ?_
  cases task with
  | none => exact .inl ⟨_, rfl, rfl, rfl⟩
  | some t =>
    refine Program.comes_perform fun _ _ _ _ _ => Program.comes_after fun ds _ => ?_
    exact Program.comes_perform fun _ _ _ _ _ more => .inr ⟨more, _, rfl, rfl⟩

theorem ends_of_leads (leads : (body .pump).Leads brokerMachine flow .pump ds (.done n)) : Ends ds n :=
  comes_pump.leads leads

end Ends

/-! ## The passes of a pump -/

/-- The passes of the pump that returned last, the first one first. -/
def passes : List (Return brokerInterface World) → List (Return brokerInterface World)
  | [] => []
  | r :: early => r ::
    match r.deeds with
    | .call .pump _ :: _ => passes early
    | _ => []

/-- The tasks that a procedure started itself, the last one first. -/
def Return.tasks (r : Return brokerInterface World) : List IdleTask := r.acts.filterMap started?

theorem tasks_eq (r : Return brokerInterface World) : Return.tasks r = (errands r.deeds).filterMap fun
    | .took task => task
    | _ => none := by
  simp only [Return.tasks, SessionBroker.Return.acts, errands, List.filterMap_filterMap]
  congr 1
  funext d
  cases d with
  | call | start => rfl
  | act a =>
    obtain ⟨_, _, action, _, _, _⟩ := a
    rcases action with _ | _ | _ | op | _ | op
    case idle => cases op <;> rfl
    case broker => cases op <;> rfl
    all_goals rfl

/-- A pump counts the tasks that its passes started. -/
theorem count_passes {rs : List (Return brokerInterface World)} (chained : Chained rs)
    (returned : ∀ r ∈ rs, (body r.proc).Leads brokerMachine r.flow r.proc r.deeds (.done r.result))
    {flow n : Nat} {ds : List (Deed brokerInterface World)} (first : rs.head? = some ⟨flow, .pump, n, ds⟩) :
    n = ((passes rs).flatMap Return.tasks).length ∧ ∀ r ∈ passes rs, r.flow = flow ∧ r.proc = .pump := by
  induction rs generalizing n ds with
  | nil => cases first
  | cons r early ih =>
    obtain rfl := Option.some.inj first
    have leads : (body .pump).Leads brokerMachine flow .pump ds (.done n) := returned _ List.mem_cons_self
    have settled : Settled .pump n (errands ds) := (minds_of_leads leads).1
    rcases ends_of_leads leads with ⟨a, rfl, -, rfl⟩ | ⟨more, rest, rfl, rfl⟩
    · rcases settled with ⟨took, -⟩ | ⟨_, _, -, some⟩
      · simp [passes, tasks_eq, took]
      · exact absurd some (Nat.lt_irrefl 0)
    · rcases settled with ⟨-, none⟩ | ⟨t, payload, took, -⟩
      · cases none
      · obtain ⟨ds', next⟩ := chained.1 _ _ _ rfl
        obtain ⟨count, pumps⟩ := ih chained.2 (fun r here => returned r (List.mem_cons_of_mem _ here)) next
        refine ⟨?_, ?_⟩
        · simp [passes, tasks_eq, took, ← count, Nat.add_comm]
        · exact List.forall_mem_cons.mpr ⟨⟨rfl, rfl⟩, pumps⟩

/-! ## What a pump leaves behind -/

/-- The last thing that a flow did was to look for a task in vain. -/
def FoundNone (log : Log) (flow : Nat) : Prop :=
  ∃ a, log.find? (·.flow = flow) = some a ∧ vain a.action a.reply = true

/-- To whom a pump has just returned, that one has found nothing more to run. -/
def Looked (log : Log) (tracks : Nat → List (Track brokerInterface World)) : Prop :=
  ∀ flow, ∀ t ∈ (tracks flow).head?, ∀ n rest, t.deeds = .call .pump n :: rest → FoundNone log flow

section Looked

variable {c : Chronicle} {log : Log} {tracks : Nat → List (Track brokerInterface World)} {flow : Nat}

theorem Looked.update {ts : List (Track brokerInterface World)} (looked : Looked log tracks)
    (mine : ∀ t ∈ ts.head?, ∀ n rest, t.deeds = .call .pump n :: rest → FoundNone log flow) :
    Looked log (Function.update tracks flow ts) := by
  intro other t top
  by_cases own : other = flow
  · subst own
    exact mine t (by simpa using top)
  · exact looked other t (by simpa [Function.update_of_ne own] using top)

theorem Looked.act {a : Act brokerInterface World} {t : Track brokerInterface World}
    {lower : List (Track brokerInterface World)} (looked : Looked log tracks) :
    Looked (a :: log) (Function.update tracks a.flow (t.note (.act a) :: lower)) := by
  intro other u top n rest last
  by_cases own : other = a.flow
  · subst own
    simp only [Function.update_self, List.head?_cons, Option.mem_some_iff] at top
    subst top
    cases last
  · obtain ⟨b, found, inVain⟩ :=
      looked other u (by simpa [Function.update_of_ne own] using top) n rest last
    exact ⟨b, by simpa [Ne.symm own] using found, inVain⟩

/-- A pump that is about to return has found nothing more to run. -/
theorem foundNone_of_done (faithful : c.Faithful) (inOrder : c.annals.InOrder) (looked : Looked c.log c.tracks)
    {n : Nat} {wait : Waiting brokerInterface .pump}
    (here : c.play.config.find? flow = some ⟨.pump, .done n, wait⟩) : FoundNone c.log flow := by
  obtain ⟨ds, lower, tracks, leads, -⟩ := faithful.fits.tracked_of_find here
  have top : (⟨.pump, ds⟩ : Track brokerInterface World) ∈ (c.annals.tracks flow).head? := by
    rw [tracks]
    rfl
  rcases ends_of_leads leads with ⟨a, rfl, inVain, -⟩ | ⟨more, rest, rfl, -⟩
  · exact ⟨a, inOrder.recent flow _ top, inVain⟩
  · exact looked flow _ top more rest rfl

theorem looked_step (faithful : c.Faithful) (inOrder : c.annals.InOrder) (looked : Looked c.log c.tracks)
    (flow : Nat) (pick : Bool) :
    Looked (c.move (.step flow pick)).log (c.move (.step flow pick)).tracks := by
  have tracks : (c.move (.step flow pick)).tracks =
      (c.annals.step brokerMachine c.play.config flow pick).tracks := rfl
  have log : (c.move (.step flow pick)).log = (c.annals.step brokerMachine c.play.config flow pick).log := rfl
  rw [tracks, log, Annals.step]
  rcases hf : c.play.config.find? flow with _ | ⟨proc, code, wait⟩
  · exact looked
  · obtain ⟨ds, lower, here, -, -⟩ := faithful.fits.tracked_of_find hf
    cases code with
    | done r =>
      refine looked.update fun t top n rest last => ?_
      cases rest' : (c.annals.tracks flow).tail with
      | nil => simp [rest'] at top
      | cons u under =>
        simp only [rest', List.modifyHead_cons, List.head?_cons, Option.mem_some_iff] at top
        subst top
        obtain ⟨same, -⟩ := List.cons.inj last
        cases same
        exact foundNone_of_done faithful inOrder looked hf
    | act action next =>
      simp only
      split
      · exact looked
      · next r u _ =>
        rw [here]
        exact Looked.act (a := ⟨flow, proc, action, r, c.play.config.shared, u⟩) (t := ⟨proc, ds⟩) looked
    | call callee next => exact looked.update (by simp)
    | fork other next =>
      have noted : Looked c.log (Function.update c.tracks flow
          ((c.tracks flow).modifyHead (·.note (.start other)))) :=
        looked.update (by simp [Chronicle.tracks, here, Track.note])
      exact noted.update (by simp)

theorem looked_move (faithful : c.Faithful) (inOrder : c.annals.InOrder) (looked : Looked c.log c.tracks)
    (m : Move) : Looked (c.move m).log (c.move m).tracks := by
  cases m with
  | arrive name request => exact looked.update (by simp)
  | outside change => exact looked
  | step flow pick => exact looked_step faithful inOrder looked flow pick

/-- When a pump is about to return, nothing waits but what others have put into the queue since it looked. -/
theorem empty_of_foundNone (faithful : c.Faithful) (booked : Booked c) (found : FoundNone c.log flow) :
    ∃ late look early, c.log = late ++ look :: early ∧ look.flow = flow ∧ vain look.action look.reply = true ∧
      (∀ a ∈ late, a.flow ≠ flow) ∧ accepted late = (left late).map (·.1) ++ c.world.idle.tasks := by
  obtain ⟨look, found, inVain⟩ := found
  obtain ⟨mine, late, early, log, others⟩ := List.find?_eq_some_iff_append.mp found
  have logged : look ∈ c.log := List.mem_of_find?_eq_some found
  obtain ⟨pick, performed⟩ := faithful.fits.performed logged
  have empty := empty_of_vain performed inVain
  have before := booked.past late look early log
  rw [empty, List.append_nil] at before
  have now := booked.tasks
  rw [log, accepted_append, left_append, before, List.map_append, List.append_assoc] at now
  refine ⟨late, look, early, log, by simpa using mine, inVain, fun a ha => by simpa using others a ha, ?_⟩
  exact List.append_cancel_left now

end Looked

end IdleWork

end SessionBroker
