import SessionBroker.Proofs.Attendance
import SessionBroker.Proofs.Chronicle

/-!
# Who is there only once

If of some procedures one is entered at most once, then at most one of them is under way at any time, and none once
one has returned.
-/

namespace SessionBroker

section Tracks

variable {I : Interface} {σ : Type} {m : Machine I σ} {flow : Nat}

theorem Waiting.Tracked.procs {proc : I.Proc} {wait : Waiting I proc} {ts : List (Track I σ)}
    (tracked : wait.Tracked m flow ts) : wait.procs = proc :: ts.map Track.proc := by
  induction wait generalizing ts with
  | root =>
    cases tracked
    rfl
  | caller next below ih =>
    obtain ⟨ds, lower, rfl, -, tracked⟩ := tracked
    exact congrArg (List.cons _) (ih tracked)

/-- Those who are under way in a flow are on record. -/
theorem Flow.Tracked.procs {f : Flow I} {ts : List (Track I σ)} (tracked : f.Tracked m flow ts) :
    f.procs = ts.map Track.proc := by
  obtain ⟨ds, lower, rfl, -, waiting⟩ := tracked
  exact waiting.procs

end Tracks

/-- Counts some procedures. -/
def headcount (P : Proc → Bool) (proc : Proc) : Nat := (P proc).toNat

theorem headcount_pos {P : Proc → Bool} {proc : Proc} (some : P proc) : 1 ≤ headcount P proc := by
  simp [headcount, some]

namespace Chronicle

variable {c : Chronicle}

theorem Faithful.find_of_track (faithful : c.Faithful) {flow : Nat} {t : Track brokerInterface World}
    (here : t ∈ c.tracks flow) : ∃ f, c.play.config.find? flow = some f ∧ f.Tracked brokerMachine flow (c.tracks flow) := by
  rcases hf : c.play.config.find? flow with _ | f
  · have away : flow ∉ c.play.config.flows.map Prod.fst := fun mem => by
      obtain ⟨p, hp, rfl⟩ := List.mem_map.mp mem
      simpa using List.find?_eq_none.mp (Option.map_eq_none_iff.mp hf) p hp
    have none : c.tracks flow = [] := faithful.fits.gone flow away
    rw [none] at here
    cases here
  · exact ⟨f, rfl, faithful.fits.tracked_of_find hf⟩

/-- Whoever has returned is on record. -/
theorem returned_moves (weight : Proc → Nat) (settings : BrokerSettings) (endpoints : List (EngineName × Endpoint))
    (main : EngineName) (host : Host) (ms : List Move) :
    let c := (new settings endpoints main host).moves ms
    returned weight c.play.history = (c.returns.map fun r => weight r.proc).sum := by
  refine moves_keep (P := fun c => returned weight c.play.history = (c.returns.map fun r => weight r.proc).sum)
    (fun c mv same => ?_) rfl ms
  cases mv with
  | arrive | outside => exact same
  | step flow pick =>
    rcases hs : brokerMachine.step? c.play.config flow pick with _ | d
    · have stays : c.move (.step flow pick) = c := by
        simp only [move, Play.move, hs, Annals.step_of_none hs]
      rwa [stays]
    · have same : returned weight c.play.history = (c.annals.returns.map fun r => weight r.proc).sum := same
      obtain ⟨⟨proc, code, wait⟩, hf, hs'⟩ := Option.bind_eq_some_iff.mp hs
      have event : c.play.event? flow = Flow.event? ⟨proc, code, wait⟩ := by
        simp only [Play.event?, hf, Option.bind_some]
      simp only [move, Play.move, hs, event, returns, Annals.step, hf]
      cases code with
      | done r => simpa [Flow.event?, returned] using same
      | call | fork => simpa [Flow.event?, returned] using same
      | act action next =>
        rcases hp : brokerMachine.perform flow pick action c.play.config.shared with _ | ⟨r, u⟩
        · simp only [Machine.stepFlow, hp] at hs'
          cases hs'
        · simpa [Flow.event?, returned, hp] using same

/-- At most one of some procedures is under way or has returned. -/
structure Sole (P : Proc → Bool) (c : Chronicle) : Prop where
  returned : ∀ r ∈ c.returns, P r.proc → ∀ flow, ∀ t ∈ c.tracks flow, ¬P t.proc
  flow : ∀ i j, ∀ t ∈ c.tracks i, ∀ u ∈ c.tracks j, P t.proc → P u.proc → i = j
  track : ∀ flow above t below, c.tracks flow = above ++ t :: below → P t.proc → ∀ u ∈ above ++ below, ¬P u.proc

/-- The weight of those under way in a flow. -/
theorem attending_of_tracked {weight : Proc → Nat} {f : Flow brokerInterface} {flow : Nat}
    {ts : List (Track brokerInterface World)} (tracked : f.Tracked brokerMachine flow ts) :
    f.attending weight = (ts.map fun t => weight t.proc).sum := by
  rw [Flow.attending, tracked.procs, List.map_map]
  rfl

/-- If of some procedures one is entered at most once, at most one is under way or has returned. -/
theorem sole_of_entered {P : Proc → Bool} (faithful : c.Faithful) (attended : c.play.Attended)
    (returned : returned (headcount P) c.play.history = (c.returns.map fun r => headcount P r.proc).sum)
    (few : entered (headcount P) c.play.history ≤ 1) : c.Sole P := by
  have balance := attended.balance (headcount P)
  rw [returned] at balance
  have heavy : ∀ {α : Type} {l : List α} {f : α → Proc} {a : α}, a ∈ l → P (f a) →
      1 ≤ (l.map fun a => headcount P (f a)).sum := fun mem some =>
    (headcount_pos some).trans (List.le_sum_of_mem (List.mem_map_of_mem mem))
  refine ⟨fun r hr back flow t ht now => ?_, fun i j t ht u hu now now' => ?_,
    fun flow above t below split now u hu now' => ?_⟩
  · obtain ⟨f, hf, tracked⟩ := faithful.find_of_track ht
    obtain ⟨others, all, -⟩ := faithful.numbered.attending (headcount P) hf
    rw [attending_of_tracked tracked] at all
    have gone := heavy hr back
    have some := heavy ht now
    omega
  · by_contra apart
    obtain ⟨f, hf, tracked⟩ := faithful.find_of_track ht
    obtain ⟨g, hg, tracked'⟩ := faithful.find_of_track hu
    obtain ⟨others, all, -, removed⟩ := faithful.numbered.attending (headcount P) hf
    rw [attending_of_tracked tracked] at all
    have some := heavy ht now
    have there : u.proc ∈ (c.play.config.remove i).procs := by
      obtain ⟨p, hp, rfl⟩ := Option.map_eq_some_iff.mp hg
      have found : p.1 = j := by simpa using List.find?_some hp
      refine List.mem_flatMap.mpr ⟨p, List.mem_filter.mpr ⟨List.mem_of_find?_eq_some hp, ?_⟩, ?_⟩
      · simpa [found] using Ne.symm apart
      · rw [tracked'.procs]
        exact List.mem_map_of_mem hu
    have more : 1 ≤ others := (headcount_pos now').trans ((le_attending there).trans removed.le)
    omega
  · have here : t ∈ c.tracks flow := by simp [split]
    obtain ⟨f, hf, tracked⟩ := faithful.find_of_track here
    obtain ⟨others, all, -⟩ := faithful.numbered.attending (headcount P) hf
    have some := headcount_pos now
    have two := heavy hu now'
    rw [attending_of_tracked tracked, split] at all
    simp only [List.map_append, List.map_cons, List.sum_append, List.sum_cons] at all two
    omega

end Chronicle

end SessionBroker
