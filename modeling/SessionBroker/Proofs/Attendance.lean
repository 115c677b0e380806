import Mathlib.Algebra.Order.BigOperators.Group.List
import Mathlib.Algebra.Order.Group.Nat
import SessionBroker.Proofs.Dealings

/-!
# Attendance

Whoever has entered a procedure and has not returned from it is under way. Procedures may have
different weights, so that some of them need not be counted at all.
-/

namespace SessionBroker

variable {I : Interface} {σ : Type}

/-- The weight of the procedures that have been entered. -/
def entered (weight : I.Proc → Nat) : List (Event I) → Nat
  | [] => 0
  | .entered proc :: h => weight proc + entered weight h
  | .returned .. :: h => entered weight h

/-- The weight of the procedures that have returned. -/
def returned (weight : I.Proc → Nat) : List (Event I) → Nat
  | [] => 0
  | .entered _ :: h => returned weight h
  | .returned proc _ :: h => weight proc + returned weight h

/-- The weight of the procedures under way in a flow. -/
def Flow.attending (weight : I.Proc → Nat) (f : Flow I) : Nat := (f.procs.map weight).sum

/-- The weight of all procedures under way. -/
def Config.attending (weight : I.Proc → Nat) (c : Config I σ) : Nat :=
  (c.flows.map fun p => p.2.attending weight).sum

variable {weight : I.Proc → Nat} {m : Machine I σ} {c d : Config I σ} {id : Nat} {pick : Bool}
  {f : Flow I} {h : List (Event I)}

theorem attending_eq_zero (none : ∀ proc ∈ c.procs, weight proc = 0) : c.attending weight = 0 := by
  refine List.sum_eq_zero fun n hn => ?_
  obtain ⟨p, hp, rfl⟩ := List.mem_map.mp hn
  refine List.sum_eq_zero fun n hn => ?_
  obtain ⟨proc, mine, rfl⟩ := List.mem_map.mp hn
  exact none proc (List.mem_flatMap.mpr ⟨p, hp, mine⟩)

theorem le_attending {proc : I.Proc} (here : proc ∈ c.procs) : weight proc ≤ c.attending weight := by
  obtain ⟨p, hp, mine⟩ := List.mem_flatMap.mp here
  calc weight proc ≤ p.2.attending weight := List.le_sum_of_mem (List.mem_map_of_mem mine)
    _ ≤ c.attending weight := List.le_sum_of_mem
      (List.mem_map_of_mem hp)

theorem attending_spawn (proc : I.Proc) :
    (c.spawn m proc).attending weight = c.attending weight + weight proc := by
  simp [Config.attending, Config.spawn, Flow.attending, Flow.procs, Waiting.procs]

/-- Where one flow changes, the others attend as before. -/
theorem Config.Numbered.attending (weight : I.Proc → Nat) (numbered : c.Numbered) (hf : c.find? id = some f) :
    ∃ others, c.attending weight = f.attending weight + others ∧
      (∀ g (s : σ), Config.attending weight ({ c with shared := s }.update id g) =
        g.attending weight + others) ∧
      (c.remove id).attending weight = others := by
  obtain ⟨before, after, flows, updated, removed⟩ := numbered.split hf
  have split : ∀ (g : Flow I), ((before ++ (id, g) :: after).map fun p => p.2.attending weight).sum =
      g.attending weight + ((before ++ after).map fun p => p.2.attending weight).sum := by
    intro g
    simp
    omega
  refine ⟨((before ++ after).map fun p => p.2.attending weight).sum, ?_, fun g s => ?_, ?_⟩
  · rw [Config.attending, flows, split]
  · rw [← split, ← updated]
    rfl
  · rw [Config.attending, removed]

/-- With each step as much enters as returns or stays. -/
theorem attending_step (weight : I.Proc → Nat) (numbered : c.Numbered) (hf : c.find? id = some f)
    (hs : m.stepFlow c id pick f = some d) :
    entered weight f.event?.toList + c.attending weight =
      returned weight f.event?.toList + d.attending weight := by
  obtain ⟨others, now, updated, removed⟩ := numbered.attending weight hf
  obtain ⟨proc, code, wait⟩ := f
  simp only [Flow.attending, Flow.procs] at now updated
  cases code with
  | done a =>
    cases wait with
    | root =>
      cases hs
      simp [Flow.event?, entered, returned, Waiting.procs, now, removed]
    | caller next below =>
      cases hs
      rw [now, updated _ c.shared]
      simp only [Flow.event?, Option.toList_some, entered, returned, Waiting.procs, List.map_cons,
        List.sum_cons]
      omega
  | act action next =>
    simp only [Machine.stepFlow] at hs
    split at hs
    · cases hs
    · cases hs
      rw [now, updated]
      rfl
  | call callee next =>
    cases hs
    rw [now, updated _ c.shared]
    simp only [Flow.event?, Option.toList_some, entered, returned, Waiting.procs, List.map_cons,
      List.sum_cons]
    omega
  | fork other next =>
    cases hs
    rw [attending_spawn, now, updated _ c.shared]
    simp only [Flow.event?, Option.toList_some, entered, returned]
    omega

theorem entered_append (g : List (Event I)) :
    entered weight (g ++ h) = entered weight g + entered weight h := by
  induction g with
  | nil => simp [entered]
  | cons e rest ih =>
    cases e <;> simp only [List.cons_append, entered, ih]
    omega

theorem returned_append (g : List (Event I)) :
    returned weight (g ++ h) = returned weight g + returned weight h := by
  induction g with
  | nil => simp [returned]
  | cons e rest ih =>
    cases e <;> simp only [List.cons_append, returned, ih]
    omega

/-- Flows are numbered, and all that has entered has returned or is under way. -/
structure Play.Attended (p : Play) : Prop where
  numbered : p.config.Numbered
  balance : ∀ weight, entered weight p.history = returned weight p.history + p.config.attending weight

variable {p : Play}

theorem Play.Attended.move (attended : p.Attended) (m : Move) : (p.move m).Attended := by
  cases m with
  | arrive name request =>
    refine ⟨attended.numbered.spawn _ _, fun weight => ?_⟩
    have before := attended.balance weight
    simp only [Play.move, entered, returned, attending_spawn]
    omega
  | outside change => exact ⟨⟨attended.numbered.unique, attended.numbered.below⟩, attended.balance⟩
  | step flow pick =>
    rcases hs : brokerMachine.step? p.config flow pick with _ | d
    · have same : p.move (.step flow pick) = p := by simp only [Play.move, hs]
      rw [same]
      exact attended
    · obtain ⟨f, hf, hs'⟩ := Option.bind_eq_some_iff.mp hs
      have next : p.move (.step flow pick) = ⟨d, f.event?.toList ++ p.history⟩ := by
        simp only [Play.move, hs, Play.event?, hf, Option.bind_some]
      rw [next]
      refine ⟨attended.numbered.step hs', fun weight => ?_⟩
      have before := attended.balance weight
      have step := attending_step weight attended.numbered hf hs'
      simp only [entered_append, returned_append]
      omega

theorem Play.attended_moves (settings : BrokerSettings) (endpoints : List (EngineName × Endpoint))
    (main : EngineName) (host : Host) (ms : List Move) :
    ((Play.new settings endpoints main host).moves ms).Attended :=
  Play.moves_keep (fun _ m attended => attended.move m)
    ⟨⟨List.nodup_nil, by simp [Play.new, Scenario.still]⟩, fun _ => rfl⟩ ms

end SessionBroker
