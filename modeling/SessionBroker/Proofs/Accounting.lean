import SessionBroker.Proofs.Accounts.Conduct

/-!
# Accounting for commands

Whatever happens to a broker, a command that somebody has executed is run at most once, and what he is
told says whether it has been run. So it is with actions on the pipeline's thread.
-/

namespace SessionBroker.Accounts

theorem balances : contract.Balances brokerMachine books where
  loses le right := right.less fun a => Multiset.count_le_of_le a le
  acts use hu right hp := books_acts use hu right hp
  enters e he right := books_enters e he right
  returns e he yields right := books_returns e he yields right
  bodies := keeps_body

theorem books_new (settings : BrokerSettings) (endpoints : List (EngineName × Endpoint))
    (main : EngineName) (host : Host) : books [] (.new settings endpoints main host) 0 := by
  have none : ∀ i, FrameStack.new.mailbox? i = none := by
    intro i
    rcases i with _ | i <;> rfl
  have mailed : Mailed [] FrameStack.new 0 0 := by
    refine ⟨fun hm => ?_, by simp, by simp, by simp, by simp, by simp⟩
    rw [none] at hm
    cases hm
  have pledged : Pledged [] ⟨.new, [], [], [], 0⟩ [] 0 :=
    ⟨rfl, by simp, by simp, by simp, by simp, by simp, by simp⟩
  have counted : Counted [] ⟨.new, [], [], [], 0⟩ 0 :=
    ⟨fun _ => Nat.zero_le 1, fun _ => Nat.zero_le 1, fun _ _ => ⟨rfl, rfl⟩, by simp, by simp⟩
  have computed : Computed [] [] 0 :=
    ⟨fun _ => Nat.zero_le 1, fun _ => Nat.zero_le 1, fun _ _ => ⟨rfl, rfl⟩, by simp, by simp⟩
  exact ⟨⟨[], pledged⟩, mailed, counted, computed⟩

theorem books_apply (change : Outside) {h : History} {w : World} {all : Multiset Stake}
    (right : books h w all) : books h (change.apply w) all := by
  cases change with
  | cancel token => exact Balanced.grow right (FrameStack.grows_map fun _ => rfl)
  | _ => exact right

theorem keeps_moves (settings : BrokerSettings) (endpoints : List (EngineName × Endpoint))
    (main : EngineName) (host : Host) (ms : List Move) :
    ((Play.new settings endpoints main host).moves ms).Keeps contract books :=
  balances.plays (fun _ _ => ⟨_, rfl, rfl⟩) (fun change _ _ _ => books_apply change)
    (Play.keeps_new (books_new settings endpoints main host)) ms

/-! ## What is told -/

variable {h : History} {l : Ledger} {all : Multiset Stake} {q : Request} {n : Nat}

theorem Counted.runs_le (b : Counted h l all) (k : Nat) : h.countP (runs k) + h.countP (rests k) ≤ 1 := by
  have once := b.once k
  unfold uses at once
  omega

theorem Ran.countP_pos (ran : Ran h q) : 0 < h.countP (runs q.call) := by
  obtain ⟨frame, engine, route, ran⟩ := ran
  exact List.countP_pos_iff.mpr ⟨_, ran, by simp [runs]⟩

theorem Did.countP_pos (did : Did h n) : 0 < h.countP (computes n) := by
  obtain ⟨v, did⟩ := did
  exact List.countP_pos_iff.mpr ⟨_, did, by simp [computes]⟩

/-- A call is told that its request has been run exactly if it has been. -/
theorem Counted.told {token : Option Token} {r : Response} (b : Counted h l all)
    (ended : .returned (.execute q token) r ∈ h) :
    hasRun r ∧ h.countP (runs q.call) = 1 ∧ Ran h q ∨ isRest r ∧ h.countP (runs q.call) = 0 := by
  have most := b.runs_le q.call
  obtain ⟨run, ran⟩ | rest := b.ends ended
  · have some := ran.countP_pos
    exact .inl ⟨run, by omega, ran⟩
  · have given : 0 < h.countP (rests q.call) :=
      List.countP_pos_iff.mpr ⟨_, ended, by simp [rests, rest]⟩
    exact .inr ⟨rest, by omega⟩

/-- Whatever happens to a broker, each call to execute a command has a number of its own; the command
is run at most once, and the response tells how often: with an outcome, a failure of the engine or the
loss of the session it has been run once, and when the call was cancelled or the broker disposed it is
never run. No call is told that a frame exited. The action of a call to the pipeline's thread is run at
most once, and has been run once when the call succeeds. -/
theorem executions_accounted (settings : BrokerSettings) (endpoints : List (EngineName × Endpoint))
    (main : EngineName) (host : Host) (ms : List Move) :
    let h := ((Play.new settings endpoints main host).moves ms).history
    (∀ k, h.countP (calls k) ≤ 1 ∧ h.countP (runs k) ≤ 1) ∧
      (∀ q token r, .returned (.execute q token) r ∈ h → r ≠ .error .frameExited ∧
        (hasRun r ∧ h.countP (runs q.call) = 1 ∧ Ran h q ∨
          isRest r ∧ h.countP (runs q.call) = 0)) ∧
      (∀ n, h.countP (asks n) ≤ 1 ∧ h.countP (computes n) ≤ 1) ∧
      ∀ n v, .returned (.onPipeline n) (.ok v) ∈ h → h.countP (computes n) = 1 := by
  intro h
  obtain ⟨-, all, -, right⟩ := keeps_moves settings endpoints main host ms
  have counted : Counted h _ all := right.counted
  have computed : Computed h _ all := right.computed
  refine ⟨fun k => ⟨?_, ?_⟩, fun q token r ended => ?_, fun n => ⟨?_, ?_⟩, fun n v ended => ?_⟩
  · exact (Nat.le_add_right _ _).trans (counted.asked k)
  · exact (Nat.le_add_right _ _).trans (counted.runs_le k)
  · have told := counted.told ended
    refine ⟨?_, told⟩
    rintro rfl
    rcases told with ⟨⟨⟩, -⟩ | ⟨⟨⟩, -⟩
  · exact (Nat.le_add_right _ _).trans (computed.asked n)
  · have once := computed.once n
    omega
  · have once := computed.once n
    have some := (computed.ends ended).countP_pos
    omega

/-! ### A request that is routed twice -/

/-- An engine that answers every command at once. -/
def answering : List (EngineName × Endpoint) :=
  [("main", ⟨.new ⟨5, 1⟩ ⟨1, "localhost", "host"⟩ [], false, none, none⟩)]

/-- A request waits in the mailbox of a nested prompt that is left before it is served. An action is
run afterwards. -/
def leftAndRetried : List Move :=
  [.arrive "set up" (.setUp "main" true)] ++ turns 0 30
    ++ [.arrive "prompt" .enterNestedPrompt] ++ turns 1 20 ++ turns 2 10
    ++ [.arrive "command" (.execute (.script "greet") .interactive none)] ++ turns 3 30
    ++ [.arrive "leave" .exitNestedPrompt] ++ turns 4 30 ++ turns 2 30 ++ turns 3 60
    ++ [.arrive "value" (.onPipeline .null)] ++ turns 5 30

/-- A way is sought for the request of a call. -/
def routes (k : Nat) : Event brokerInterface → Bool
  | .entered (.route q _) => q.call = k
  | _ => false

/-- A call that was routed twice ends with an outcome. -/
def endsRetried (h : History) : Event brokerInterface → Bool
  | .returned (.execute q _) r => hasRun r && h.countP (routes q.call) = 2
  | _ => false

/-- A pipeline call succeeds. -/
def endsWell : Event brokerInterface → Bool
  | .returned (.onPipeline _) r => r.isOk
  | _ => false

/-- The request is run once although it was routed twice, and the action is run once. -/
theorem executions_accounted_retried :
    let h := ((Play.new .standard answering "main" .new).moves leftAndRetried).history
    (∃ q token r, .returned (.execute q token) r ∈ h ∧ h.countP (routes q.call) = 2
      ∧ h.countP (runs q.call) = 1) ∧
    ∃ n v, .returned (.onPipeline n) (.ok v) ∈ h ∧ h.countP (computes n) = 1 := by
  intro h
  obtain ⟨-, told, -, did⟩ := executions_accounted .standard answering "main" .new leftAndRetried
  have retried : h.any (endsRetried h) = true := by decide +kernel
  have well : h.any endsWell = true := by decide +kernel
  constructor
  · obtain ⟨e, he, ends⟩ := List.any_eq_true.mp retried
    rcases e with _ | ⟨proc, r⟩
    · cases ends
    · cases proc
      case execute q token =>
        simp only [endsRetried, Bool.and_eq_true, decide_eq_true_eq] at ends
        obtain ⟨-, ⟨-, once, -⟩ | ⟨rest, -⟩⟩ := told q token r he
        · exact ⟨q, token, r, he, ends.2, once⟩
        · rw [isRest_of_hasRun ends.1] at rest
          cases rest
      all_goals cases ends
  · obtain ⟨e, he, ends⟩ := List.any_eq_true.mp well
    rcases e with _ | ⟨proc, r⟩
    · cases ends
    · cases proc
      case onPipeline n =>
        cases r with
        | error f => cases ends
        | ok v => exact ⟨n, v, he, did n v he⟩
      all_goals cases ends

end SessionBroker.Accounts
