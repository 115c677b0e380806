import SessionBroker.Concurrency.Program

/-!
# Machines

A machine runs flows over shared state. A flow is a procedure under way: what it still has to do,
and which callers wait for it. One step of a machine lets one flow perform one action, enter a
procedure, return from one or start a new flow; a flow whose action has to wait cannot step. Any
order of steps is possible; `settle` follows one of them to the point where no flow can step.
-/

namespace SessionBroker

/-- The callers that wait, each for the result of the procedure above it. -/
inductive Waiting (I : Interface) : I.Proc → Type where
  /-- Nobody waits: the flow began with this procedure. -/
  | root (proc : I.Proc) : Waiting I proc
  | caller {callee proc : I.Proc} (next : I.Result callee → Program I (I.Result proc))
      (below : Waiting I proc) : Waiting I callee

namespace Waiting

variable {I : Interface}

/-- The procedures under way, the innermost one first. -/
def procs : {p : I.Proc} → Waiting I p → List I.Proc
  | p, .root _ => [p]
  | p, .caller _ below => p :: below.procs

end Waiting

/-- A procedure under way. -/
structure Flow (I : Interface) where
  proc : I.Proc
  code : Program I (I.Result proc)
  waiting : Waiting I proc

namespace Flow

variable {I : Interface}

/-- The procedures under way, the innermost one first. -/
def procs (f : Flow I) : List I.Proc := f.waiting.procs

end Flow

/-- What the procedures do, and what the actions do to states in `σ`. -/
structure Machine (I : Interface) (σ : Type) where
  body : (proc : I.Proc) → Program I (I.Result proc)
  /-- An action of the flow with a number; `none` if it has to wait. Where two things are ready at
  once, the truth value says which one counts. -/
  perform : Nat → Bool → (action : I.Action) → σ → Option (I.Reply action × σ)

/-- The shared state and the flows under way, by number. -/
structure Config (I : Interface) (σ : Type) where
  shared : σ
  flows : List (Nat × Flow I)
  /-- The number of the next flow. -/
  next : Nat

namespace Config

variable {I : Interface} {σ : Type}

/-- Puts a new flow behind the others. -/
def spawn (c : Config I σ) (m : Machine I σ) (proc : I.Proc) : Config I σ :=
  { c with flows := c.flows ++ [(c.next, ⟨proc, m.body proc, .root proc⟩)], next := c.next + 1 }

/-- Changes what a flow still has to do. -/
def update (c : Config I σ) (id : Nat) (f : Flow I) : Config I σ :=
  { c with flows := c.flows.map fun p => if p.1 = id then (id, f) else p }

def remove (c : Config I σ) (id : Nat) : Config I σ :=
  { c with flows := c.flows.filter (·.1 ≠ id) }

def find? (c : Config I σ) (id : Nat) : Option (Flow I) :=
  (c.flows.find? (·.1 = id)).map (·.2)

end Config

namespace Machine

variable {I : Interface} {σ : Type} (m : Machine I σ)

/-- One step of a flow; `none` if it has to wait. -/
def stepFlow (c : Config I σ) (id : Nat) (pick : Bool) (f : Flow I) : Option (Config I σ) :=
  match f with
  | ⟨_, .done a, .caller next below⟩ => some (c.update id ⟨_, next a, below⟩)
  | ⟨_, .done _, .root _⟩ => some (c.remove id)
  | ⟨_, .call callee next, waiting⟩ =>
    some (c.update id ⟨callee, m.body callee, .caller next waiting⟩)
  | ⟨proc, .fork other next, waiting⟩ => some ((c.update id ⟨proc, next, waiting⟩).spawn m other)
  | ⟨proc, .act action next, waiting⟩ =>
    match m.perform id pick action c.shared with
    | none => none
    | some (reply, shared) =>
      some ({ c with shared := shared }.update id ⟨proc, next reply, waiting⟩)

/-- One step of the flow with a number; `none` if there is none or it has to wait. -/
def step? (c : Config I σ) (id : Nat) (pick : Bool) : Option (Config I σ) :=
  (c.find? id).bind (m.stepFlow c id pick)

inductive Step : Config I σ → Config I σ → Prop where
  | flow {c d : Config I σ} (id : Nat) (pick : Bool) : m.step? c id pick = some d → Step c d

/-- Any number of steps of any flows. -/
inductive Run : Config I σ → Config I σ → Prop where
  | refl (c : Config I σ) : Run c c
  | cons {c d e : Config I σ} : Step m c d → Run d e → Run c e

/-- Lets one flow step until it has to wait or has ended. -/
def advance : Nat → Nat → Config I σ → Config I σ
  | 0, _, c => c
  | fuel + 1, id, c =>
    match m.step? c id false with
    | some d => advance fuel id d
    | none => c

/-- Lets the first flow that can step do so until it has to wait; `none` if no flow can step. -/
def advanceFirst (fuel : Nat) (c : Config I σ) : List (Nat × Flow I) → Option (Config I σ)
  | [] => none
  | (id, _) :: rest =>
    match m.step? c id false with
    | some d => some (m.advance fuel id d)
    | none => advanceFirst fuel c rest

/-- Lets flows step, the oldest first and each as far as it gets, until none can. -/
def settle (fuel : Nat) : Nat → Config I σ → Config I σ
  | 0, c => c
  | rounds + 1, c =>
    match m.advanceFirst fuel c c.flows with
    | some d => settle fuel rounds d
    | none => c

variable {m}

namespace Run

variable {c d e : Config I σ}

theorem single (h : Step m c d) : Run m c d := .cons h (.refl d)

theorem trans (hcd : Run m c d) (hde : Run m d e) : Run m c e := by
  induction hcd with
  | refl => exact hde
  | cons h _ ih => exact .cons h (ih hde)

/-- What every step keeps, every run keeps. -/
theorem preserves {P : Config I σ → Prop} (keep : ∀ {c d}, Step m c d → P c → P d)
    (h : Run m c d) (hc : P c) : P d := by
  induction h with
  | refl => exact hc
  | cons h _ ih => exact ih (keep h hc)

end Run

theorem run_advance (fuel id : Nat) (c : Config I σ) : Run m c (m.advance fuel id c) := by
  induction fuel generalizing c with
  | zero => exact .refl c
  | succ fuel ih =>
    unfold advance
    split
    · next d h => exact .cons (.flow id false h) (ih d)
    · exact .refl c

theorem run_advanceFirst {fuel : Nat} {c d : Config I σ} {flows : List (Nat × Flow I)}
    (h : m.advanceFirst fuel c flows = some d) : Run m c d := by
  induction flows with
  | nil => simp [advanceFirst] at h
  | cons p rest ih =>
    unfold advanceFirst at h
    split at h
    · next d' h' =>
      cases h
      exact .cons (.flow _ false h') (run_advance fuel _ d')
    · exact ih h

theorem run_settle (fuel rounds : Nat) (c : Config I σ) : Run m c (m.settle fuel rounds c) := by
  induction rounds generalizing c with
  | zero => exact .refl c
  | succ rounds ih =>
    unfold settle
    split
    · next d h => exact (run_advanceFirst h).trans (ih d)
    · exact .refl c

end Machine

end SessionBroker
