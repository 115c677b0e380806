/-!
# Programs over shared state

A program is a tree: it ends with a value, or performs an action and goes on with the reply, or
calls a procedure and goes on with its result, or starts a procedure as a flow of its own and goes
on at once. Actions are the single steps on shared state; between two of them other flows may move.
Procedures are what makes unbounded runs out of finite trees.
-/

namespace SessionBroker

/-- The actions and procedures that programs are made of. -/
structure Interface where
  Action : Type
  Reply : Action → Type
  Proc : Type
  Result : Proc → Type

/-- A program with a result in `α`. -/
inductive Program (I : Interface) (α : Type) : Type where
  | done (a : α)
  | act (action : I.Action) (next : I.Reply action → Program I α)
  | call (proc : I.Proc) (next : I.Result proc → Program I α)
  | fork (proc : I.Proc) (next : Program I α)

namespace Program

variable {I : Interface} {α β : Type}

/-- Runs a program and then one that depends on its result. -/
def bind : Program I α → (α → Program I β) → Program I β
  | .done a, f => f a
  | .act action next, f => .act action fun r => (next r).bind f
  | .call proc next, f => .call proc fun r => (next r).bind f
  | .fork proc next, f => .fork proc (next.bind f)

instance : Monad (Program I) where
  pure := .done
  bind := .bind

def perform (action : I.Action) : Program I (I.Reply action) := .act action .done

def invoke (proc : I.Proc) : Program I (I.Result proc) := .call proc .done

/-- Starts one procedure as a flow of its own. -/
def start (proc : I.Proc) : Program I Unit := .fork proc (.done ())

/-- Runs a program if a condition holds. -/
def onlyIf (c : Bool) (p : Program I Unit) : Program I Unit := if c then p else .done ()

@[simp] theorem done_bind (a : α) (f : α → Program I β) : (Program.done a).bind f = f a := rfl

@[simp] theorem bind_done (p : Program I α) : p.bind .done = p := by
  induction p with
  | done a => rfl
  | act action next ih => simp [bind, ih]
  | call proc next ih => simp [bind, ih]
  | fork proc next ih => simp [bind, ih]

theorem bind_assoc {γ : Type} (p : Program I α) (f : α → Program I β) (g : β → Program I γ) :
    (p.bind f).bind g = p.bind fun a => (f a).bind g := by
  induction p with
  | done a => rfl
  | act action next ih => simp [bind, ih]
  | call proc next ih => simp [bind, ih]
  | fork proc next ih => simp [bind, ih]

end Program

end SessionBroker
