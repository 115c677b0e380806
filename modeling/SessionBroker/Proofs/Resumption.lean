import SessionBroker.Proofs.Plays

/-!
# Where flows wait

A flow that waits for something goes on as the body of its procedure says, and so do its callers once
they get their results. What is true of every action and every call in the bodies of all procedures,
together with what comes after it there, is true of whatever flows and their callers wait for.
-/

namespace SessionBroker

variable {I : Interface} {σ : Type} {m : Machine I σ}

namespace Program

variable {α β : Type} {p : Program I α}
  {acts : (action : I.Action) → (I.Reply action → Program I α) → Prop}
  {calls : (callee : I.Proc) → (I.Result callee → Program I α) → Prop}

/-- Something is true of every action that a program may come to, and of every call, together with what
comes after it. -/
def AtEach (m : Machine I σ) (acts : (action : I.Action) → (I.Reply action → Program I α) → Prop)
    (calls : (callee : I.Proc) → (I.Result callee → Program I α) → Prop) : Program I α → Prop
  | .done _ => True
  | .act action next => acts action next ∧ ∀ flow pick s r t,
      m.perform flow pick action s = some (r, t) → (next r).AtEach m acts calls
  | .call callee next => calls callee next ∧ ∀ r, (next r).AtEach m acts calls
  | .fork _ next => next.AtEach m acts calls

theorem AtEach.bind {q : Program I β} {f : β → Program I α}
    (h : q.AtEach m (fun action next => acts action fun r => next r >>= f)
      fun callee next => calls callee fun r => next r >>= f)
    (hf : ∀ b, (f b).AtEach m acts calls) : (q >>= f).AtEach m acts calls := by
  induction q with
  | done b => exact hf b
  | act action next ih => exact ⟨h.1, fun flow pick s r t hp => ih r (h.2 flow pick s r t hp)⟩
  | call callee next ih => exact ⟨h.1, fun r => ih r (h.2 r)⟩
  | fork other next ih => exact ih h

/-- What is true of whatever is in a scope, wherever it may stand, is true at each place of a program
within it. -/
theorem Within.atEach {S : Scope I} (here : ∀ action next, S.acts action → acts action next)
    (there : ∀ callee next, S.calls callee → calls callee next) (h : p.Within S) :
    p.AtEach m acts calls := by
  induction p with
  | done a => trivial
  | act action next ih => exact ⟨here _ _ h.1, fun _ _ _ r _ _ => ih r (h.2 r)⟩
  | call callee next ih => exact ⟨there _ _ h.1, fun r => ih r (h.2 r)⟩
  | fork other next ih => exact ih h.2

end Program

/-- What is to be true of an action or a call in the body of a procedure. -/
structure Sequel (I : Interface) where
  acts : (proc : I.Proc) → (action : I.Action) → (I.Reply action → Program I (I.Result proc)) → Prop
  calls : (proc callee : I.Proc) → (I.Result callee → Program I (I.Result proc)) → Prop

variable {Q : Sequel I}

/-- Something is true of what the callers wait for. -/
def Waiting.AtEach (m : Machine I σ) (Q : Sequel I) : {proc : I.Proc} → Waiting I proc → Prop
  | _, .root _ => True
  | _, @Waiting.caller _ callee proc next below => Q.calls proc callee next ∧
      (∀ r, (next r).AtEach m (Q.acts proc) (Q.calls proc)) ∧ below.AtEach m Q

/-- Something is true of what a flow may still come to, and of what its callers wait for. -/
def Flow.AtEach (m : Machine I σ) (Q : Sequel I) (f : Flow I) : Prop :=
  f.code.AtEach m (Q.acts f.proc) (Q.calls f.proc) ∧ f.waiting.AtEach m Q

/-- What is true in all bodies is true of flows whatever step is made. -/
theorem Machine.atEach_step {c d : Config I σ}
    (bodies : ∀ proc, (m.body proc).AtEach m (Q.acts proc) (Q.calls proc))
    (all : ∀ p ∈ c.flows, p.2.AtEach m Q) {id : Nat} {pick : Bool}
    (hs : m.step? c id pick = some d) : ∀ p ∈ d.flows, p.2.AtEach m Q := by
  obtain ⟨f, hf, hs⟩ := Option.bind_eq_some_iff.mp hs
  obtain ⟨p, hp, rfl⟩ := Option.map_eq_some_iff.mp hf
  obtain ⟨code, waiting⟩ := all p (List.mem_of_find?_eq_some hp)
  have updated : ∀ (g : Flow I) (s : σ), g.AtEach m Q →
      ∀ q ∈ (Config.update { c with shared := s } id g).flows, q.2.AtEach m Q := by
    intro g s hg q hq
    obtain ⟨old, hold, rfl⟩ := List.mem_map.mp hq
    split
    · exact hg
    · exact all old hold
  obtain ⟨number, proc, code', wait⟩ := p
  cases code' with
  | done a =>
    cases wait with
    | root =>
      cases hs
      exact fun q hq => all q (List.mem_filter.mp hq).1
    | caller next below =>
      cases hs
      exact updated _ c.shared ⟨waiting.2.1 a, waiting.2.2⟩
  | act action next =>
    simp only [stepFlow] at hs
    split at hs
    · cases hs
    · next r s hr =>
      cases hs
      exact updated _ _ ⟨code.2 _ _ _ _ _ hr, waiting⟩
  | call callee next =>
    cases hs
    exact updated _ c.shared ⟨bodies callee, code.1, code.2, waiting⟩
  | fork other next =>
    cases hs
    intro q hq
    rcases List.mem_append.mp hq with hq | hq
    · exact updated ⟨proc, next, wait⟩ c.shared ⟨code, waiting⟩ q hq
    · rw [List.mem_singleton.mp hq]
      exact ⟨bodies other, trivial⟩

/-- What is true in the bodies of all procedures is true of flows whatever happens to a broker. -/
theorem Play.atEach_moves {Q : Sequel brokerInterface}
    (bodies : ∀ proc, (body proc).AtEach brokerMachine (Q.acts proc) (Q.calls proc)) {p : Play}
    (all : ∀ f ∈ p.config.flows, f.2.AtEach brokerMachine Q) (ms : List Move) :
    ∀ f ∈ (p.moves ms).config.flows, f.2.AtEach brokerMachine Q := by
  refine moves_keep (P := fun p => ∀ f ∈ p.config.flows, f.2.AtEach brokerMachine Q)
    (fun p m all => ?_) all ms
  cases m with
  | arrive name request =>
    intro f hf
    rcases List.mem_append.mp hf with old | new
    · exact all f old
    · rw [List.mem_singleton.mp new]
      exact ⟨bodies _, trivial⟩
  | outside change => exact all
  | step flow pick =>
    simp only [move]
    split
    · exact all
    · next c hs => exact Machine.atEach_step (m := brokerMachine) bodies all hs

end SessionBroker
