import SessionBroker.Proofs.Alone
import SessionBroker.Proofs.Contract
import SessionBroker.Proofs.Ledger
import SessionBroker.Scenario.Flows

/-!
# Plays

A play is all that may happen to a broker: clients arrive with any requests, any flow that need not
wait makes a step, tokens are cancelled and the host is told things, in any order. What has been seen
of the flows is kept as a history, the last event first.
-/

namespace SessionBroker

open Scenario (touch still)

/-- What the surroundings of a broker may do at any moment. -/
inductive Outside where
  | cancel (token : Token)
  | hostStop
  | hostPump
  | hostLine (text : String)
  | hostEnd
  | probeOutput (engine : EngineName) (output : Option (List Json.Value))
  /-- What was to be seen so far has been seen. -/
  | observe

/-- What becomes of the world. -/
def Outside.apply : Outside → World → World
  | .cancel token, w => w.cancel token
  | .hostStop, w => { w with host := w.host.stopLoop }
  | .hostPump, w => { w with host := w.host.askPump.2 }
  | .hostLine text, w => { w with host := { w.host with lines := w.host.lines ++ [text] } }
  | .hostEnd, w => { w with host := { w.host with ended := true } }
  | .probeOutput e output, w => w.modifyEndpoint e ({ · with probeOutput := output })
  | .observe, w => { w with reports := [], engineCalls := [], host := { w.host with calls := [] } }

/-- No lease goes out or comes back from outside. -/
theorem Outside.isOut_apply (change : Outside) (w : World) (i : Nat) :
    (change.apply w).frames.isOut i = w.frames.isOut i := by
  cases change with
  | cancel token =>
    simp only [apply, World.cancel, FrameStack.isOut, FrameStack.get?, List.getElem?_map]
    cases w.frames.frames[i]? <;> rfl
  | _ => rfl

/-- Something that happens to a broker. -/
inductive Move where
  /-- A client arrives. -/
  | arrive (name : String) (request : ClientRequest)
  /-- The flow with a number makes a step; nothing happens if it has to wait. -/
  | step (flow : Nat) (pick : Bool)
  | outside (change : Outside)

/-- Some steps of one flow. -/
def turns (flow n : Nat) : List Move := List.replicate n (.step flow false)

def Flow.action? : Flow brokerInterface → Option Action
  | ⟨_, .act action _, _⟩ => some action
  | _ => none

/-- A broker under way. -/
structure Play where
  config : BrokerConfig
  history : List (Event brokerInterface)

namespace Play

/-- A broker to which nothing has happened. -/
def new (settings : BrokerSettings) (endpoints : List (EngineName × Endpoint)) (main : EngineName)
    (host : Host) : Play :=
  ⟨still (.new settings endpoints main host), []⟩

/-- The phase of the broker. -/
def phase (p : Play) : Phase := p.config.shared.phase

/-- What is seen of the next step of a flow. -/
def event? (p : Play) (flow : Nat) : Option (Event brokerInterface) :=
  (p.config.find? flow).bind Flow.event?

/-- The action that a move is about to perform. -/
def action? (p : Play) : Move → Option Action
  | .step flow _ => (p.config.find? flow).bind Flow.action?
  | _ => none

/-- Something happens. -/
def move (p : Play) : Move → Play
  | .arrive name request =>
    ⟨p.config.spawn brokerMachine (.serveClient name request),
      .entered (.serveClient name request) :: p.history⟩
  | .step flow pick =>
    match brokerMachine.step? p.config flow pick with
    | none => p
    | some c => ⟨c, (p.event? flow).toList ++ p.history⟩
  | .outside change => { p with config := touch change.apply p.config }

/-- One thing after the other happens. -/
def moves (p : Play) (ms : List Move) : Play := ms.foldl move p

@[simp] theorem moves_cons (p : Play) (m : Move) (ms : List Move) :
    p.moves (m :: ms) = (p.move m).moves ms := rfl

theorem moves_keep {P : Play → Prop} (keep : ∀ p m, P p → P (p.move m)) {p : Play} (hp : P p)
    (ms : List Move) : P (p.moves ms) := by
  induction ms generalizing p with
  | nil => exact hp
  | cons m ms ih => exact ih (keep p m hp)

/-- Something is true of every move and the moment at which it is made. -/
def Along (P : Play → Move → Prop) : Play → List Move → Prop
  | _, [] => True
  | p, m :: ms => P p m ∧ Along P (p.move m) ms

instance decidableAlong (P : Play → Move → Prop) [∀ p m, Decidable (P p m)] :
    (p : Play) → (ms : List Move) → Decidable (p.Along P ms)
  | _, [] => .isTrue trivial
  | p, m :: ms =>
    have := decidableAlong P (p.move m) ms
    inferInstanceAs (Decidable (P p m ∧ (p.move m).Along P ms))

theorem Along.moves_keep {P : Play → Move → Prop} {Q : Play → Prop} {p : Play} {ms : List Move}
    (along : p.Along P ms) (keep : ∀ p m, P p m → Q p → Q (p.move m)) (hp : Q p) :
    Q (p.moves ms) := by
  induction ms generalizing p with
  | nil => exact hp
  | cons m ms ih => exact ih along.2 (keep p m along.1 hp)

theorem along_append {P : Play → Move → Prop} {p : Play} {ms ns : List Move} :
    p.Along P (ms ++ ns) ↔ p.Along P ms ∧ (p.moves ms).Along P ns := by
  induction ms generalizing p with
  | nil => exact ⟨fun along => ⟨trivial, along⟩, fun along => along.2⟩
  | cons m ms ih =>
    show P p m ∧ (p.move m).Along P (ms ++ ns) ↔ (P p m ∧ (p.move m).Along P ms) ∧ _
    rw [ih, and_assoc]
    rfl

/-- A move changes the shared state by an action, or from outside, or not at all. -/
theorem shared_move (p : Play) (m : Move) :
    (p.move m).config.shared = p.config.shared ∨
      (∃ change, m = .outside change ∧ (p.move m).config.shared = change.apply p.config.shared) ∨
      ∃ flow pick action r, m = .step flow pick ∧ p.action? m = some action ∧
        World.perform flow pick action p.config.shared = some (r, (p.move m).config.shared) := by
  cases m with
  | arrive name request => exact .inl rfl
  | outside change => exact .inr (.inl ⟨change, rfl, rfl⟩)
  | step flow pick =>
    simp only [move, action?]
    split
    · exact .inl rfl
    · next c hs =>
      obtain ⟨⟨proc, code, wait⟩, hf, hs⟩ := Option.bind_eq_some_iff.mp hs
      cases code with
      | done a => cases wait <;> cases hs <;> exact .inl rfl
      | call | fork => cases hs; exact .inl rfl
      | act action next =>
        simp only [Machine.stepFlow] at hs
        split at hs
        · cases hs
        · next r s hp =>
          cases hs
          exact .inr (.inr ⟨flow, pick, action, r, rfl, by rw [hf]; rfl, hp⟩)

/-- A flow that performs an action goes on with the reply. -/
theorem move_act {p : Play} {flow : Nat} {pick : Bool} {proc : Proc} {action : Action}
    {next : action.Reply → Code proc.Result} {wait : Waiting brokerInterface proc} {r : action.Reply}
    {w : World} (hf : p.config.find? flow = some ⟨proc, .act action next, wait⟩)
    (hp : World.perform flow pick action p.config.shared = some (r, w)) :
    (p.move (.step flow pick)).config =
      Config.update { p.config with shared := w } flow ⟨proc, next r, wait⟩ := by
  have hp' : brokerMachine.perform flow pick action p.config.shared = some (r, w) := hp
  have hs : brokerMachine.step? p.config flow pick = some
      (Config.update { p.config with shared := w } flow ⟨proc, next r, wait⟩) := by
    simp only [Machine.step?, hf, Option.bind_some, Machine.stepFlow, hp']
  simp only [move, hs]

theorem find?_move_act {p : Play} {flow : Nat} {pick : Bool} {proc : Proc} {action : Action}
    {next : action.Reply → Code proc.Result} {wait : Waiting brokerInterface proc} {r : action.Reply}
    {w : World} (hf : p.config.find? flow = some ⟨proc, .act action next, wait⟩)
    (hp : World.perform flow pick action p.config.shared = some (r, w)) :
    (p.move (.step flow pick)).config.find? flow = some ⟨proc, next r, wait⟩ := by
  rw [move_act hf hp]
  exact Config.find?_update_self (c := { p.config with shared := w }) hf

/-- A flow stays where it is while others move. -/
theorem find?_move {p : Play} {m : Move} {flow : Nat} {f : Flow brokerInterface}
    (other : ∀ pick, m ≠ .step flow pick) (hf : p.config.find? flow = some f) :
    (p.move m).config.find? flow = some f := by
  have spawned : ∀ (c : BrokerConfig) (proc : Proc), c.find? flow = some f →
      (c.spawn brokerMachine proc).find? flow = some f := by
    intro c proc hf
    obtain ⟨q, hq, rfl⟩ := Option.map_eq_some_iff.mp hf
    simp [Config.find?, Config.spawn, List.find?_append, hq]
  cases m with
  | arrive name request => exact spawned p.config _ hf
  | outside change => exact hf
  | step id pick =>
    have ne : flow ≠ id := fun same => other pick (by rw [same])
    simp only [move]
    split
    · exact hf
    · next c hs =>
      obtain ⟨⟨proc, code, wait⟩, -, hs⟩ := Option.bind_eq_some_iff.mp hs
      have updated : ∀ g, (p.config.update id g).find? flow = some f :=
        fun g => (Config.find?_update_of_ne ne).trans hf
      cases code with
      | done a =>
        cases wait with
        | root =>
          cases hs
          obtain ⟨q, hq, rfl⟩ := Option.map_eq_some_iff.mp hf
          have found : q.1 = flow := by simpa using List.find?_some hq
          simp only [Config.remove, Config.find?, List.find?_filter, Option.map_eq_some_iff]
          refine ⟨q, ?_, rfl⟩
          rw [← hq]
          congr 1
          funext a
          by_cases same : a.1 = flow <;> simp [same, ne]
        | caller next below => cases hs; exact updated _
      | call => cases hs; exact updated _
      | fork other next => cases hs; exact spawned _ other (updated ⟨proc, next, wait⟩)
      | act action next =>
        simp only [Machine.stepFlow] at hs
        split at hs
        · cases hs
        · cases hs
          exact updated _

/-- Flows stay numbered. -/
theorem numbered_moves {p : Play} (numbered : p.config.Numbered) (ms : List Move) :
    (p.moves ms).config.Numbered := by
  refine moves_keep (P := fun p => p.config.Numbered) (fun p m numbered => ?_) numbered ms
  cases m with
  | arrive name request => exact numbered.spawn _ _
  | outside change => exact ⟨numbered.unique, numbered.below⟩
  | step flow pick =>
    simp only [move]
    split
    · exact numbered
    · next c hs =>
      obtain ⟨f, -, hs⟩ := Option.bind_eq_some_iff.mp hs
      exact numbered.step hs

/-- If the bodies of all procedures keep to their scopes, whoever is under way does. -/
theorem keepsTo_moves {scope : Proc → Scope brokerInterface}
    (bodies : ∀ proc, (body proc).Within (scope proc)) {p : Play}
    (keeps : ∀ f ∈ p.config.flows, f.2.KeepsTo scope) (ms : List Move) :
    ∀ f ∈ (p.moves ms).config.flows, f.2.KeepsTo scope := by
  refine moves_keep (P := fun p => ∀ f ∈ p.config.flows, f.2.KeepsTo scope) (fun p m keeps => ?_) keeps ms
  cases m with
  | arrive name request =>
    intro f hf
    rcases List.mem_append.mp hf with old | new
    · exact keeps f old
    · rw [List.mem_singleton.mp new]
      exact ⟨bodies _, trivial⟩
  | outside change => exact keeps
  | step flow pick =>
    simp only [move]
    split
    · exact keeps
    · next c hs => exact Machine.keepsTo_step (m := brokerMachine) bodies keeps hs

/-- All that the machine may do happens in some play. -/
theorem exists_moves {p : Play} {d : BrokerConfig} (run : Machine.Run brokerMachine p.config d) :
    ∃ ms, (p.moves ms).config = d := by
  obtain ⟨c, h⟩ := p
  change Machine.Run brokerMachine c d at run
  induction run generalizing h with
  | refl c => exact ⟨[], rfl⟩
  | @cons c d e hs _ ih =>
    obtain ⟨flow, pick, hs⟩ := hs
    obtain ⟨ms, rfl⟩ := ih ((Play.event? ⟨c, h⟩ flow).toList ++ h)
    refine ⟨.step flow pick :: ms, ?_⟩
    rw [moves_cons, move]
    simp only [hs]

/-- A request of a client, served as far as a scenario takes it, happens in some play. -/
theorem exists_moves_launch (p : Play) (name : String) (request : ClientRequest) :
    ∃ ms, (p.moves ms).config = Scenario.launch (.serveClient name request) p.config := by
  obtain ⟨ms, h⟩ := exists_moves (p := p.move (.arrive name request))
    (Scenario.run_launch (.serveClient name request) p.config)
  exact ⟨.arrive name request :: ms, h⟩

end Play

/-! ## Flows that make no step -/

namespace Config

variable {I : Interface} {σ : Type} {c : Config I σ} {away : Nat → Bool} {id : Nat} {f : Flow I}
  {m : Machine I σ}

/-- Leaves some flows out. -/
def without (c : Config I σ) (away : Nat → Bool) : Config I σ :=
  { c with flows := c.flows.filter fun p => !away p.1 }

theorem find?_without (here : away id = false) : (c.without away).find? id = c.find? id := by
  simp only [find?, without, List.find?_filter]
  congr 2
  funext p
  by_cases same : p.1 = id <;> simp [same, here]

theorem without_update : (c.update id f).without away = (c.without away).update id f := by
  have same : ∀ p : Nat × Flow I, (if p.1 = id then (id, f) else p).1 = p.1 := by
    intro p
    split
    · next e => exact e.symm
    · rfl
  simp [without, update, List.filter_map, Function.comp_def, same]

theorem without_remove : (c.remove id).without away = (c.without away).remove id := by
  simp [without, remove, List.filter_filter, Bool.and_comm]

theorem without_spawn (new : away c.next = false) (proc : I.Proc) :
    (c.spawn m proc).without away = (c.without away).spawn m proc := by
  simp [without, spawn, List.filter_append, new]

theorem Numbered.without (numbered : c.Numbered) : (c.without away).Numbered where
  unique := numbered.unique.sublist (List.filter_sublist.map _)
  below p hp := numbered.below p (List.mem_filter.mp hp).1

/-- A flow that is there steps as if those that are left out did not exist. -/
theorem step?_without {pick : Bool} (here : away id = false) (new : away c.next = false) :
    m.step? (c.without away) id pick = (m.step? c id pick).map (·.without away) := by
  simp only [Machine.step?, find?_without here]
  rcases c.find? id with _ | ⟨proc, code, wait⟩
  · rfl
  · simp only [Option.bind_some]
    cases code with
    | done a => cases wait <;> simp [Machine.stepFlow, without_update, without_remove]
    | call callee next => simp [Machine.stepFlow, without_update]
    | fork other next =>
      have new' : away (c.update id ⟨proc, next, wait⟩).next = false := new
      simp [Machine.stepFlow, without_update, without_spawn new']
    | act action next =>
      have shared : (c.without away).shared = c.shared := rfl
      simp only [Machine.stepFlow, shared]
      split
      · rfl
      · next r s _ =>
        let c' : Config I σ := { c with shared := s }
        have same : (c'.update id ⟨proc, next r, wait⟩).without away =
            (c'.without away).update id ⟨proc, next r, wait⟩ := without_update
        exact congrArg some same.symm

end Config

namespace Play

/-- Leaves some flows out. -/
def without (p : Play) (away : Nat → Bool) : Play := { p with config := p.config.without away }

variable {p : Play} {away : Nat → Bool}

theorem next_le_move (m : Move) : p.config.next ≤ (p.move m).config.next := by
  cases m with
  | arrive name request => exact Nat.le_succ _
  | outside change => exact le_rfl
  | step flow pick =>
    simp only [move]
    split
    · exact le_rfl
    · next c hs =>
      obtain ⟨⟨proc, code, wait⟩, -, hs⟩ := Option.bind_eq_some_iff.mp hs
      cases code with
      | done a => cases wait <;> cases hs <;> exact le_rfl
      | call => cases hs; exact le_rfl
      | fork => cases hs; exact Nat.le_succ _
      | act action next =>
        simp only [Machine.stepFlow] at hs
        split at hs <;> cases hs
        exact le_rfl

theorem without_move {m : Move} (here : ∀ flow pick, m = .step flow pick → away flow = false)
    (new : away p.config.next = false) : (p.move m).without away = (p.without away).move m := by
  cases m with
  | arrive name request => simp only [without, move, Config.without_spawn new]
  | outside change => rfl
  | step flow pick =>
    have mine := here flow pick rfl
    have found : (p.without away).event? flow = p.event? flow := by
      simp only [event?, without, Config.find?_without mine]
    have steps : brokerMachine.step? (p.without away).config flow pick = _ :=
      Config.step?_without mine new
    simp only [move, steps, found]
    cases brokerMachine.step? p.config flow pick <;> rfl

/-- Flows that make no step may as well not be there. -/
theorem without_moves {ms : List Move} (here : ∀ flow pick, .step flow pick ∈ ms → away flow = false)
    (new : ∀ id, p.config.next ≤ id → away id = false) :
    (p.moves ms).without away = (p.without away).moves ms := by
  induction ms generalizing p with
  | nil => rfl
  | cons m ms ih =>
    have moved := without_move (fun flow pick same => here flow pick (same ▸ List.mem_cons_self))
      (new _ le_rfl)
    rw [moves_cons, moves_cons, ← moved]
    exact ih (fun flow pick mem => here flow pick (List.mem_cons_of_mem m mem)) fun id le =>
      new id ((next_le_move m).trans le)

end Play

/-! ## Contracts -/

variable {A : Type} {C : Contract brokerInterface A} {J : Books brokerInterface A World} {p : Play}

/-- The flows of a play keep a contract. -/
def Play.Keeps (p : Play) (C : Contract brokerInterface A) (J : Books brokerInterface A World) :
    Prop :=
  Sound C J p.config p.history

/-- If a client who arrives needs nothing and the surroundings keep the books right, the contract is kept
whatever happens. -/
theorem Contract.Balances.move (b : C.Balances brokerMachine J) {m : Move}
    (client : ∀ name request, m = .arrive name request →
      ∃ e ∈ C.errands (.serveClient name request), e.price = 0)
    (outside : ∀ (change : Outside) h w all, J h w all → J h (change.apply w) all)
    (keeps : p.Keeps C J) : (p.move m).Keeps C J := by
  cases m with
  | arrive name request =>
    obtain ⟨e, he, nothing⟩ := client name request rfl
    exact Sound.spawn b keeps he nothing
  | outside change => exact Sound.touch keeps change.apply (outside change _ _)
  | step flow pick =>
    simp only [Play.move, Machine.step?]
    rcases hf : p.config.find? flow with _ | f
    · exact keeps
    · rcases hs : brokerMachine.stepFlow p.config flow pick f with _ | d
      · simpa only [hs, Option.bind_some] using keeps
      · simp only [hs, Option.bind_some, Play.event?, hf]
        exact Sound.step b keeps hf hs

theorem Contract.Balances.plays (b : C.Balances brokerMachine J)
    (client : ∀ name request, ∃ e ∈ C.errands (.serveClient name request), e.price = 0)
    (outside : ∀ (change : Outside) h w all, J h w all → J h (change.apply w) all)
    (keeps : p.Keeps C J) (ms : List Move) : (p.moves ms).Keeps C J :=
  Play.moves_keep (P := (·.Keeps C J))
    (fun _ _ keeps => b.move (fun name request _ => client name request) outside keeps) keeps ms

theorem Play.keeps_new {settings : BrokerSettings} {endpoints : List (EngineName × Endpoint)}
    {main : EngineName} {host : Host} (books : J [] (.new settings endpoints main host) 0) :
    (Play.new settings endpoints main host).Keeps C J :=
  ⟨⟨List.nodup_nil, by simp [Play.new, still]⟩, 0, trivial, books⟩

end SessionBroker
