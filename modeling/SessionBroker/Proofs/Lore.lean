import SessionBroker.Proofs.Dealings

/-!
# What flows remember

A contract is about tokens, and nobody asks who has them. A lore is about what a single flow has seen:
each flow has a memory of its own, which its actions change and which no other flow touches. A lore says
what one has to remember to perform an action or to call a procedure, and what one remembers once the
procedure has returned. If the body of every procedure minds the lore, every flow does at any time.
-/

namespace SessionBroker

variable {I : Interface} {σ M : Type}

/-- What flows remember, and what they have to remember. -/
structure Lore (I : Interface) (σ M : Type) where
  /-- The memory of a flow that begins. -/
  blank : M
  /-- What is remembered of an action, its reply and the state in which it was performed. -/
  note : (action : I.Action) → I.Reply action → σ → M → M
  acts : I.Action → M → Prop
  calls : I.Proc → M → Prop
  /-- Who may start a procedure as a flow of its own. -/
  starts : I.Proc → M → Prop
  /-- What a result says about the memory before the call and the memory now. -/
  back : (proc : I.Proc) → M → I.Result proc → M → Prop

namespace Program

variable {α β : Type} {L : Lore I σ M} {m : Machine I σ} {post : α → M → Prop} {p : Program I α} {k : M}

/-- A program that begins with some memory minds the lore and ends as `post` says. -/
def Minds (L : Lore I σ M) (m : Machine I σ) (post : α → M → Prop) : Program I α → M → Prop
  | .done a, k => post a k
  | .act action next, k => L.acts action k ∧ ∀ flow pick s r t,
      m.perform flow pick action s = some (r, t) → (next r).Minds L m post (L.note action r s k)
  | .call proc next, k => L.calls proc k ∧ ∀ r k', L.back proc k r k' → (next r).Minds L m post k'
  | .fork proc next, k => L.starts proc k ∧ next.Minds L m post k

theorem Minds.imp {post' : α → M → Prop} (h : p.Minds L m post k)
    (weaker : ∀ a k, post a k → post' a k) : p.Minds L m post' k := by
  induction p generalizing k with
  | done a => exact weaker a k h
  | act action next ih =>
    exact ⟨h.1, fun flow pick s r t hp => ih r (h.2 flow pick s r t hp)⟩
  | call proc next ih => exact ⟨h.1, fun r k' back => ih r (h.2 r k' back)⟩
  | fork proc next ih => exact ⟨h.1, ih h.2⟩

theorem Minds.bind {mid : β → M → Prop} {q : Program I β} {f : β → Program I α}
    (h : q.Minds L m mid k) (hf : ∀ b k, mid b k → (f b).Minds L m post k) :
    (q >>= f).Minds L m post k := by
  induction q generalizing k with
  | done b => exact hf b k h
  | act action next ih =>
    exact ⟨h.1, fun flow pick s r t hp => ih r (h.2 flow pick s r t hp)⟩
  | call proc next ih => exact ⟨h.1, fun r k' back => ih r (h.2 r k' back)⟩
  | fork proc next ih => exact ⟨h.1, ih h.2⟩

/-- What all actions and procedures of a scope keep in memory, the programs within it keep. -/
theorem Within.minds {S : Scope I} {K : M → Prop}
    (acts : ∀ action k, S.acts action → K k → L.acts action k ∧ ∀ r s, K (L.note action r s k))
    (calls : ∀ proc k, S.calls proc → K k → L.calls proc k ∧ ∀ r k', L.back proc k r k' → K k')
    (starts : ∀ proc k, S.starts proc → K k → L.starts proc k) (h : p.Within S) (hk : K k) :
    p.Minds L m (fun _ => K) k := by
  induction p generalizing k with
  | done a => exact hk
  | act action next ih =>
    obtain ⟨may, keeps⟩ := acts action k h.1 hk
    exact ⟨may, fun flow pick s r t _ => ih r (h.2 r) (keeps r s)⟩
  | call proc next ih =>
    obtain ⟨may, keeps⟩ := calls proc k h.1 hk
    exact ⟨may, fun r k' back => ih r (h.2 r) (keeps r k' back)⟩
  | fork proc next ih => exact ⟨starts proc k h.1 hk, ih h.2 hk⟩

end Program

/-- The callers that wait mind the lore whatever the procedure above them returns; that one was called
with a memory. -/
def Waiting.Minds (L : Lore I σ M) (m : Machine I σ) : {proc : I.Proc} → Waiting I proc → M → Prop
  | _, .root _, _ => True
  | _, @Waiting.caller _ callee proc next below, called => ∃ before,
      (∀ r k, L.back callee called r k → (next r).Minds L m (L.back proc before) k) ∧
        below.Minds L m before

/-- A flow with some memory minds the lore. -/
def Flow.Minds (L : Lore I σ M) (m : Machine I σ) (f : Flow I) (k : M) : Prop :=
  ∃ called, f.code.Minds L m (L.back f.proc called) k ∧ f.waiting.Minds L m called

namespace Lore

variable (L : Lore I σ M) (m : Machine I σ)

/-- The bodies of all procedures mind the lore, and those that are started may be called without
memories. -/
structure Bodies : Prop where
  minds : ∀ proc k, L.calls proc k → (m.body proc).Minds L m (L.back proc k) k
  fresh : ∀ proc k, L.starts proc k → L.calls proc L.blank

/-- All flows mind the lore. -/
def Kept (c : Config I σ) (memory : Nat → M) : Prop := ∀ p ∈ c.flows, p.2.Minds L m (memory p.1)

/-- What everybody remembers after a step. -/
def learn (c : Config I σ) (id : Nat) (pick : Bool) (memory : Nat → M) : Nat → M :=
  match c.find? id with
  | some ⟨_, .act action _, _⟩ =>
    match m.perform id pick action c.shared with
    | some (r, _) => Function.update memory id (L.note action r c.shared (memory id))
    | none => memory
  | some ⟨_, .fork .., _⟩ => Function.update memory c.next L.blank
  | _ => memory

variable {L m} {c d : Config I σ} {memory : Nat → M} {id : Nat} {pick : Bool}

/-- One flow changes, and nobody else's memory. -/
theorem Kept.update {g : Flow I} {s : σ} {k : M} (kept : L.Kept m c memory) (minds : g.Minds L m k) :
    L.Kept m (Config.update { c with shared := s } id g) (Function.update memory id k) := by
  intro q hq
  obtain ⟨old, hold, rfl⟩ := List.mem_map.mp hq
  split
  · simpa using minds
  · next other => simpa [Function.update_of_ne other] using kept old hold

/-- A flow begins. -/
theorem Kept.spawn (bodies : L.Bodies m) (numbered : c.Numbered) (kept : L.Kept m c memory)
    {proc : I.Proc} (may : L.calls proc L.blank) :
    L.Kept m (c.spawn m proc) (Function.update memory c.next L.blank) := by
  intro q hq
  rcases List.mem_append.mp hq with old | new
  · rw [Function.update_of_ne (numbered.below q old).ne]
    exact kept q old
  · rw [List.mem_singleton.mp new]
    exact ⟨L.blank, by simpa using bodies.minds proc L.blank may, trivial⟩

/-- Whatever step is made, the flows mind the lore. -/
theorem Kept.step (bodies : L.Bodies m) (numbered : c.Numbered) (kept : L.Kept m c memory)
    (hs : m.step? c id pick = some d) : L.Kept m d (L.learn m c id pick memory) := by
  obtain ⟨f, hf, hs⟩ := Option.bind_eq_some_iff.mp hs
  have mine : f.Minds L m (memory id) := by
    obtain ⟨p, hp, rfl⟩ := Option.map_eq_some_iff.mp hf
    have here : p.1 = id := by simpa using List.find?_some hp
    exact here ▸ kept p (List.mem_of_find?_eq_some hp)
  have same : ∀ g : Flow I, g.Minds L m (memory id) → L.Kept m (c.update id g) memory := by
    intro g minds
    have updated : L.Kept m (c.update id g) (Function.update memory id (memory id)) :=
      kept.update (s := c.shared) minds
    rwa [Function.update_eq_self] at updated
  obtain ⟨proc, code, wait⟩ := f
  obtain ⟨called, minds, waiting⟩ := mine
  unfold learn
  rw [hf]
  cases code with
  | done a =>
    cases wait with
    | root =>
      cases hs
      exact fun q hq => kept q (List.mem_filter.mp hq).1
    | caller next below =>
      cases hs
      obtain ⟨before, goesOn, lower⟩ := waiting
      exact same _ ⟨before, goesOn a _ minds, lower⟩
  | act action next =>
    simp only [Machine.stepFlow] at hs
    rcases hp : m.perform id pick action c.shared with _ | ⟨r, s⟩
    · simp only [hp] at hs
      cases hs
    · simp only [hp] at hs ⊢
      cases hs
      exact kept.update ⟨called, minds.2 id pick _ r s hp, waiting⟩
  | call callee next =>
    cases hs
    exact same _ ⟨memory id, bodies.minds callee _ minds.1, called, minds.2, waiting⟩
  | fork other next =>
    cases hs
    exact Kept.spawn bodies (numbered.update id _)
      (same ⟨proc, next, wait⟩ ⟨called, minds.2, waiting⟩) (bodies.fresh other _ minds.1)

end Lore

/-! ## Plays -/

/-- A play, and what the flows remember of it. -/
structure Tale (M : Type) where
  play : Play
  memory : Nat → M

namespace Tale

variable {L : Lore brokerInterface World M} {t : Tale M}

/-- A broker to which nothing has happened. -/
def new (L : Lore brokerInterface World M) (settings : BrokerSettings)
    (endpoints : List (EngineName × Endpoint)) (main : EngineName) (host : Host) : Tale M :=
  ⟨.new settings endpoints main host, fun _ => L.blank⟩

/-- Something happens. -/
def move (L : Lore brokerInterface World M) (t : Tale M) (m : Move) : Tale M where
  play := t.play.move m
  memory := match m with
    | .arrive .. => Function.update t.memory t.play.config.next L.blank
    | .step flow pick => L.learn brokerMachine t.play.config flow pick t.memory
    | .outside _ => t.memory

/-- One thing after the other happens. -/
def moves (L : Lore brokerInterface World M) (t : Tale M) (ms : List Move) : Tale M :=
  ms.foldl (move L) t

theorem play_moves (ms : List Move) : (t.moves L ms).play = t.play.moves ms := by
  induction ms generalizing t with
  | nil => rfl
  | cons m ms ih => exact ih

/-- What a flow remembers stays while others move. -/
theorem memory_move {m : Move} {flow : Nat} {f : Flow brokerInterface}
    (numbered : t.play.config.Numbered) (other : ∀ pick, m ≠ .step flow pick)
    (hf : t.play.config.find? flow = some f) : (t.move L m).memory flow = t.memory flow := by
  have old : flow ≠ t.play.config.next := by
    obtain ⟨p, hp, -⟩ := Option.map_eq_some_iff.mp hf
    have found : p.1 = flow := by simpa using List.find?_some hp
    exact found ▸ (numbered.below p (List.mem_of_find?_eq_some hp)).ne
  cases m with
  | arrive name request => exact Function.update_of_ne old _ _
  | outside change => rfl
  | step id pick =>
    have ne : flow ≠ id := fun same => other pick (by rw [same])
    simp only [move, Lore.learn]
    rcases t.play.config.find? id with _ | ⟨proc, code, wait⟩
    · rfl
    · cases code with
      | act action next =>
        rcases hp : brokerMachine.perform id pick action t.play.config.shared with _ | ⟨r, w⟩
        · simp only [hp]
        · simp only [hp]
          exact Function.update_of_ne ne _ _
      | fork => exact Function.update_of_ne old _ _
      | done | call => rfl

/-- A flow remembers what it has just done. -/
theorem memory_step {flow : Nat} {pick : Bool} {proc : Proc} {action : Action}
    {next : action.Reply → Code proc.Result} {wait : Waiting brokerInterface proc} {r : action.Reply}
    {w : World} (hf : t.play.config.find? flow = some ⟨proc, .act action next, wait⟩)
    (hp : World.perform flow pick action t.play.config.shared = some (r, w)) :
    (t.move L (.step flow pick)).memory flow = L.note action r t.play.config.shared (t.memory flow) := by
  have hp' : brokerMachine.perform flow pick action t.play.config.shared = some (r, w) := hp
  simp only [move, Lore.learn, hf, hp', Function.update_self]

/-- What a move comes to. -/
inductive Moved (L : Lore brokerInterface World M) (t : Tale M) (m : Move) : Prop where
  /-- A flow acts and remembers it. -/
  | act {flow : Nat} {pick : Bool} {proc : Proc} {action : Action}
      {next : action.Reply → Code proc.Result} {wait : Waiting brokerInterface proc} {r : action.Reply}
      {w : World} (step : m = .step flow pick)
      (here : t.play.config.find? flow = some ⟨proc, .act action next, wait⟩)
      (performed : World.perform flow pick action t.play.config.shared = some (r, w))
      (shared : (t.move L m).play.config.shared = w)
      (memory : (t.move L m).memory =
        Function.update t.memory flow (L.note action r t.play.config.shared (t.memory flow)))
  /-- Nobody acts, and nobody remembers more than before. -/
  | rest
      (shared : (t.move L m).play.config.shared = t.play.config.shared ∨
        ∃ change : Outside, (t.move L m).play.config.shared = change.apply t.play.config.shared)
      (memory : (t.move L m).memory = t.memory ∨
        (t.move L m).memory = Function.update t.memory t.play.config.next L.blank)

theorem moved (t : Tale M) (m : Move) : Moved L t m := by
  cases m with
  | arrive name request => exact .rest (.inl rfl) (.inr rfl)
  | outside change => exact .rest (.inr ⟨change, rfl⟩) (.inl rfl)
  | step flow pick =>
    rcases hf : t.play.config.find? flow with _ | ⟨proc, code, wait⟩
    · exact .rest (.inl (by simp only [move, Play.move, Machine.step?, hf, Option.bind_none]))
        (.inl (by simp only [move, Lore.learn, hf]))
    · have stepped : brokerMachine.step? t.play.config flow pick =
          brokerMachine.stepFlow t.play.config flow pick ⟨proc, code, wait⟩ := by
        simp only [Machine.step?, hf, Option.bind_some]
      cases code with
      | act action next =>
        rcases hp : World.perform flow pick action t.play.config.shared with _ | ⟨r, w⟩
        · have hp' : brokerMachine.perform flow pick action t.play.config.shared = none := hp
          exact .rest (.inl (by simp only [move, Play.move, stepped, Machine.stepFlow, hp']))
            (.inl (by simp only [move, Lore.learn, hf, hp']))
        · have hp' : brokerMachine.perform flow pick action t.play.config.shared = some (r, w) := hp
          refine .act rfl hf hp ?_ (by simp only [move, Lore.learn, hf, hp'])
          exact congrArg Config.shared (Play.move_act hf hp)
      | done a =>
        refine .rest (.inl ?_) (.inl (by simp only [move, Lore.learn, hf]))
        cases wait <;> simp only [move, Play.move, stepped] <;> rfl
      | call callee next =>
        refine .rest (.inl ?_) (.inl (by simp only [move, Lore.learn, hf]))
        simp only [move, Play.move, stepped]
        rfl
      | fork callee next =>
        refine .rest (.inl ?_) (.inr (by simp only [move, Lore.learn, hf]))
        simp only [move, Play.move, stepped]
        rfl

/-- The flows of a tale mind the lore. -/
def Keeps (t : Tale M) (L : Lore brokerInterface World M) : Prop :=
  t.play.config.Numbered ∧ L.Kept brokerMachine t.play.config t.memory

theorem Keeps.move (bodies : L.Bodies brokerMachine)
    (client : ∀ name request, L.calls (.serveClient name request) L.blank) (keeps : t.Keeps L)
    (m : Move) : (t.move L m).Keeps L := by
  obtain ⟨numbered, kept⟩ := keeps
  cases m with
  | arrive name request => exact ⟨numbered.spawn _ _, kept.spawn bodies numbered (client name request)⟩
  | outside change => exact ⟨⟨numbered.unique, numbered.below⟩, kept⟩
  | step flow pick =>
    rcases hs : brokerMachine.step? t.play.config flow pick with _ | d
    · have stays : (t.move L (.step flow pick)).play = t.play := by simp only [Tale.move, Play.move, hs]
      refine ⟨stays ▸ numbered, ?_⟩
      rw [stays]
      have nothing : L.learn brokerMachine t.play.config flow pick t.memory = t.memory := by
        unfold Lore.learn
        simp only [Machine.step?] at hs
        split
        · next here =>
          rw [here, Option.bind_some] at hs
          simp only [Machine.stepFlow] at hs
          split
          · next acted =>
            rw [acted] at hs
            cases hs
          · rfl
        · next here =>
          rw [here, Option.bind_some] at hs
          cases hs
        · rfl
      show L.Kept brokerMachine t.play.config (L.learn _ _ _ _ _)
      rw [nothing]
      exact kept
    · have moved : (t.move L (.step flow pick)).play.config = d := by
        simp only [Tale.move, Play.move, hs]
      obtain ⟨f, -, hs'⟩ := Option.bind_eq_some_iff.mp hs
      exact ⟨moved ▸ numbered.step hs', moved ▸ kept.step bodies numbered hs⟩

/-- Whatever happens to a broker, its flows mind the lore. -/
theorem keeps_moves (bodies : L.Bodies brokerMachine)
    (client : ∀ name request, L.calls (.serveClient name request) L.blank) (settings : BrokerSettings)
    (endpoints : List (EngineName × Endpoint)) (main : EngineName) (host : Host) (ms : List Move) :
    ((new L settings endpoints main host).moves L ms).Keeps L := by
  suffices ∀ t : Tale M, t.Keeps L → (t.moves L ms).Keeps L from
    this _ ⟨⟨List.nodup_nil, by simp [new, Play.new, Scenario.still]⟩, by rintro q ⟨⟩⟩
  induction ms with
  | nil => exact fun t keeps => keeps
  | cons m ms ih => exact fun t keeps => ih _ (keeps.move bodies client m)

end Tale

end SessionBroker
