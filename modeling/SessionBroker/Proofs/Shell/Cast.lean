import SessionBroker.Proofs.Shell.Commands

/-!
# Who is at work

The flows of the shell take turns. The reader is alone while it waits for a line. Once it has handed a line
over, the runner is at work and the reader listens; while the debugger is stopped the reader is at work and
the runner attends to the stop; and when the reader has resumed the debugger, it comes back to listening
while the runner goes on. Flows that were runners before have nothing left to do but to end. Each of these is
a situation: what the other flows do in it does not disturb the one at work, and they soon have to wait.
-/

namespace SessionBroker

/-- A flow that has nothing left to do but to end. -/
def Flow.Spent {I : Interface} (f : Flow I) : Prop := ∃ proc a, f = ⟨proc, .done a, .root proc⟩

namespace Shell

variable {reader runner i j id : Nat} {x y : Scene} {d : Desk} {c c' : BrokerConfig} {pick : Bool}

/-- What the shared state is like in a scene. -/
abbrev Scene.seen (x : Scene) (reader : Nat) (d : Desk) (w : World) : Prop :=
  ∃ b k, x.Fits b ∧ b.server ≠ some reader ∧ w = x.world d b k

/-- Something holds of the shared state, and all flows but two are spent. -/
structure Stage (W : World → Prop) (i j : Nat) (c : BrokerConfig) : Prop where
  numbered : c.Numbered
  stands : W c.shared
  spent : ∀ id f, id ≠ i → id ≠ j → c.find? id = some f → f.Spent

namespace Stage

variable {W W' : World → Prop}

/-- One of the two may change what it still has to do. -/
theorem update (h : Stage W i j c) (mine : id = i ∨ id = j) (f : Flow brokerInterface) :
    Stage W i j (c.update id f) where
  numbered := h.numbered.update id f
  stands := h.stands
  spent := by
    intro other g ni nj hg
    have ne : other ≠ id := by rcases mine with rfl | rfl <;> assumption
    exact h.spent other g ni nj (by rwa [Config.find?_update_of_ne ne] at hg)

theorem swap (h : Stage W i j c) : Stage W j i c :=
  ⟨h.numbered, h.stands, fun id f nj ni hf => h.spent id f ni nj hf⟩

/-- The shared state may change. -/
theorem share (h : Stage W i j c) {w : World} (stands : W' w) : Stage W' i j { c with shared := w } :=
  ⟨⟨h.numbered.unique, h.numbered.below⟩, stands, h.spent⟩

/-- One of the two may have nothing left to do. -/
theorem retire (h : Stage W i j c) {f : Flow brokerInterface} (spent : f.Spent) : Stage W j j (c.update i f) where
  numbered := h.numbered.update i f
  stands := h.stands
  spent := by
    intro other g nj _ hg
    by_cases same : other = i
    · subst same
      rw [Config.find?_update] at hg
      obtain ⟨_, -, rfl⟩ := Option.map_eq_some_iff.mp hg
      rwa [if_pos rfl]
    · rw [Config.find?_update_of_ne same] at hg
      exact h.spent other g same nj hg

/-- Any other flow can only end. -/
theorem other (h : Stage W i j c) (ni : id ≠ i) (nj : id ≠ j)
    (hs : brokerMachine.step? c id pick = some c') :
    Stage W i j c' ∧ c'.flows.length < c.flows.length ∧
      ∀ k, k ≠ id → c'.find? k = c.find? k := by
  obtain ⟨f, hf, hs⟩ := Option.bind_eq_some_iff.mp hs
  obtain ⟨proc, a, rfl⟩ := h.spent id f ni nj hf
  cases hs
  have kept : ∀ k, k ≠ id → (c.remove id).find? k = c.find? k := fun k ne => by
    rw [Config.find?_remove, if_neg ne]
  refine ⟨⟨h.numbered.remove id, h.stands, fun k g ki kj hg => ?_⟩, ?_, kept⟩
  · by_cases same : k = id
    · rw [same, Config.find?_remove, if_pos rfl] at hg
      cases hg
    · exact h.spent k g ki kj (by rwa [kept k same] at hg)
  · obtain ⟨before, after, flows, -, removed⟩ := h.numbered.split hf
    rw [removed, flows]
    simp

end Stage

theorem length_update (id : Nat) (f : Flow brokerInterface) : (c.update id f).flows.length = c.flows.length := by
  simp [Config.update]

/-! ## The reader alone -/

/-- The reader is at work, the others are spent, and something holds of the shared state. -/
def lone (reader : Nat) (W : World → Prop) : Situation brokerMachine reader where
  Holds n c := Stage W reader reader c ∧ c.flows.length ≤ n
  update f h := ⟨h.1.update (.inl rfl) f, by rw [length_update]; exact h.2⟩
  others := by
    intro n id c d pick h ne hs
    obtain ⟨stage, less, -⟩ := h.1.other ne ne hs
    exact ⟨d.flows.length, less.trans_le h.2, stage, le_rfl⟩

theorem lone_acts {W W' : World → Prop} {action : Action} {r : action.Reply}
    (h : ∀ w, W w → ∃ w', (∀ pick, World.perform reader pick action w = some (r, w')) ∧ W' w') :
    (lone reader W).Acts action r (lone reader W') := by
  intro n c holds
  obtain ⟨w', performs, stands⟩ := h c.shared holds.1.stands
  exact ⟨w', n, performs, holds.1.share stands, holds.2⟩

/-- The reader is at work in a scene, and the others are spent. -/
def alone (reader : Nat) (v : Scene × Desk) : Situation brokerMachine reader :=
  lone reader (v.1.seen reader v.2)

theorem alone_acts {action : Action} {v w : Scene × Desk} {r : action.Reply}
    (h : Desk.Acts reader action v r w) : (alone reader v).Acts action r (alone reader w) := by
  refine lone_acts ?_
  rintro _ ⟨b, k, fits, other, rfl⟩
  obtain ⟨l, hl⟩ := h.performs b k fits other
  exact ⟨_, hl, b, l, ⟨by rw [fits.count, h.past], fits.torn⟩, other, rfl⟩

/-- What the reader may do leads it on. -/
theorem alone_leads {v w : Scene × Desk} {α : Type} {p : Code α} {a : α} (h : Desk.Does reader p v a w) :
    (alone reader v).Leads p a (alone reader w) :=
  h.leads (alone reader) alone_acts

/-! ## The reader attended -/

/-- The runner serves a stop of the debugger, or is about to; when the stop is over it goes on. It may make
some steps before it waits. -/
inductive Attends (past : Nat) {proc : Proc} (next : ResumeAction → Code proc.Result)
    (wait : Waiting brokerInterface proc) : Flow brokerInterface → Nat → Prop where
  | calls : Attends past next wait ⟨proc, .call (.messageLoop (stopRef past)) next, wait⟩ 3
  | comes : Attends past next wait
      ⟨.messageLoop (stopRef past), brokerMachine.body (.messageLoop (stopRef past)), .caller next wait⟩ 2
  | attached : Attends past next wait
      ⟨.messageLoop (stopRef past), .call (.serveNext (stopRef past)) .done, .caller next wait⟩ 1
  | serves : Attends past next wait
      ⟨.serveNext (stopRef past), brokerMachine.body (.serveNext (stopRef past)),
        @Waiting.caller brokerInterface _ (.messageLoop (stopRef past)) .done (.caller next wait)⟩ 0

theorem exists_stop_of_isOpen (h : x.isOpen = true) :
    ∃ s, x.stop = some s ∧ s.exit = none ∧ s.torn = false := by
  unfold Scene.isOpen at h
  cases hs : x.stop with
  | none => simp [hs] at h
  | some s =>
    rw [hs, Option.any_some, Bool.and_eq_true, Option.isNone_iff_eq_none, Bool.not_eq_true'] at h
    exact ⟨s, rfl, h⟩

/-- While nobody has resumed the debugger the runner waits. -/
theorem perform_take {b : Backstage} {k : Counts} {flow : Nat} (h : x.isOpen = true) (fits : x.Fits b) :
    World.perform flow pick (.frames (.take (x.past + 1))) (x.world d b k) = none := by
  obtain ⟨s, hs, stays, whole⟩ := exists_stop_of_isOpen h
  have waits : (s.mailbox b.server).take? = none := by
    rw [Stop.mailbox, stays, whole]
    rfl
  change ((x.frames b).perform flow _ pick (.take (x.past + 1))).map _ = none
  rw [FrameStack.perform, Scene.mailbox?_stop hs fits]
  simp only [waits]
  rfl

/-- A step of the runner while it attends to a stop changes nothing that the reader sees. -/
theorem Attends.step {proc : Proc} {next : ResumeAction → Code proc.Result}
    {wait : Waiting brokerInterface proc} {f : Flow brokerInterface} {k : Nat} (ne : runner ≠ reader)
    (stage : Stage (x.seen reader d) reader runner c) (open_ : x.isOpen = true) (hf : c.find? runner = some f)
    (attends : Attends x.past next wait f k) (hs : brokerMachine.step? c runner pick = some c') :
    Stage (x.seen reader d) reader runner c' ∧ c'.flows.length = c.flows.length ∧
      ∃ g l, c'.find? runner = some g ∧ Attends x.past next wait g l ∧ l < k := by
  have updated : ∀ {g l}, Attends x.past next wait g l → l < k → c' = c.update runner g →
      Stage (x.seen reader d) reader runner c' ∧ c'.flows.length = c.flows.length ∧
        ∃ g l, c'.find? runner = some g ∧ Attends x.past next wait g l ∧ l < k := by
    rintro g l goes less rfl
    exact ⟨stage.update (.inr rfl) g, length_update runner g, g, l, Config.find?_update_self hf, goes, less⟩
  rw [Machine.step?, hf, Option.bind_some] at hs
  obtain ⟨b, j, fits, other, shared⟩ := stage.stands
  cases attends with
  | calls => cases hs; exact updated .comes (by decide) rfl
  | attached => cases hs; exact updated .serves (by decide) rfl
  | comes =>
    obtain ⟨s, stop, -, -⟩ := exists_stop_of_isOpen open_
    obtain ⟨b', j', fits', other', performs⟩ :=
      (Backstage.acts_attach stop rfl ne).performs d b j fits other
    have moves : c' = ({ c with shared := x.world d b' j' } : BrokerConfig).update runner
        ⟨.messageLoop (stopRef x.past), .call (.serveNext (stopRef x.past)) .done, .caller next wait⟩ := by
      change brokerMachine.stepFlow c runner pick ⟨_, .act (.frames (.attach (x.past + 1))) _, _⟩ = some c' at hs
      rw [Machine.stepFlow_act, shared] at hs
      simp only [brokerMachine, performs, Option.map_some] at hs
      exact (Option.some.inj hs).symm
    subst moves
    have stage' : Stage (x.seen reader d) reader runner { c with shared := x.world d b' j' } :=
      stage.share ⟨b', j', fits', other', rfl⟩
    exact ⟨stage'.update (.inr rfl) _, length_update _ _, _, _, Config.find?_update_self hf, .attached, by decide⟩
  | serves =>
    change brokerMachine.stepFlow c runner pick ⟨_, .act (.frames (.take (x.past + 1))) _, _⟩ = some c' at hs
    rw [Machine.stepFlow_act, shared] at hs
    simp only [brokerMachine, perform_take open_ fits, Option.map_none] at hs
    cases hs

section Attended

variable {proc : Proc} {next : ResumeAction → Code proc.Result} {wait : Waiting brokerInterface proc}

/-- The reader is at work while the debugger is stopped, and the runner attends to the stop. -/
def attended (ne : runner ≠ reader) (next : ResumeAction → Code proc.Result)
    (wait : Waiting brokerInterface proc) (v : Scene × Desk) : Situation brokerMachine reader where
  Holds n c := Stage (v.1.seen reader v.2) reader runner c ∧ v.1.isOpen = true ∧
    ∃ f k, c.find? runner = some f ∧ Attends v.1.past next wait f k ∧ k + c.flows.length ≤ n
  update := by
    rintro n c f ⟨stage, open_, g, k, hg, attends, le⟩
    refine ⟨stage.update (.inl rfl) f, open_, g, k, ?_, attends, by rwa [length_update]⟩
    rwa [Config.find?_update_of_ne ne]
  others := by
    rintro n id c d pick ⟨stage, open_, g, k, hg, attends, le⟩ other hs
    by_cases same : id = runner
    · subst same
      obtain ⟨stage', length, g', l, hg', attends', less⟩ := attends.step ne stage open_ hg hs
      exact ⟨l + d.flows.length, by omega, stage', open_, g', l, hg', attends', le_rfl⟩
    · obtain ⟨stage', less, kept⟩ := stage.other other same hs
      exact ⟨k + d.flows.length, by omega, stage', open_, g, k, by rw [kept runner (Ne.symm same), hg], attends, le_rfl⟩

theorem attended_acts (ne : runner ≠ reader) {action : Action} {v w : Scene × Desk} {r : action.Reply}
    (h : Desk.Acts reader action v r w) :
    (attended ne next wait v).Acts action r (attended ne next wait w) := by
  rintro n c ⟨stage, open_, g, k, hg, attends, le⟩
  obtain ⟨b, j, fits, other, shared⟩ := stage.stands
  obtain ⟨l, hl⟩ := h.performs b j fits other
  refine ⟨_, n, fun pick => by rw [shared]; exact hl pick, stage.share ⟨b, l, ?_, other, rfl⟩,
    h.isOpen.trans open_, g, k, hg, ?_, le⟩
  · exact ⟨by rw [fits.count, h.past], fits.torn⟩
  · rw [h.past]
    exact attends

/-- What the reader may do leads it on. -/
theorem attended_leads (ne : runner ≠ reader) {v w : Scene × Desk} {α : Type} {p : Code α} {a : α}
    (h : Desk.Does reader p v a w) : (attended ne next wait v).Leads p a (attended ne next wait w) :=
  h.leads (attended ne next wait) (attended_acts ne)

end Attended

/-! ## The reader listening -/

/-- What stands on the desk when the shell shows its own prompt. -/
def home : Desk := ⟨prompt, []⟩

/-- The reader waits for the end of a request, and goes on with its loop then. -/
inductive Hears (request : String) {q : Nat} (loop : Waiting brokerInterface (.shellLoop q)) :
    {p : Nat} → Waiting brokerInterface (.shellWait request p) → Prop where
  | first {p : Nat} : Hears request loop (p := p)
      (@Waiting.caller brokerInterface _ (.shellLoop q) (fun position => .call (.shellLoop position) .done) loop)
  | again {p p' : Nat} {wait : Waiting brokerInterface (.shellWait request p)} : Hears request loop wait →
      Hears request loop (p := p') (@Waiting.caller brokerInterface _ (.shellWait request p) .done wait)

/-- What the reader does with the news that it gets while it waits for the end of a request. -/
def heard (request : String) (position : Nat) (news : News) : Code Nat :=
  match firstStop? news.notices with
  | some (before, event) => do
    Running.write .normal (stopText event)
    Code.host (.setPrompt debuggerPrompt)
    Code.invoke .shellDebugger
    Code.host (.setPrompt prompt)
    Code.invoke (.shellWait request (position + news.lost + before + 1))
  | none =>
    let position := position + news.lost + news.notices.length
    match news.report with
    | none => Code.invoke (.shellWait request position)
    | some (.response (.error f)) => do
      complain f
      return position
    | some _ => return position

theorem body_shellWait (request : String) (position : Nat) :
    brokerMachine.body (.shellWait request position) =
      .act (.broker (.awaitNews position request)) (heard request position) := rfl

section Listening

variable {request : String} {q : Nat} {loop : Waiting brokerInterface (.shellLoop q)} {awaited : Option Nat}

/-- The reader comes back to listening, and then its own prompt is on its desk. It makes some steps on the
way, and may wait for one frame to be torn down. -/
inductive Coming (request : String) (loop : Waiting brokerInterface (.shellLoop q)) (awaited : Option Nat)
    (p : Nat) : Desk → Flow brokerInterface → Nat → Prop where
  | listens {wait : Waiting brokerInterface (.shellWait request p)} : Hears request loop wait →
      Coming request loop awaited p home ⟨.shellWait request p, brokerMachine.body (.shellWait request p), wait⟩ 0
  | calls {d : Desk} {callee proc : Proc} {next : callee.Result → Code proc.Result}
      {wait : Waiting brokerInterface proc} {k : Nat} :
      Coming request loop awaited p d ⟨callee, brokerMachine.body callee, .caller next wait⟩ k →
      Coming request loop awaited p d ⟨proc, .call callee next, wait⟩ (k + 1)
  | returns {d : Desk} {callee proc : Proc} {a : callee.Result} {next : callee.Result → Code proc.Result}
      {below : Waiting brokerInterface proc} {k : Nat} :
      Coming request loop awaited p d ⟨proc, next a, below⟩ k →
      Coming request loop awaited p d ⟨callee, .done a, .caller next below⟩ (k + 1)
  | awaitFinish {d : Desk} {proc : Proc} {next : Unit → Code proc.Result}
      {wait : Waiting brokerInterface proc} {id k : Nat} : awaited = some id →
      Coming request loop awaited p d ⟨proc, next (), wait⟩ k →
      Coming request loop awaited p d ⟨proc, .act (.frames (.awaitFinish id)) next, wait⟩ (k + 1)
  | leaveResume {d : Desk} {proc : Proc} {next : Unit → Code proc.Result}
      {wait : Waiting brokerInterface proc} {ticket k : Nat} :
      Coming request loop awaited p { d with resumers := d.resumers.filter (· ≠ ticket) }
        ⟨proc, next (), wait⟩ k →
      Coming request loop awaited p d ⟨proc, .act (.broker (.leaveResume ticket)) next, wait⟩ (k + 1)
  | setPrompt {d : Desk} {proc : Proc} {next : Unit → Code proc.Result}
      {wait : Waiting brokerInterface proc} {text : String} {k : Nat} :
      Coming request loop awaited p { d with prompt := text } ⟨proc, next (), wait⟩ k →
      Coming request loop awaited p d ⟨proc, .act (.host (.setPrompt text)) next, wait⟩ (k + 1)

/-- One who has read notices up to a position, from some start on, has nothing to do about what is left:
no stop is announced there and the request has not ended. -/
structure Listens (request : String) (x : Scene) (start p : Nat) : Prop where
  start_le : start ≤ p
  le : p ≤ x.sent.length
  unannounced : firstStop? (x.sent.drop p) = none
  unreported : (x.reports.find? (·.1 = request)).map (·.2) = none

theorem firstStop?_append {ns ms : List Notice} :
    firstStop? (ns ++ ms) = (firstStop? ns).or ((firstStop? ms).map fun (n, e) => (ns.length + n, e)) := by
  induction ns with
  | nil => simp [firstStop?]
  | cons n ns ih =>
    have shift : ∀ k, ns.length + k + 1 = (n :: ns).length + k := fun k => by simp; omega
    cases n with
    | debuggerStop event => simp [firstStop?]
    | _ =>
      simp only [List.cons_append, firstStop?, ih, Option.map_or, Option.map_map]
      congr 2
      funext ⟨k, e⟩
      simp only [Function.comp, shift]

theorem firstStop?_drop {ns : List Notice} (h : firstStop? ns = none) (k : Nat) :
    firstStop? (ns.drop k) = none := by
  have whole := h
  rw [← List.take_append_drop k ns, firstStop?_append, Option.or_eq_none_iff, Option.map_eq_none_iff] at whole
  exact whole.2

/-- How many steps the news that is left takes. -/
def left (x : Scene) (p : Nat) : Nat := if p < x.sent.length then 2 else 0

/-- Who has waited for a frame to be torn down has changed nothing. -/
theorem eq_of_awaitFinish {flow : Nat} {w w' : World} {r : Unit}
    (h : World.perform flow pick (.frames (.awaitFinish id)) w = some (r, w')) : w' = w := by
  obtain ⟨⟨_, s⟩, hp, e⟩ := Option.map_eq_some_iff.mp h
  cases e
  simp only [FrameStack.perform] at hp
  split at hp
  · cases hp; rfl
  · split at hp
    · cases hp; rfl
    · cases hp

/-- The news at a position. -/
def newsAt (x : Scene) (p : Nat) (report : Option Report) : News :=
  ⟨max p (x.sent.length - 256) - p, x.sent.drop (max p (x.sent.length - 256)), report⟩

/-- There is news only if something has been sent since, as long as the request has not ended. -/
theorem news_of_unreported {p start flow : Nat} {b : Backstage} {j : Counts} {news : News} {w : World}
    (listens : Listens request x start p)
    (h : World.perform flow pick (.broker (.awaitNews p request)) (x.world d b j) = some (news, w)) :
    p < x.sent.length ∧ news = newsAt x p none ∧ w = x.world d b j := by
  change (if p < x.sent.length || ((x.reports.find? (·.1 = request)).map (·.2)).isSome then
    some (newsAt x p ((x.reports.find? (·.1 = request)).map (·.2)), x.world d b j) else none) = some (news, w) at h
  rw [listens.unreported] at h
  split at h
  · next more =>
    cases h
    exact ⟨by simpa using more, rfl, rfl⟩
  · cases h

/-- No stop is among the news, and all of it is what was sent since. -/
theorem newsAt_of_unannounced {p : Nat} {r : Option Report} (le : p ≤ x.sent.length)
    (h : firstStop? (x.sent.drop p) = none) :
    firstStop? (newsAt x p r).notices = none ∧
      p + (newsAt x p r).lost + (newsAt x p r).notices.length = x.sent.length := by
  constructor
  · have e : max p (x.sent.length - 256) = p + (max p (x.sent.length - 256) - p) := by omega
    rw [newsAt, e, ← List.drop_drop]
    exact firstStop?_drop h _
  · simp only [newsAt, List.length_drop]
    omega

/-- Without a stop or the end of the request among the news the reader waits again. -/
theorem heard_unreported {p start : Nat} (listens : Listens request x start p) :
    heard request p (newsAt x p none) = .call (.shellWait request x.sent.length) .done := by
  obtain ⟨none_, position⟩ := newsAt_of_unannounced (r := none) listens.le listens.unannounced
  unfold heard
  rw [none_]
  change Code.invoke (.shellWait request (p + (newsAt x p none).lost + (newsAt x p none).notices.length)) = _
  rw [position]
  rfl

/-- Once the request has ended the reader goes on with what it has read up to. -/
theorem heard_reported {p : Nat} {o : Outcome} (le : p ≤ x.sent.length) (h : firstStop? (x.sent.drop p) = none) :
    heard request p (newsAt x p (some (.response (.ok o)))) = .done x.sent.length := by
  obtain ⟨none_, position⟩ := newsAt_of_unannounced (r := some (.response (.ok o))) le h
  unfold heard
  rw [none_]
  exact congrArg Program.done position

/-- Steps of the reader on its way change nothing that the runner sees. -/
theorem Coming.step {p k start : Nat} {f : Flow brokerInterface}
    (stage : Stage (x.seen reader d) runner reader c) (hf : c.find? reader = some f)
    (coming : Coming request loop awaited p d f k) (listens : Listens request x start p)
    (hs : brokerMachine.step? c reader pick = some c') :
    ∃ d' g l p', Stage (x.seen reader d') runner reader c' ∧ c'.flows.length = c.flows.length ∧
      c'.find? reader = some g ∧ Coming request loop awaited p' d' g l ∧ Listens request x start p' ∧
      l + left x p' < k + left x p := by
  obtain ⟨b, j, fits, other, shared⟩ := stage.stands
  have goes : ∀ {d' g l p'}, Coming request loop awaited p' d' g l → Listens request x start p' →
      l + left x p' < k + left x p → c' = ({ c with shared := x.world d' b j } : BrokerConfig).update reader g →
      ∃ d' g l p', Stage (x.seen reader d') runner reader c' ∧ c'.flows.length = c.flows.length ∧
        c'.find? reader = some g ∧ Coming request loop awaited p' d' g l ∧ Listens request x start p' ∧
        l + left x p' < k + left x p := by
    rintro d' g l p' coming' listens' less rfl
    have stage' : Stage (x.seen reader d') runner reader { c with shared := x.world d' b j } :=
      stage.share ⟨b, j, fits, other, rfl⟩
    exact ⟨d', g, l, p', stage'.update (.inr rfl) g, length_update reader g, Config.find?_update_self hf, coming',
      listens', less⟩
  have same : c = { c with shared := x.world d b j } := by rw [← shared]
  rw [Machine.step?, hf, Option.bind_some] at hs
  cases coming with
  | calls coming =>
    cases hs
    exact goes coming listens (by omega) (by rw [← same])
  | returns coming =>
    cases hs
    exact goes coming listens (by omega) (by rw [← same])
  | awaitFinish which coming =>
    rw [Machine.stepFlow_act, shared] at hs
    obtain ⟨⟨r, w⟩, hp, moved⟩ := Option.map_eq_some_iff.mp hs
    obtain rfl := eq_of_awaitFinish hp
    exact goes coming listens (by omega) moved.symm
  | leaveResume coming =>
    rw [Machine.stepFlow_act, shared] at hs
    cases hs
    exact goes coming listens (by omega) rfl
  | setPrompt coming =>
    rw [Machine.stepFlow_act, shared] at hs
    cases hs
    exact goes coming listens (by omega) rfl
  | listens hears =>
    rw [body_shellWait, Machine.stepFlow_act, shared] at hs
    obtain ⟨⟨news, w⟩, hp, moved⟩ := Option.map_eq_some_iff.mp hs
    have hp : World.perform reader pick (.broker (.awaitNews p request)) (x.world home b j) = some (news, w) := hp
    obtain ⟨more, rfl, rfl⟩ := news_of_unreported listens hp
    simp only [heard_unreported listens] at moved
    have lefts : left x x.sent.length = 0 ∧ left x p = 2 := by simp [left, more]
    exact goes (.calls (.listens hears.again)) ⟨listens.start_le.trans listens.le, le_rfl, by simp [firstStop?],
      listens.unreported⟩ (by omega) moved.symm

/-- The runner is at work, and the reader comes back to listening or listens. -/
def runs (reader runner : Nat) (ne : runner ≠ reader) (request : String)
    (loop : Waiting brokerInterface (.shellLoop q)) (awaited : Option Nat) (start : Nat) (x : Scene) :
    Situation brokerMachine runner where
  Holds n c := ∃ d f k p, Stage (x.seen reader d) runner reader c ∧ c.find? reader = some f ∧
    Coming request loop awaited p d f k ∧ Listens request x start p ∧ k + left x p + c.flows.length ≤ n
  update := by
    rintro n c f ⟨d, g, k, p, stage, hg, coming, listens, le⟩
    refine ⟨d, g, k, p, stage.update (.inl rfl) f, ?_, coming, listens, by rwa [length_update]⟩
    rwa [Config.find?_update_of_ne (Ne.symm ne)]
  others := by
    rintro n id c c' pick ⟨d, g, k, p, stage, hg, coming, listens, le⟩ other hs
    by_cases same : id = reader
    · subst same
      obtain ⟨d', g', l, p', stage', length, hg', coming', listens', less⟩ := coming.step stage hg listens hs
      exact ⟨l + left x p' + c'.flows.length, by omega, d', g', l, p', stage', hg', coming', listens', le_rfl⟩
    · obtain ⟨stage', less, kept⟩ := stage.other other same hs
      exact ⟨k + left x p + c'.flows.length, by omega, d, g, k, p, stage',
        by rw [kept reader (Ne.symm same), hg], coming, listens, le_rfl⟩

/-- What does not concern the reader it does not hear of. -/
theorem Listens.quiet {start p : Nat} (listens : Listens request x start p) (quiet : x.Quiet y) :
    Listens request y start p := by
  obtain ⟨new, sent, unannounced⟩ := quiet.sent
  refine ⟨listens.start_le, ?_, ?_, by rw [quiet.reports]; exact listens.unreported⟩
  · have le := listens.le
    rw [sent, List.length_append]
    omega
  · rw [sent, List.drop_append_of_le_length listens.le, firstStop?_append, listens.unannounced, unannounced]
    rfl

theorem runs_acts {ne : runner ≠ reader} {start : Nat} {action : Action} {r : action.Reply}
    (h : Backstage.Acts runner reader action x r y) :
    (runs reader runner ne request loop awaited start x).Acts action r
      (runs reader runner ne request loop awaited start y) := by
  rintro n c ⟨d, g, k, p, stage, hg, coming, listens, le⟩
  obtain ⟨b, j, fits, other, shared⟩ := stage.stands
  obtain ⟨b', j', fits', other', performs⟩ := h.performs d b j fits other
  exact ⟨_, _, fun pick => by rw [shared]; exact performs pick, d, g, k, p,
    stage.share ⟨b', j', fits', other', rfl⟩, hg, coming, listens.quiet h.quiet, le_rfl⟩

/-- What the runner may do leads it on. -/
theorem runs_leads {ne : runner ≠ reader} {start : Nat} {α : Type} {p : Code α} {a : α}
    (h : Backstage.Does runner reader p x a y) :
    (runs reader runner ne request loop awaited start x).Leads p a
      (runs reader runner ne request loop awaited start y) :=
  h.leads (runs reader runner ne request loop awaited start) runs_acts

end Listening

end Shell

end SessionBroker
