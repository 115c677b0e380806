import SessionBroker.Proofs.Parts
import SessionBroker.Proofs.Signals
import SessionBroker.Proofs.Ways

/-!
# What a request does besides running its command

Before a request is routed its command goes into the history of the current session and the read loop of the
host is stopped, and afterwards the loop is started again, as far as the options ask for it. This is so
whatever becomes of the request on its way, since the ways themselves do nothing of the kind.
-/

namespace SessionBroker

namespace World

variable {w u : World} {flow : Nat} {pick : Bool} {e : EngineName} {text : String} {r : Unit}

/-- The commands that an engine remembers, the first one first. -/
def history? (w : World) (e : EngineName) : Option (List String) := (w.endpoint? e).map (·.engine.history)

theorem history?_perform (h : perform flow pick (.engine e (.remember text)) w = some (r, u)) :
    ∃ texts, w.history? e = some texts ∧ u.history? e = some (texts ++ [text]) := by
  rcases endpoint?_perform h e with ⟨op, reply, p, q, same, before, performed, after⟩ | ⟨other, -⟩
  · obtain ⟨-, rfl⟩ := Action.engine.inj same
    cases performed
    refine ⟨p.engine.history, ?_, ?_⟩
    · rw [history?, before]
      rfl
    · rw [history?, after]
      rfl
  · exact absurd rfl (other _)

end World

namespace Executions

abbrev Deeds := List (Deed brokerInterface World)

/-! ## What is done around the way of a request -/

/-- What is done about the history: if the request asks for it, one looks which session is current and adds the
text of the command to what its engine remembers. -/
inductive Remembers (q : Request) : Deeds → Prop where
  | unasked : q.options.remember = false → Remembers q []
  | noted {look note : Act brokerInterface World} {texts : List String} : q.options.remember = true →
      look.action = .sessions .current →
      note.action = .engine look.before.sessions.current.engine (.remember q.command.text) →
      note.before.history? look.before.sessions.current.engine = some texts →
      note.after.history? look.before.sessions.current.engine = some (texts ++ [q.command.text]) →
      Remembers q [.act note, .act look]

/-- What is done about the read loop before the request is routed: it is stopped if the request asks for it. -/
inductive Stops (q : Request) : Deeds → Prop where
  | unasked : q.options.interrupt = false → Stops q []
  | stopped {stop : Act brokerInterface World} : q.options.interrupt = true → stop.action = .host .stopLoop →
      stop.after.host = stop.before.host.stopLoop → Stops q [.act stop]

/-- What is done about the read loop after that: if the request asks for it, one looks whether the broker is
disposed, and starts the loop if it is not. -/
inductive Starts (q : Request) : Deeds → Prop where
  | unasked : q.options.interrupt = false → Starts q []
  | disposed {look : Act brokerInterface World} : q.options.interrupt = true → look.action = .broker .phase →
      look.before.phase = .disposed → Starts q [.act look]
  | started {look start : Act brokerInterface World} : q.options.interrupt = true → look.action = .broker .phase →
      look.before.phase ≠ .disposed → start.action = .host .startLoop →
      start.after.host = start.before.host.startLoop → Starts q [.act start, .act look]

/-- What a request does itself, the last deed first, and what it gives. If the broker is disposed it is refused
and nothing is done; else it is routed once, and gives what comes of that. -/
inductive Course (q : Request) (token : Option Token) : Response → Deeds → Prop where
  | refused {look : Act brokerInterface World} : look.action = .broker .phase → look.before.phase = .disposed →
      Course q token (.error .disposed) [.act look]
  | routed {look : Act brokerInterface World} {noted stopped started : Deeds} {r : Response} :
      look.action = .broker .phase → look.before.phase ≠ .disposed → Remembers q noted → Stops q stopped →
      Starts q started →
      Course q token r (started ++ .call (.route q token) r :: (stopped ++ (noted ++ [.act look])))

section Comes

variable {flow : Nat} {who : Proc} {q : Request} {old : Deeds}

theorem comes_remember : (Program.onlyIf q.options.remember do
      let e ← SessionChanges.currentEngine
      Code.engine e (.remember q.command.text)).Comes brokerMachine flow who
    (fun ds _ => ∃ noted, ds = noted ++ old ∧ Remembers q noted) old := by
  cases asked : q.options.remember with
  | false => exact ⟨[], rfl, .unasked asked⟩
  | true =>
    refine Program.comes_perform fun pick s w u looked => ?_
    cases looked
    intro pick r v t performed
    obtain ⟨texts, before, after⟩ := World.history?_perform (show World.perform flow pick _ v = _ from performed)
    exact ⟨[_, _], rfl, .noted asked rfl rfl before after⟩

theorem comes_stop : (Program.onlyIf q.options.interrupt (Code.host .stopLoop)).Comes brokerMachine flow who
    (fun ds _ => ∃ stopped, ds = stopped ++ old ∧ Stops q stopped) old := by
  cases asked : q.options.interrupt with
  | false => exact ⟨[], rfl, .unasked asked⟩
  | true =>
    intro pick r w u performed
    cases performed
    exact ⟨[_], rfl, .stopped asked rfl rfl⟩

theorem comes_start : (Program.onlyIf q.options.interrupt do
      let phase : Phase ← Code.broker .phase
      if phase ≠ .disposed then Code.host .startLoop).Comes brokerMachine flow who
    (fun ds _ => ∃ started, ds = started ++ old ∧ Starts q started) old := by
  cases asked : q.options.interrupt with
  | false => exact ⟨[], rfl, .unasked asked⟩
  | true =>
    refine Program.comes_perform fun pick phase w u looked => ?_
    cases looked
    split
    · next live =>
      intro pick r v t performed
      cases performed
      exact ⟨[_, _], rfl, .started asked rfl live rfl rfl⟩
    · next disposed => exact ⟨[_], rfl, .disposed asked rfl (not_not.mp disposed)⟩

/-- Whatever becomes of a request, it takes its course. -/
theorem comes_execute (token : Option Token) : (Routing.execute q token).Comes brokerMachine flow who
    (fun ds r => Course q token r ds) [] := by
  refine Program.comes_perform fun pick phase w u looked => ?_
  cases looked
  split
  · next disposed => exact .refused rfl disposed
  · next live =>
    refine Program.Comes.bind comes_remember ?remembered
    rintro _ _ ⟨noted, rfl, remembers⟩
    refine Program.Comes.bind comes_stop ?stopped
    rintro _ _ ⟨stopped, rfl, stops⟩
    refine Program.comes_invoke fun r => ?_
    refine Program.Comes.bind comes_start ?started
    rintro _ _ ⟨started, rfl, starts⟩
    exact .routed rfl live remembers stops starts

end Comes

/-! ## What is done in a run -/

/-- In a run, requests do what their options ask for, and nobody else does it for them. -/
structure Courteous (c : Chronicle) : Prop where
  /-- A request that has come to its end has taken its course. -/
  course : ∀ flow q token r ds, ⟨flow, .execute q token, r, ds⟩ ∈ c.returns → Course q token r ds
  /-- What goes into a history is the text of a command that is to be remembered, unless somebody gets past the
  broker. -/
  remembers : ∀ a ∈ c.log, ∀ e text, a.action = .engine e (.remember text) →
    (∃ q token, a.proc = .execute q token ∧ q.options.remember = true ∧ text = q.command.text) ∨
      ∃ name, a.proc = .engineStep name (.remember text)
  /-- The read loop is stopped by a request that interrupts it, or by a stop of the debugger. -/
  stops : ∀ a ∈ c.log, a.action = .host .stopLoop →
    (∃ q token, a.proc = .execute q token ∧ q.options.interrupt = true) ∨
      ∃ e event, a.proc = .debuggerStopped .broker e event
  /-- It is started by a request that has interrupted it, or after a stop of the debugger. -/
  starts : ∀ a ∈ c.log, a.action = .host .startLoop →
    (∃ q token, a.proc = .execute q token ∧ q.options.interrupt = true) ∨ ∃ frame, a.proc = .restartLoop frame

/-- Whatever happens, requests do what their options ask for. -/
theorem courteous (settings : BrokerSettings) (endpoints : List (EngineName × Endpoint)) (main : EngineName)
    (host : Host) (ms : List Move) : Courteous ((Chronicle.new settings endpoints main host).moves ms) := by
  have faithful := Chronicle.faithful_moves (Chronicle.faithful_new settings endpoints main host) ms
  refine ⟨?course, ?remembers, ?stops, ?starts⟩
  case course =>
    intro flow q token r ds returned
    exact (comes_execute token).leads (faithful.fits.returned _ returned)
  case remembers =>
    rintro ⟨flow, proc, action, r, w, u⟩ logged e text rfl
    cases faithful.gives logged rfl with
    | remember asked => exact .inl ⟨_, _, rfl, asked, rfl⟩
    | direct => exact .inr ⟨_, rfl⟩
  case stops =>
    rintro ⟨flow, proc, action, r, w, u⟩ logged rfl
    cases faithful.gives logged rfl with
    | interrupt asked => exact .inl ⟨_, _, rfl, asked⟩
    | stop => exact .inr ⟨_, _, rfl⟩
  case starts =>
    rintro ⟨flow, proc, action, r, w, u⟩ logged rfl
    cases faithful.gives logged rfl with
    | resume asked => exact .inl ⟨_, _, rfl, asked⟩
    | restart => exact .inr ⟨_, rfl⟩

/-! ### A request that fails -/

def failingEndpoints : List (EngineName × Endpoint) :=
  [("main", ⟨.new ⟨5, 1⟩ ⟨1, "localhost", "host"⟩ [("fail", .fatal "out of memory")], false, none, none⟩)]

/-- The engine fails to run a command that is to be remembered and interrupts the read loop. -/
def failed : List Move :=
  [.arrive "set up" (.setUp "main" true)] ++ turns 0 30
    ++ [.arrive "fail" (.execute (.script "fail")
      { RequestOptions.standard with remember := true, interrupt := true } none)] ++ turns 1 60

/-- Whether a request that asked for both has failed on its way. -/
def failsAfterBoth : Return brokerInterface World → Bool
  | ⟨_, .execute q _, .error (.engine (.fatal _)), _⟩ => q.options.remember && q.options.interrupt
  | _ => false

theorem courteous_failure : ∃ flow q token reason ds,
    ⟨flow, .execute q token, .error (.engine (.fatal reason)), ds⟩ ∈
      ((Chronicle.new .standard failingEndpoints "main" .new).moves failed).returns ∧
    q.options.remember = true ∧ q.options.interrupt = true ∧
    Course q token (.error (.engine (.fatal reason))) ds := by
  have found : ((Chronicle.new .standard failingEndpoints "main" .new).moves failed).returns.any failsAfterBoth := by
    decide +kernel
  obtain ⟨r, here, fails⟩ := List.any_eq_true.mp found
  unfold failsAfterBoth at fails
  split at fails
  · next flow q token reason ds =>
    obtain ⟨remember, interrupt⟩ := Bool.and_eq_true_iff.mp fails
    have courteous := courteous .standard failingEndpoints "main" .new failed
    exact ⟨flow, q, token, reason, ds, here, remember, interrupt, courteous.course flow q token _ ds here⟩
  · cases fails

end Executions

end SessionBroker
