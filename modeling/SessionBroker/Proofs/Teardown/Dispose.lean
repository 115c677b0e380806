import SessionBroker.Proofs.Stacks
import SessionBroker.Proofs.Swaps
import SessionBroker.Proofs.Teardown.End
import SessionBroker.Proofs.Teardown.Outset

/-!
# Disposing the broker

Whoever disposes a broker in which nothing happens leaves nothing behind, whatever prompts and stops of
the debugger are stacked, whatever sessions, and however the threads of the frames leave them. To
dispose it again does nothing.
-/

namespace SessionBroker.Teardown

/-! ## Where nothing happens -/

instance (c : BrokerConfig) : Decidable (AtRest c) :=
  decidable_of_iff
    ((∀ p ∈ c.flows, (parked? (onset c) p.2).isSome) ∧
      (∀ p ∈ c.flows, ∀ frame ∈ p.2.serving?, frame.id ∈ c.shared.frames.above) ∧
      (∀ i ∈ c.shared.frames.above, c.shared.frames.kind i = .nestedPrompt ∨ c.shared.frames.kind i = .debug) ∧
      (∀ i ∈ c.shared.frames.above, (c.shared.frames.mailbox? i).any Mailbox.isIdle) ∧
      (∀ i ∈ c.shared.frames.above, ∃ p ∈ c.flows, p.2.serving? = some (c.shared.frames.ref i)) ∧
      c.shared.idle.tasks.isEmpty ∧ c.shared.host.pumps = 0 ∧
      ∀ promise ∈ (onset c).awaited, (c.shared.promises[promise]?).any Promise.isOpen)
    ⟨fun ⟨parked, serving, kinds, idle, served, tasks, pumps, awaited⟩ =>
        ⟨parked, serving, kinds, idle, served, List.isEmpty_iff.mp tasks, pumps, awaited⟩,
      fun ⟨parked, serving, kinds, idle, served, tasks, pumps, awaited⟩ =>
        ⟨parked, serving, kinds, idle, served, List.isEmpty_iff.mpr tasks, pumps, awaited⟩⟩

/-- The engines that sessions own, the current session's first. -/
def owned (w : World) : List EngineName := (w.sessions.toList.filter (·.ownsEngine)).map (·.engine)

/-- A broker may be disposed: it is alive and at rest, each session's engine is there, and no two sessions
own one and the same. -/
structure Ready (c : BrokerConfig) : Prop where
  alive : c.shared.phase ≠ .disposed
  rest : AtRest c
  engines : ∀ s ∈ c.shared.sessions.toList, (c.shared.endpoint? s.engine).isSome
  apart : (owned c.shared).Nodup

instance (c : BrokerConfig) : Decidable (Ready c) :=
  decidable_of_iff (c.shared.phase ≠ .disposed ∧ AtRest c ∧
      (∀ s ∈ c.shared.sessions.toList, (c.shared.endpoint? s.engine).isSome) ∧ (owned c.shared).Nodup)
    ⟨fun ⟨alive, rest, engines, apart⟩ => ⟨alive, rest, engines, apart⟩,
      fun ⟨alive, rest, engines, apart⟩ => ⟨alive, rest, engines, apart⟩⟩

/-- A client comes to have the broker disposed. -/
def outset (c : BrokerConfig) (name : String) : Unwinding :=
  ⟨c.spawn brokerMachine (.serveClient name .dispose), none, []⟩

variable {c : BrokerConfig}

theorem fit_of_ready (regular : c.shared.frames.Regular) (ready : Ready c) : Fit (onset c) where
  regular := regular
  frames i hi := by
    show (c.shared.frames.ref i).hasMailbox ∧ (c.shared.frames.ref i).kind ≠ .topLevel
    rw [FrameStack.ref_hasMailbox, FrameStack.ref_kind]
    constructor
    · have idle := ready.rest.idle i hi
      cases found : c.shared.frames.mailbox? i with
      | none => simp [found] at idle
      | some m => rfl
    · rcases ready.rest.kinds i hi with kind | kind <;> simp [kind]
  engines := ready.engines

/-! ## Afterwards -/

/-- The broker is disposed, with nothing left of what was stacked. -/
structure Dismantled (old : World) (d : Nat) (u : Unwinding) : Prop extends TornDown old d u where
  /-- Each engine that a session owned was closed once, and no other one. -/
  once : ∀ e, u.closed.count e = if e ∈ owned old then 1 else 0
  /-- To dispose it again does nothing. -/
  again : ∀ flow r v, brokerMachine.Does flow Aborting.dispose u.config.shared r v ↔ v = u.config.shared

theorem owners_eq_count (l : List Session) (name : EngineName) :
    owners l name = ((l.filter (·.ownsEngine)).map (·.engine)).count name := by
  rw [owners, List.count, List.countP_map, List.countP_filter]
  refine List.countP_congr fun s _ => ?_
  simp [and_comm]

theorem dispose_again {w : World} (disposed : w.phase = .disposed) (flow : Nat) (r : Unit) (v : World) :
    brokerMachine.Does flow Aborting.dispose w r v ↔ v = w := by
  have looks : Aborting.dispose = .act (.broker .phase) fun phase : Phase =>
      if phase = .disposed then .done () else _ := rfl
  rw [looks, Machine.Does.act_iff]
  constructor
  · rintro ⟨phase, t, ⟨_, seen⟩, does⟩
    obtain ⟨rfl, rfl⟩ := Prod.mk.inj (Option.some.inj seen)
    rw [if_pos disposed, Machine.Does.done_iff] at does
    exact does.2
  · rintro rfl
    refine ⟨v.phase, v, ⟨false, rfl⟩, ?_⟩
    rw [if_pos disposed]
    exact .done r v

theorem TornDown.dismantled {old : World} {d : Nat} {u : Unwinding} (apart : (owned old).Nodup)
    (down : TornDown old d u) : Dismantled old d u where
  toTornDown := down
  once e := by
    rw [down.closed, owners_eq_count, ← owned, apart.count]
  again := dispose_again down.disposed

/-- However the flows make their steps, the broker is dismantled in the end. -/
theorem ends_of_ready (numbered : c.Numbered) (regular : c.shared.frames.Regular)
    (goesOn : ∀ p ∈ c.flows, p.2.AtEach brokerMachine (sequel (onset c)))
    (placed : ∀ e, c.shared.hooksOn e = some .broker →
      ∃ s ∈ c.shared.sessions.toList, s.ownsHooks ∧ s.engine = e)
    (ready : Ready c) (name : String) : (outset c name).Ends (Dismantled c.shared c.next) := by
  have fit : Fit (onset c) := fit_of_ready regular ready
  obtain ⟨x, hand, underway⟩ := underway_of_atRest numbered ready.rest fit goesOn placed ready.alive name
  exact (underway.ends fit).imp fun u down => down.dismantled ready.apart

/-- Disposing a broker at rest tears everything down. -/
theorem dispose_tears_down (settings : BrokerSettings) (endpoints : List (EngineName × Endpoint))
    (main : EngineName) (host : Host) (ms : List Move) (bare : Swaps.Bare (.new settings endpoints main host))
    (inTurn : Swaps.swaps.TakesTurns Swaps.Bare (.new Swaps.swaps.lore settings endpoints main host) ms)
    (settled : Swaps.swaps.Settled
      ((Tale.new Swaps.swaps.lore settings endpoints main host).moves Swaps.swaps.lore ms)) :
    let c := ((Play.new settings endpoints main host).moves ms).config
    Ready c → ∀ name, (outset c name).Ends (Dismantled c.shared c.next) := by
  have new : (Play.new settings endpoints main host).config.Numbered :=
    ⟨.nil, fun p none => absurd none List.not_mem_nil⟩
  refine ends_of_ready (Play.numbered_moves new ms) (Play.regular_moves FrameStack.regular_new ms) ?_
    (Swaps.placed_of_settled bare inTurn settled)
  exact Play.atEach_moves goesOn_body (fun f none => absurd none List.not_mem_nil) ms

/-! ### Two stops, a prompt and four sessions -/

def threeEndpoints : List (EngineName × Endpoint) :=
  ["main", "second", "third"].map fun name =>
    (name, ⟨.new ⟨5, 1⟩ ⟨1, name, "host"⟩ [("stop", .break ⟨none, none, []⟩)], false, none, none⟩)

/-- A command that is run behind the read loop stops in the debugger. A second engine is entered from there,
a nested prompt above the stop, and another stop on the second engine. From there a third engine is entered. -/
def stopsAndPrompt : List Move :=
  [.arrive "set up" (.setUp "main" true)] ++ turns 0 30
    ++ [.arrive "line" (.readLine none)] ++ turns 1 20
    ++ [.arrive "stop" (.execute (.script "stop") .standard none)] ++ turns 2 40
    ++ [.outside .hostPump] ++ turns 1 80 ++ turns 3 20
    ++ [.arrive "second" (.pushSession "second" ⟨2, "second", "host"⟩ (some "ssh") none none)] ++ turns 4 12
    ++ [.arrive "prompt" .enterNestedPrompt] ++ turns 5 20 ++ turns 6 20
    ++ [.arrive "stop again" (.invoke "second" (.script "stop") false false)] ++ turns 7 80 ++ turns 8 20
    ++ [.arrive "third" (.pushSession "third" ⟨3, "third", "host"⟩ (some "ssh") none none)] ++ turns 9 12

/-- The broker's hooks are on two engines then, and the debugger has entered a session of its own. All of it
is gone in the end. -/
theorem dispose_tears_down_stops_and_prompt :
    let c := ((Play.new .standard threeEndpoints "main" .new).moves stopsAndPrompt).config
    (c.shared.frames.above.map c.shared.frames.kind = [.debug, .nestedPrompt, .debug] ∧
      c.shared.sessions.toList.map (·.engine) = ["third", "second", "second", "main"] ∧
      owned c.shared = ["third", "second", "main"] ∧
      ["main", "second", "third"].map c.shared.hooksOn = [none, some .broker, some .broker]) ∧
    (outset c "dispose").Ends (Dismantled c.shared c.next) := by
  refine ⟨by decide +kernel, ?_⟩
  exact dispose_tears_down .standard threeEndpoints "main" .new stopsAndPrompt (by decide) (by decide +kernel)
    (by decide +kernel) (by decide +kernel) "dispose"

end SessionBroker.Teardown
