import SessionBroker.Scenario.BrokerScenario

/-!
# Scenarios of an engine

Steps on a single engine, whose hooks follow plans.
-/

namespace SessionBroker.Scenario

/-- What is seen after a step on an engine. -/
structure EngineObservation where
  reply : EngineReply
  log : List TraceEntry
  view : EngineView

def nextEngine (name : EngineName) (c : BrokerConfig) (step : EngineStep) :
    EngineObservation × BrokerConfig :=
  let c := launch (.serveClient "" (.engineStep name step)) c
  let w := c.shared
  let reply := match w.reports with
    | (_, .engineReply r) :: _ => r
    | _ => .nothing
  let view := ((w.endpoint? name).map fun p => EngineView.ofEngine p.engine).getD
    (.ofEngine (.new ⟨0, 0⟩ ⟨0, "", ""⟩ []))
  (⟨reply, w.trace.reverse, view⟩, { c with shared := { w with reports := [], trace := [] } })

/-- Takes steps on an engine one after the other. -/
def playEngine (name : EngineName) : BrokerConfig → List EngineStep → List EngineObservation
  | _, [] => []
  | c, step :: rest =>
    let (o, c) := nextEngine name c step
    o :: playEngine name c rest

def performEngine (setup : EngineSetup) (steps : List EngineStep) : List EngineObservation :=
  playEngine setup.name
    (still (World.new .standard [(setup.name, setup.endpoint)] setup.name .new)) steps

end SessionBroker.Scenario
