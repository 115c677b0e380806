import SessionBroker.Broker.Machine

/-!
# Running flows one step of a scenario at a time

A scenario starts flows and lets them run until each of them waits or has ended. The newest flow
goes first, as far as it gets; then the oldest one that can go on.
-/

namespace SessionBroker.Scenario

/-- More steps than any scenario takes. -/
def plenty : Nat := 1000000

/-- Lets all flows run until each of them waits. -/
def settle (c : BrokerConfig) : BrokerConfig := brokerMachine.settle plenty plenty c

/-- Starts a flow and lets it run until it waits or has ended. -/
def begin (proc : Proc) (c : BrokerConfig) : BrokerConfig :=
  brokerMachine.advance plenty c.next (c.spawn brokerMachine proc)

/-- Starts a flow and lets all flows run. -/
def launch (proc : Proc) (c : BrokerConfig) : BrokerConfig := settle (begin proc c)

/-- Changes the world that the flows share. -/
def touch (f : World → World) (c : BrokerConfig) : BrokerConfig := { c with shared := f c.shared }

def still (w : World) : BrokerConfig := ⟨w, [], 0⟩

theorem run_begin (proc : Proc) (c : BrokerConfig) :
    Machine.Run brokerMachine (c.spawn brokerMachine proc) (begin proc c) :=
  Machine.run_advance plenty c.next _

theorem run_settle (c : BrokerConfig) : Machine.Run brokerMachine c (settle c) :=
  Machine.run_settle plenty plenty c

theorem run_launch (proc : Proc) (c : BrokerConfig) :
    Machine.Run brokerMachine (c.spawn brokerMachine proc) (launch proc c) :=
  (run_begin proc c).trans (run_settle _)

end SessionBroker.Scenario
