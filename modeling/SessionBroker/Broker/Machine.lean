import SessionBroker.Broker.Clients
import SessionBroker.Shell.Loop

/-!
# The broker's machine

What each procedure does, and the machine that runs them.
-/

namespace SessionBroker

/-- What a procedure does. -/
def body : (proc : Proc) → Code proc.Result
  | .serveClient name request => Clients.serve name request
  | .invoke e c merge _ => Engines.invoke e c merge
  | .debuggerStopped hooks e event => Debugging.stopped hooks e event
  | .nestedPromptEntered hooks e => Debugging.promptEntered hooks e
  | .engineStep e step => Engines.step e step
  | .idleSteps name steps => Rehearsal.idleSteps name steps
  | .awaitLease frame ticket caller => Leases.await frame ticket caller
  | .awaitAnswer frame ticket => Routing.awaitAnswer frame ticket
  | .execute q token => Routing.execute q token
  | .route q token => Routing.route q token
  | .runCommand frame e q route => Running.run frame e q route
  | .serve frame ticket q => Routing.serve frame ticket q
  | .messageLoop frame => Routing.messageLoop frame
  | .serveNext frame => Routing.serveNext frame
  | .nestedPrompt frame promise => Debugging.promptThread frame promise
  | .pump => Reading.pump
  | .hostRead reader => Reading.hostRead reader
  | .readLoop _ => Reading.readLoop
  | .readLine token => Reading.readLine token
  | .onPipeline action => Reading.onPipeline action
  | .compute _ value => Reading.compute value
  | .resumeDebugger action wait => Aborting.resume action wait
  | .restartLoop frame => Debugging.restartLoop frame
  | .awaitUsable changes => Debugging.awaitUsable changes
  | .dispose => Aborting.dispose
  | .popSessions => SessionChanges.popAll
  | .rehearsedLoop frame pop => Rehearsal.loop frame pop
  | .rehearsedNext frame => Rehearsal.next frame
  | .shellLoop position => Shell.loop position
  | .shellWait request position => Shell.wait request position
  | .shellDebugger => Shell.debuggerLoop

def brokerMachine : Machine brokerInterface World := ⟨body, World.perform⟩

/-- The state of the world and the flows under way. -/
abbrev BrokerConfig := Config brokerInterface World

end SessionBroker
