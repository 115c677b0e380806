import SessionBroker.Main
import SessionBroker.Scenario.EngineScenario
import SessionBroker.Scenario.FrameScenario
import SessionBroker.Scenario.SessionScenario
import SessionBroker.Text.Quoted
import SessionBroker.Text.Wildcard
import SessionBroker.Logging.Setup
import SessionBroker.Proofs.Lobby
import SessionBroker.Proofs.Post
import SessionBroker.Proofs.Exclusion
import SessionBroker.Proofs.Accounting
import SessionBroker.Proofs.Registration
import SessionBroker.Proofs.Losses
import SessionBroker.Proofs.Repose
import SessionBroker.Proofs.Announcements
import SessionBroker.Proofs.Grants
import SessionBroker.Proofs.Aborts
import SessionBroker.Proofs.Finality
import SessionBroker.Proofs.Refusals
import SessionBroker.Proofs.Records
import SessionBroker.Proofs.Prompts
import SessionBroker.Proofs.Departures
import SessionBroker.Proofs.Probes
import SessionBroker.Proofs.Subscribers
import SessionBroker.Proofs.Teardown.Dispose
import SessionBroker.Proofs.Precedence
import SessionBroker.Proofs.IdleWork.Account
import SessionBroker.Proofs.Shell.Cast
import SessionBroker.Proofs.Shell.Course
import SessionBroker.Proofs.Executions
import SessionBroker.Proofs.Verdicts
import SessionBroker.Proofs.IdleWork.Nesting
import SessionBroker.Proofs.ReadLoops
import SessionBroker.Proofs.StopRequests
import SessionBroker.Proofs.Attempts
import SessionBroker.Proofs.Vigils
import SessionBroker.Proofs.Wildcards
import SessionBroker.Proofs.Overrides
import SessionBroker.Proofs.ProbeAnswers
import SessionBroker.Proofs.SettingsFiles
import SessionBroker.Proofs.Literals
import SessionBroker.Proofs.Reports
import SessionBroker.Proofs.ErrorBuffers
import SessionBroker.Proofs.Versions
