import SessionBroker.Logging.Filter

/-!
# Setting the log up

A program sets its log up once; what comes later has no effect and is told so.
-/

namespace SessionBroker.Logging

/-- The filter that holds if nothing else is said. -/
def defaultFilter : String := "runspace_coordinator=info"

/-- How the log is set up. -/
inductive Setup where
  /-- From the environment; to fail is a defect of the program. -/
  | insist
  /-- From the environment. -/
  | attempt
  /-- By a level for the program's own modules, or by a whole filter. -/
  | filter (text : String)
  deriving DecidableEq, Repr

/-- What comes of setting the log up. -/
inductive SetupEnd where
  | done
  | refused
  | aborted
  deriving DecidableEq, Repr

/-- The filter in a text; the default one if there is no text or it is not written as a filter. -/
def filterOr (text : Option String) : Except Fault Filter :=
  match text.map Filter.parse with
  | some (.ok f) => .ok f
  | some (.error .torn) => .error .torn
  | some (.error .malformed) | none => Filter.parse defaultFilter

/-- A level alone is about the program's own modules. -/
def directiveOf (text : String) : String :=
  if text.toList.any fun c => c = '=' || c = ',' then text else "runspace_coordinator=" ++ text

/-- The filter that a setup asks for, with the filter that the environment gives. -/
def Setup.wanted (environment : Option String) : Setup → Except Fault Filter
  | .insist => filterOr environment
  | .attempt => filterOr environment
  | .filter text => filterOr (some (directiveOf text))

/-- Sets the log up, unless that has been done. The filter is read first; one that is torn is a
defect of the program, whatever was done before. -/
def Setup.run (environment : Option String) (current : Option Filter) (s : Setup) :
    SetupEnd × Option Filter :=
  match s.wanted environment, current, s with
  | .error _, current, _ => (.aborted, current)
  | .ok f, none, _ => (.done, some f)
  | .ok _, some f, .insist => (.aborted, some f)
  | .ok _, some f, _ => (.refused, some f)

/-- Sets the log up several times. -/
def Setup.runAll (environment : Option String) :
    Option Filter → List Setup → List SetupEnd × Option Filter
  | current, [] => ([], current)
  | current, s :: rest =>
    let (e, current) := s.run environment current
    let (es, current) := Setup.runAll environment current rest
    (e :: es, current)

end SessionBroker.Logging
