import SessionBroker.Json.Record
import SessionBroker.Json.Writer

/-!
# Identities

An identity says which interpreter instance, in which process, on which machine is answering. The
identity probe is a command whose output holds it, as an object or as the text of one.
-/

namespace SessionBroker

/-- Who is answering. -/
structure Identity where
  process : UInt32
  instanceName : String
  machine : String
  deriving DecidableEq, Repr

namespace Identity

/-- The command that makes a session tell its identity. -/
def probeText : String :=
  "[pscustomobject]@\x7b processId = $PID; instanceId = $Host.InstanceId.ToString(); " ++
    "machineName = [Environment]::MachineName \x7d | ConvertTo-Json -Compress"

/-- A machine's name with ASCII letters in lower case: names differ only up to it. -/
def machineKey (name : String) : List Char := name.toList.map Char.toLower

def sameMachine (a b : Identity) : Bool := machineKey a.machine = machineKey b.machine

/-- Whether both are the same interpreter instance. -/
def isSame (a b : Identity) : Bool :=
  a.process = b.process && a.instanceName = b.instanceName && a.sameMachine b

def toJson (d : Identity) : Json.Value :=
  .object [("instanceId", .string d.instanceName), ("machineName", .string d.machine),
    ("processId", .ofNat d.process.toNat)]

/-- Reads an identity from an object; members of other names do not matter. -/
def ofJson? (v : Json.Value) : Option Identity := do
  let .number (.natural n) ← v.get? "processId" | none
  if UInt32.size ≤ n then none
  let .string i ← v.get? "instanceId" | none
  let .string m ← v.get? "machineName" | none
  return ⟨n.toUInt32, i, m⟩

def fields : Json.Scan.Fields Identity where
  names := ["processId", "instanceId", "machineName"]
  required := true
  read := fun name d s =>
    if name = "processId" then
      (Json.Scan.natural UInt32.size s).map fun (n, r) =>
        (⟨n.toUInt32, d.instanceName, d.machine⟩, r)
    else if name = "instanceId" then
      (Json.Scan.text s).map fun (i, r) => (⟨d.process, i, d.machine⟩, r)
    else (Json.Scan.text s).map fun (m, r) => (⟨d.process, d.instanceName, m⟩, r)

/-- Reads an identity from the text of a document. -/
def ofText? (s : String) : Option Identity :=
  (Json.Scan.whole (Json.Scan.record fields ⟨0, "", ""⟩) s.toList).toOption

/-- Why a probe's output gives no identity. -/
inductive ProbeFault where
  /-- No value of the output is an object or a string. -/
  | noOutput
  /-- The last such value does not hold an identity. -/
  | unreadable
  deriving DecidableEq, Repr

/-- What is said of such an output. -/
def ProbeFault.reason : ProbeFault → String
  | .noOutput => "probe produced no output"
  | .unreadable => "probe output is no identity"

/-- Reads the output of the probe: its last value that is an object or a string. -/
def ofProbe (output : List Json.Value) : Except ProbeFault Identity :=
  match output.reverse.find? fun v => v.isObject || v.isString with
  | none => .error .noOutput
  | some (.string s) =>
    match ofText? s with
    | some d => .ok d
    | none => .error .unreadable
  | some v =>
    match ofJson? v with
    | some d => .ok d
    | none => .error .unreadable

end Identity

end SessionBroker
