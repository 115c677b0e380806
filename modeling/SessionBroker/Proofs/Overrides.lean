import SessionBroker.Proofs.Precedence

/-!
# Argument lists one after the other

Reading an argument list is a sequence of single readings: one argument, and the value after it if its last option
waits for one. A single reading only adds to what was given before, and fails for reasons of its own. So a list that
has been read to its end leaves nothing open, and what follows it is read as if it stood alone and then laid over
what was given before.
-/

namespace SessionBroker.CommandLine

open Text

namespace Arguments

/-- What is given later counts, and the rest of what was given before is kept. -/
def followedBy (a later : Arguments) : Arguments where
  config := later.config.or a.config
  logLevel := later.logLevel.or a.logLevel
  minimumVersion := later.minimumVersion.or a.minimumVersion
  noProbe := a.noProbe || later.noProbe
  version := a.version || later.version
  help := a.help || later.help

@[simp] theorem followedBy_none (a : Arguments) : a.followedBy .none = a := by
  simp [followedBy, none]

theorem raise_followedBy (a b : Arguments) (f : Flag) :
    (a.followedBy b).raise f = a.followedBy (b.raise f) := by
  cases f <;> simp [followedBy, raise]

theorem assign_followedBy (a b : Arguments) (s : Setting) (value : Bytes) :
    (a.followedBy b).assign s value = (b.assign s value).map a.followedBy := by
  unfold assign
  cases Utf8.strict? value with
  | none => rfl
  | some v =>
    cases s with
    | config | logLevel => rfl
    | minimumVersion =>
      by_cases isVersion : (Version.parse? v).isSome = true
      · simp only [if_pos isVersion]
        rfl
      · simp only [if_neg isVersion]
        rfl

end Arguments

/-! ## Terminators -/

/-- Nothing but two dashes. -/
def terminator : Bytes := [0x2D, 0x2D]

/-- Whether letters are those of flags, and at last that of an option whose value is still to come. -/
def lettersAwait : List Utf8.Piece → Bool
  | [] => false
  | p :: rest =>
    match p.char?.bind Known.ofLetter? with
    | none => false
    | some (.flag _) => lettersAwait rest
    | some (.setting _) => rest.isEmpty

/-- Whether the value of the last option in an argument is the next argument. -/
def awaitsValue (arg : Bytes) : Bool :=
  match shape arg with
  | .long =>
    match Known.ofName? (Utf8.lenient (splitEquals arg).1), (splitEquals arg).2 with
    | some (.setting _), none => true
    | _, _ => false
  | .letters ps => lettersAwait ps
  | _ => false

/-- Whether there is a terminator among the arguments, other than as the value of an option. -/
def isTerminated : List Bytes → Bool
  | [] => false
  | [arg] => arg = terminator
  | arg :: next :: rest =>
    arg = terminator || (if awaitsValue arg then isTerminated rest else isTerminated (next :: rest))

theorem isTerminated_cons (arg : Bytes) (rest : List Bytes) : isTerminated (arg :: rest) =
    (arg = terminator || (if awaitsValue arg then isTerminated rest.tail else isTerminated rest)) := by
  cases rest with
  | nil => simp [isTerminated]
  | cons next rest => rfl

/-! ## Single readings -/

/-- What an argument other than a terminator makes of what was given before it. -/
def readArgument (arg : Bytes) (a : Arguments) : Except Fault ClusterEnd :=
  match shape arg with
  | .plain | .terminator => .error (.unexpectedArgument (Utf8.lenient arg))
  | .long =>
    let name := Utf8.lenient (splitEquals arg).1
    match Known.ofName? name, (splitEquals arg).2 with
    | none, _ => .error (.unknownOption name)
    | some (.flag _), some v => .error (.unexpectedValue name v)
    | some (.flag f), none => .ok (.done (a.raise f))
    | some (.setting s), some v => (a.assign s v).map .done
    | some (.setting s), none => .ok (.awaits a name s)
  | .letters ps => readLetters none ps a

theorem shape_terminator {arg : Bytes} (ends : shape arg = .terminator) : arg = terminator := by
  unfold shape at ends
  split at ends <;> first | rfl | cases ends

/-- What the rest of a list makes of what was given so far; it may begin with a value that is waited for. -/
def readRest (rest : List Bytes) : ClusterEnd → Except Fault Arguments
  | .done a => read rest a
  | .awaits a name s =>
    match rest with
    | [] => .error (.missingValue name)
    | v :: rest => a.assign s v >>= read rest

/-- A list is read one argument at a time. -/
theorem read_cons {arg : Bytes} (goesOn : arg ≠ terminator) (rest : List Bytes) (a : Arguments) :
    CommandLine.read (arg :: rest) a = readArgument arg a >>= readRest rest := by
  unfold CommandLine.read readArgument
  cases form : shape arg with
  | plain => rfl
  | terminator => exact absurd (shape_terminator form) goesOn
  | long =>
    dsimp only
    cases Known.ofName? (Utf8.lenient (splitEquals arg).1) with
    | none => rfl
    | some known =>
      cases known with
      | flag f => cases (splitEquals arg).2 <;> rfl
      | setting s =>
        cases (splitEquals arg).2 with
        | none => cases rest <;> rfl
        | some v => cases assigned : a.assign s v <;> simp [assigned, Except.map, bind, Except.bind, readRest]
  | letters ps =>
    dsimp only
    cases readLetters none ps a with
    | error f => rfl
    | ok result =>
      cases result with
      | done b => rfl
      | awaits b name s => cases rest <;> rfl

def ClusterEnd.isWaiting : ClusterEnd → Bool
  | .done _ => false
  | .awaits .. => true

/-- Behind a value that stands with its letter nothing waits. -/
theorem isWaiting_assign {a : Arguments} {s : Setting} {value : Bytes} {result : ClusterEnd}
    (accepted : (a.assign s value).map .done = .ok result) : result.isWaiting = false := by
  cases assigned : a.assign s value with
  | error f => simp [assigned, Except.map] at accepted
  | ok b =>
    obtain rfl : ClusterEnd.done b = result := by simpa [assigned, Except.map] using accepted
    rfl

/-- Letters leave an option waiting just if they are those of flags and then that of an option with a value. -/
theorem isWaiting_readLetters {last : Option Char} {ps : List Utf8.Piece} {a : Arguments} {result : ClusterEnd}
    (accepted : readLetters last ps a = .ok result) : result.isWaiting = lettersAwait ps := by
  fun_induction readLetters last ps a with
  | case1 =>
    cases accepted
    rfl
  | case2 => cases accepted
  | case3 => cases accepted
  | case4 =>
    rename_i known _ ih
    rw [ih accepted, lettersAwait, known]
  | case5 =>
    rename_i known _
    cases accepted
    simp [lettersAwait, known, ClusterEnd.isWaiting]
  | case6 =>
    rename_i known _ _
    rw [isWaiting_assign accepted, lettersAwait, known]
    rfl
  | case7 =>
    rename_i known value more _ _
    rw [isWaiting_assign accepted, lettersAwait, known]
    cases value with
    | nil => exact absurd rfl more
    | cons => rfl

/-- An argument that is read leaves an option waiting just if its look says so. -/
theorem isWaiting_readArgument {arg : Bytes} {a : Arguments} {result : ClusterEnd}
    (accepted : readArgument arg a = .ok result) : result.isWaiting = awaitsValue arg := by
  unfold readArgument at accepted
  unfold awaitsValue
  cases form : shape arg with
  | plain | terminator =>
    rw [form] at accepted
    cases accepted
  | letters ps =>
    rw [form] at accepted
    exact isWaiting_readLetters accepted
  | long =>
    rw [form] at accepted
    dsimp only at accepted ⊢
    cases known : Known.ofName? (Utf8.lenient (splitEquals arg).1) with
    | none =>
      rw [known] at accepted
      cases accepted
    | some k =>
      cases attached : (splitEquals arg).2 with
      | none =>
        rw [known, attached] at accepted
        cases k <;> cases accepted <;> rfl
      | some v =>
        rw [known, attached] at accepted
        cases k with
        | flag f => cases accepted
        | setting s => exact isWaiting_assign accepted

/-! ## What was given before -/

namespace ClusterEnd

/-- The same end, behind what was given before. -/
def behind (a : Arguments) : ClusterEnd → ClusterEnd
  | .done b => .done (a.followedBy b)
  | .awaits b name s => .awaits (a.followedBy b) name s

end ClusterEnd

theorem map_done_followedBy (a b : Arguments) (s : Setting) (value : Bytes) :
    ((a.followedBy b).assign s value).map .done = ((b.assign s value).map .done).map (ClusterEnd.behind a) := by
  rw [Arguments.assign_followedBy]
  cases b.assign s value <;> rfl

theorem readLetters_followedBy (a : Arguments) (last : Option Char) (ps : List Utf8.Piece) (b : Arguments) :
    readLetters last ps (a.followedBy b) = (readLetters last ps b).map (ClusterEnd.behind a) := by
  induction ps generalizing last b with
  | nil => rfl
  | cons p rest ih =>
    unfold readLetters
    split
    · rfl
    · dsimp only
      cases p.char?.bind Known.ofLetter? with
      | none => rfl
      | some known =>
        cases known with
        | flag f =>
          dsimp only
          rw [Arguments.raise_followedBy]
          exact ih _ _
        | setting s =>
          dsimp only
          split
          · rfl
          · exact map_done_followedBy a b s _
          · exact map_done_followedBy a b s _

theorem readArgument_followedBy (a : Arguments) (arg : Bytes) (b : Arguments) :
    readArgument arg (a.followedBy b) = (readArgument arg b).map (ClusterEnd.behind a) := by
  unfold readArgument
  cases shape arg with
  | plain | terminator => rfl
  | letters ps => exact readLetters_followedBy a none ps b
  | long =>
    dsimp only
    cases Known.ofName? (Utf8.lenient (splitEquals arg).1) with
    | none => rfl
    | some known =>
      cases known with
      | flag f =>
        cases (splitEquals arg).2 with
        | none =>
          dsimp only
          rw [Arguments.raise_followedBy]
          rfl
        | some v => rfl
      | setting s =>
        cases (splitEquals arg).2 with
        | none => rfl
        | some v => exact map_done_followedBy a b s v

/-- Behind a terminator nothing is read. -/
theorem read_terminator (rest : List Bytes) (a : Arguments) :
    CommandLine.read (terminator :: rest) a =
      match rest with
      | [] => .ok a
      | v :: _ => .error (.unexpectedArgument (Utf8.lenient v)) := by
  unfold CommandLine.read
  cases rest <;> rfl

/-- What a list gives does not depend on what was given before, and neither do its faults. -/
theorem read_followedBy (a : Arguments) : ∀ (args : List Bytes) (b : Arguments),
    CommandLine.read args (a.followedBy b) = (CommandLine.read args b).map a.followedBy
  | [], b => by
    unfold CommandLine.read
    rfl
  | arg :: rest, b => by
    by_cases ends : arg = terminator
    · rw [ends, read_terminator, read_terminator]
      cases rest <;> rfl
    · rw [read_cons ends, read_cons ends, readArgument_followedBy]
      cases readArgument arg b with
      | error f => rfl
      | ok result =>
        cases result with
        | done c => exact read_followedBy a rest c
        | awaits c name s =>
          cases rest with
          | nil => rfl
          | cons v rest =>
            change (a.followedBy c).assign s v >>= CommandLine.read rest =
              (c.assign s v >>= CommandLine.read rest).map a.followedBy
            rw [Arguments.assign_followedBy]
            cases c.assign s v with
            | error f => rfl
            | ok d => exact read_followedBy a rest d

/-! ## One list after the other -/

/-- After a list that has been read to its end nothing is open. -/
theorem read_append {x : Arguments} (b : List Bytes) : ∀ (args : List Bytes) (a : Arguments),
    CommandLine.read args a = .ok x → isTerminated args = false →
      CommandLine.read (args ++ b) a = CommandLine.read b x
  | [], a, accepted, _ => by
    unfold CommandLine.read at accepted
    cases accepted
    rfl
  | arg :: rest, a, accepted, unterminated => by
    rw [isTerminated_cons] at unterminated
    obtain ⟨goesOn, unterminated⟩ := Bool.or_eq_false_iff.mp unterminated
    have goesOn : arg ≠ terminator := of_decide_eq_false goesOn
    rw [read_cons goesOn] at accepted
    rw [List.cons_append, read_cons goesOn]
    cases single : readArgument arg a with
    | error f =>
      rw [single] at accepted
      cases accepted
    | ok result =>
      have waiting : result.isWaiting = awaitsValue arg := isWaiting_readArgument single
      rw [single] at accepted
      cases result with
      | done c =>
        rw [← waiting] at unterminated
        exact read_append b rest c accepted unterminated
      | awaits c name s =>
        rw [← waiting] at unterminated
        cases rest with
        | nil => cases accepted
        | cons v rest =>
          change c.assign s v >>= CommandLine.read rest = .ok x at accepted
          change c.assign s v >>= CommandLine.read (rest ++ b) = CommandLine.read b x
          cases assigned : c.assign s v with
          | error f =>
            rw [assigned] at accepted
            cases accepted
          | ok d =>
            rw [assigned] at accepted
            exact read_append b rest d accepted unterminated

/-- A list read behind one that is accepted, and that no terminator ends, gives what it gives alone: if it is
refused alone, the same fault, and else what it gives alone laid over what the first one gives. -/
theorem parse_append {first : List Bytes} {x : Arguments} (accepted : parse first = .ok x)
    (unterminated : isTerminated first = false) (later : List Bytes) :
    parse (first ++ later) = (parse later).map x.followedBy := by
  calc parse (first ++ later) = CommandLine.read later x := read_append later first .none accepted unterminated
    _ = CommandLine.read later (x.followedBy .none) := by rw [Arguments.followedBy_none]
    _ = (parse later).map x.followedBy := read_followedBy x later .none

namespace Sample

/-- A group of letters whose last option takes two dashes for its value, and a value behind an equals sign. -/
def first : List Bytes := ["-hc", "--", "--log-level=info"].map ascii

def given : Arguments := ⟨some "--", some "info", none, false, false, true⟩

theorem parse_first : parse first = .ok given := Settings.Sample.ok_of_toOption (by decide +kernel)

def fault? : Except Fault Arguments → Option Fault
  | .error f => some f
  | .ok _ => none

theorem error_of_fault? {result : Except Fault Arguments} {f : Fault} (fails : fault? result = some f) :
    result = .error f := by
  cases result with
  | error g =>
    cases fails
    rfl
  | ok a => cases fails

end Sample

/-- A later level counts, and a later fault is the fault of the whole. -/
theorem parse_append_sample :
    parse Sample.first = .ok Sample.given ∧ isTerminated Sample.first = false ∧
      parse (Sample.first ++ ["-Vl", "warn"].map ascii) = .ok ⟨some "--", some "warn", none, false, true, true⟩ ∧
      parse (Sample.first ++ ["-V", "-x"].map ascii) = .error (.unknownOption "-x") := by
  have unterminated : isTerminated Sample.first = false := by decide +kernel
  refine ⟨Sample.parse_first, unterminated, ?_, ?_⟩
  · have later : parse (["-Vl", "warn"].map ascii) = .ok ⟨none, some "warn", none, false, true, false⟩ :=
      Settings.Sample.ok_of_toOption (by decide +kernel)
    rw [parse_append Sample.parse_first unterminated, later]
    rfl
  · have later : parse (["-V", "-x"].map ascii) = .error (.unknownOption "-x") :=
      Sample.error_of_fault? (by decide +kernel)
    rw [parse_append Sample.parse_first unterminated, later]
    rfl

end SessionBroker.CommandLine
