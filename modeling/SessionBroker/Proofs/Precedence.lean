import SessionBroker.CommandLine.Settings

/-!
# Where each setting comes from

A settings file is first read for what it says alone: the outline of a file lists the members that
stand in it, each with its section and its value, and knows of no settings. The settings of a file
are its outline laid over the standard ones. From this the origin of each loaded setting is read off,
one setting at a time, and a version that the command line has accepted is one that a broker takes.
-/

namespace SessionBroker

open Text

namespace Json.Scan

/-! ## Reading into another record -/

section Images

variable {σ τ : Type}

/-- What is read, with the record replaced by its image. -/
def image (h : σ → τ) (result : Except Fault (σ × List Char)) : Except Fault (τ × List Char) :=
  result.map (Prod.map h id)

@[simp] theorem image_ok (h : σ → τ) (r : σ) (s : List Char) :
    image h (.ok (r, s)) = .ok (h r, s) := rfl

@[simp] theorem image_error (h : σ → τ) (e : Fault) : image h (.error e) = .error e := rfl

/-- What is read first is the same, so the image is taken of what is read after it. -/
theorem image_bind {α : Type} (h : σ → τ) (first : Except Fault α)
    (next : α → Except Fault (σ × List Char)) :
    image h (first >>= next) = first >>= fun a => image h (next a) := by
  cases first <;> rfl

/-- A scan of the image of a record goes on with the image of what the record becomes. -/
theorem image_bind_image {h : σ → τ} {first : Except Fault (σ × List Char)}
    {next : τ × List Char → Except Fault (τ × List Char)}
    {before : σ × List Char → Except Fault (σ × List Char)}
    (agree : ∀ r s, next (h r, s) = image h (before (r, s))) :
    (image h first >>= next) = image h (first >>= before) := by
  cases first with
  | error e => rfl
  | ok p => exact agree p.1 p.2

/-- `g` has the members of `f`, and reads each into the image of a record as `f` into the record. -/
structure Fields.Mirrors (h : σ → τ) (f : Fields σ) (g : Fields τ) : Prop where
  names : g.names = f.names
  required : g.required = f.required
  read : ∀ n ∈ f.names, ∀ r s, g.read n (h r) s = image h (f.read n r s)

variable {h : σ → τ} {f : Fields σ} {g : Fields τ}

theorem wrongType_image (h : σ → τ) (s : List Char) :
    (wrongType s : Except Fault (τ × List Char)) = image h (wrongType s) := by
  simp only [wrongType]
  split <;> (try split) <;> (try split) <;> rfl

theorem positional_image (mirrors : f.Mirrors h g) (names : List String)
    (known : ∀ n ∈ names, n ∈ f.names) (first : Bool) (r : σ) (s : List Char) :
    positional g names first (h r) s = image h (positional f names first r s) := by
  induction names generalizing first r s with
  | nil =>
    simp only [positional]
    split <;> rfl
  | cons n names ih =>
    simp only [positional, image_bind, mirrors.required]
    congr 1
    funext ⟨more, s⟩
    cases more with
    | false => cases f.required <;> rfl
    | true =>
      simp only [Bool.not_true, Bool.false_eq_true, if_false]
      rw [mirrors.read n (known n List.mem_cons_self)]
      exact image_bind_image fun r s => ih (fun m hm => known m (List.mem_cons_of_mem n hm)) false r s

theorem named_image (mirrors : f.Mirrors h g) (fuel : Nat) (first : Bool) (seen : List String)
    (r : σ) (s : List Char) :
    named g fuel first seen (h r) s = image h (named f fuel first seen r s) := by
  induction fuel generalizing first seen r s with
  | zero => rfl
  | succ fuel ih =>
    simp only [named, image_bind, mirrors.required, mirrors.names]
    congr 1
    funext ⟨more, s⟩
    cases more with
    | false => simp only [Bool.not_false, if_true]; split <;> rfl
    | true =>
      simp only [Bool.not_true, Bool.false_eq_true, if_false]
      split
      · rw [image_bind]
        congr 1
        funext ⟨n, s⟩
        simp only
        split
        next known =>
          split
          · rfl
          · rw [image_bind]
            refine bind_congr fun _ => ?_
            rw [mirrors.read n (List.contains_iff_mem.mp known)]
            exact image_bind_image fun r s => ih false (n :: seen) r s
        · simp only [image_bind, ih]
      · rfl

theorem record_image (mirrors : f.Mirrors h g) (r : σ) (s : List Char) :
    record g (h r) s = image h (record f r s) := by
  simp only [record]
  split
  · rw [mirrors.names]
    exact positional_image mirrors f.names (fun _ hn => hn) true r _
  · exact named_image mirrors _ true [] r _
  · exact wrongType_image h s

theorem whole_image {scan : Scan σ} {mirror : Scan τ} {s : List Char}
    (agree : mirror s = image h (scan s)) : whole mirror s = (whole scan s).map h := by
  simp only [whole, agree]
  cases scan s with
  | error e => rfl
  | ok p =>
    simp only [image, Except.map, bind, Except.bind, Prod.map, id]
    split <;> rfl

end Images

end Json.Scan

/-! ## The outline of a settings file -/

namespace Settings

/-- A value that may stand in a settings file. -/
inductive Datum where
  | text (v : String)
  | truth (v : Bool)
  | natural (v : Nat)
  deriving DecidableEq, Repr

inductive Datum.Kind where
  | text
  | truth
  | natural
  deriving DecidableEq, Repr

def Datum.Kind.scan : Datum.Kind → Json.Scan Datum
  | .text => fun s => (Json.Scan.text s).map fun (v, r) => (.text v, r)
  | .truth => fun s => (Json.Scan.truth s).map fun (v, r) => (.truth v, r)
  | .natural => fun s => (Json.Scan.natural capacityBound s).map fun (v, r) => (.natural v, r)

/-- A member that stands in a file. -/
structure Entry where
  concern : String
  name : String
  value : Datum
  deriving DecidableEq, Repr

/-- What stands in a file. -/
abbrev Outline := List Entry

namespace Outline

/-- The sections of a file, with the members of each and their kinds. -/
def chart : List (String × List (String × Datum.Kind)) :=
  [("execution", [("minimum_engine_version", .text), ("probe_after_execution", .truth)]),
    ("debugger", [("restart_read_loop_after_resume", .truth)]),
    ("events", [("capacity", .natural)]),
    ("logging", [("level", .text)])]

/-- Reads the members of one section, and notes each. -/
def concernFields (concern : String) (kinds : List (String × Datum.Kind)) :
    Json.Scan.Fields Outline where
  names := kinds.map (·.1)
  required := false
  read := fun name o input =>
    match kinds.lookup name with
    | none => .ok (o, input)
    | some kind => (kind.scan input).map fun (v, r) => (⟨concern, name, v⟩ :: o, r)

/-- Reads the sections, and notes their members. -/
def fields : Json.Scan.Fields Outline where
  names := chart.map (·.1)
  required := false
  read := fun name o input =>
    match chart.lookup name with
    | none => .ok (o, input)
    | some kinds => Json.Scan.record (concernFields name kinds) o input

/-- What stands in the file with the given text. -/
def ofText (s : String) : Except Json.Fault Outline :=
  Json.Scan.whole (Json.Scan.record fields []) s.toList

/-- The value that a file gives for a member of a section. -/
def value? (o : Outline) (concern name : String) : Option Datum :=
  (o.find? fun e => e.concern = concern ∧ e.name = name).map (·.value)

def text? (o : Outline) (concern name : String) : Option String :=
  match o.value? concern name with
  | some (.text v) => some v
  | _ => none

def truth? (o : Outline) (concern name : String) : Option Bool :=
  match o.value? concern name with
  | some (.truth v) => some v
  | _ => none

def natural? (o : Outline) (concern name : String) : Option Nat :=
  match o.value? concern name with
  | some (.natural v) => some v
  | _ => none

/-- The standard settings, with what a file gives in their place. -/
def settings (o : Outline) : Settings where
  minimumVersion := (o.text? "execution" "minimum_engine_version").getD standard.minimumVersion
  probes := (o.truth? "execution" "probe_after_execution").getD standard.probes
  restartsLoop := (o.truth? "debugger" "restart_read_loop_after_resume").getD standard.restartsLoop
  capacity := (o.natural? "events" "capacity").getD standard.capacity
  level := (o.text? "logging" "level").getD standard.level

@[simp] theorem value?_cons (e : Entry) (o : Outline) (concern name : String) :
    value? (e :: o) concern name =
      if e.concern = concern ∧ e.name = name then some e.value else o.value? concern name := by
  by_cases same : e.concern = concern ∧ e.name = name <;> simp [value?, same]

/-! ### An outline over the standard settings -/

@[simp] theorem settings_nil : settings [] = standard := rfl

@[simp] theorem settings_minimumVersion (v : String) (o : Outline) :
    settings (⟨"execution", "minimum_engine_version", .text v⟩ :: o) =
      { settings o with minimumVersion := v } := by
  simp [settings, text?, truth?, natural?]

@[simp] theorem settings_probes (v : Bool) (o : Outline) :
    settings (⟨"execution", "probe_after_execution", .truth v⟩ :: o) =
      { settings o with probes := v } := by
  simp [settings, text?, truth?, natural?]

@[simp] theorem settings_restartsLoop (v : Bool) (o : Outline) :
    settings (⟨"debugger", "restart_read_loop_after_resume", .truth v⟩ :: o) =
      { settings o with restartsLoop := v } := by
  simp [settings, text?, truth?, natural?]

@[simp] theorem settings_capacity (v : Nat) (o : Outline) :
    settings (⟨"events", "capacity", .natural v⟩ :: o) = { settings o with capacity := v } := by
  simp [settings, text?, truth?, natural?]

@[simp] theorem settings_level (v : String) (o : Outline) :
    settings (⟨"logging", "level", .text v⟩ :: o) = { settings o with level := v } := by
  simp [settings, text?, truth?, natural?]

/-- A member of the chart is read by its kind, and noted. -/
theorem concernFields_read {kinds : List (String × Datum.Kind)} {name : String} {kind : Datum.Kind}
    (charted : kinds.lookup name = some kind) (concern : String) (o : Outline) (s : List Char) :
    (concernFields concern kinds).read name o s =
      (kind.scan s).map fun p => (⟨concern, name, p.1⟩ :: o, p.2) := by
  simp [concernFields, charted]

theorem execution_mirrors {kinds : List (String × Datum.Kind)}
    (charted : chart.lookup "execution" = some kinds) :
    (concernFields "execution" kinds).Mirrors settings executionFields := by
  obtain rfl : kinds = _ := (Option.some.inj charted).symm
  refine ⟨rfl, rfl, fun n known o s => ?_⟩
  obtain rfl | rfl : n = "minimum_engine_version" ∨ n = "probe_after_execution" := by
    simpa [concernFields] using known
  · rw [concernFields_read rfl]
    simp only [executionFields, Datum.Kind.scan]
    cases Json.Scan.text s <;> simp [Except.map]
  · rw [concernFields_read rfl]
    simp only [executionFields, Datum.Kind.scan]
    cases Json.Scan.truth s <;> simp [Except.map]

theorem debugger_mirrors {kinds : List (String × Datum.Kind)}
    (charted : chart.lookup "debugger" = some kinds) :
    (concernFields "debugger" kinds).Mirrors settings debuggerFields := by
  obtain rfl : kinds = _ := (Option.some.inj charted).symm
  refine ⟨rfl, rfl, fun n known o s => ?_⟩
  obtain rfl : n = "restart_read_loop_after_resume" := by simpa [concernFields] using known
  rw [concernFields_read rfl]
  simp only [debuggerFields, Datum.Kind.scan]
  cases Json.Scan.truth s <;> simp [Except.map]

theorem events_mirrors {kinds : List (String × Datum.Kind)}
    (charted : chart.lookup "events" = some kinds) :
    (concernFields "events" kinds).Mirrors settings eventsFields := by
  obtain rfl : kinds = _ := (Option.some.inj charted).symm
  refine ⟨rfl, rfl, fun n known o s => ?_⟩
  obtain rfl : n = "capacity" := by simpa [concernFields] using known
  rw [concernFields_read rfl]
  simp only [eventsFields, Datum.Kind.scan]
  cases Json.Scan.natural capacityBound s <;> simp [Except.map]

theorem logging_mirrors {kinds : List (String × Datum.Kind)}
    (charted : chart.lookup "logging" = some kinds) :
    (concernFields "logging" kinds).Mirrors settings loggingFields := by
  obtain rfl : kinds = _ := (Option.some.inj charted).symm
  refine ⟨rfl, rfl, fun n known o s => ?_⟩
  obtain rfl : n = "level" := by simpa [concernFields] using known
  rw [concernFields_read rfl]
  simp only [loggingFields, Datum.Kind.scan]
  cases Json.Scan.text s <;> simp [Except.map]

/-- A section of the chart is read as a record of its members. -/
theorem fields_read {name : String} {kinds : List (String × Datum.Kind)}
    (charted : chart.lookup name = some kinds) (o : Outline) (s : List Char) :
    fields.read name o s = Json.Scan.record (concernFields name kinds) o s := by
  simp [fields, charted]

theorem fields_mirrors : fields.Mirrors settings Settings.fields := by
  refine ⟨rfl, rfl, fun n known o s => ?_⟩
  obtain rfl | rfl | rfl | rfl :
      n = "execution" ∨ n = "debugger" ∨ n = "events" ∨ n = "logging" := by
    simpa [fields, chart] using known
  · rw [fields_read rfl]
    exact Json.Scan.record_image (execution_mirrors rfl) o s
  · rw [fields_read rfl]
    exact Json.Scan.record_image (debugger_mirrors rfl) o s
  · rw [fields_read rfl]
    exact Json.Scan.record_image (events_mirrors rfl) o s
  · rw [fields_read rfl]
    exact Json.Scan.record_image (logging_mirrors rfl) o s

/-- A file loads if it has an outline, and its settings are the outline over the standard ones. -/
theorem settings_ofText (s : String) : Settings.ofText s = (ofText s).map settings :=
  Json.Scan.whole_image (Json.Scan.record_image fields_mirrors [] s.toList)

end Outline

/-- What the file that a command line names says; nothing if it names none. -/
def outline (a : CommandLine.Arguments) (files : Files) : Except LoadFault Outline :=
  match a.config with
  | none => .ok []
  | some path =>
    match files path with
    | .error f => .error (.unreadable f)
    | .ok bytes =>
      match Utf8.strict? bytes with
      | none => .error .notText
      | some s => (Outline.ofText s).mapError .document

/-- What is loaded is the outline of the file over the standard settings, with what the environment
and the command line say in their places. -/
theorem load_eq (a : CommandLine.Arguments) (env : Environment) (files : Files) :
    load a env files =
      (outline a files).map fun o => (o.settings.withEnvironment env).withArguments a := by
  simp only [load, outline]
  cases a.config with
  | none => rfl
  | some path =>
    simp only [ofFile]
    cases files path with
    | error f => rfl
    | ok bytes =>
      dsimp only
      cases Utf8.strict? bytes with
      | none => rfl
      | some s =>
        dsimp only
        rw [Outline.settings_ofText]
        cases Outline.ofText s <;> rfl

end Settings

/-! ## The oldest version that a command line gives -/

namespace CommandLine

/-- The version that arguments give, if any, is a version. -/
def Arguments.Versioned (a : Arguments) : Prop :=
  ∀ v, a.minimumVersion = some v → (Version.parse? v).isSome

theorem Arguments.Versioned.raise {a : Arguments} (versioned : a.Versioned) (f : Flag) :
    (a.raise f).Versioned := by
  cases f <;> exact versioned

theorem Arguments.Versioned.assign {a b : Arguments} (versioned : a.Versioned) {s : Setting}
    {value : Bytes} (assigned : a.assign s value = .ok b) : b.Versioned := by
  simp only [Arguments.assign] at assigned
  split at assigned
  · cases assigned
  · cases s with
    | config => cases assigned; exact versioned
    | logLevel => cases assigned; exact versioned
    | minimumVersion =>
      simp only at assigned
      split at assigned
      next v _ isVersion =>
        cases assigned
        rintro _ ⟨⟩
        exact isVersion
      · cases assigned

/-- The arguments that letters lead to, whether or not a value is still to come. -/
def ClusterEnd.arguments : ClusterEnd → Arguments
  | .done a => a
  | .awaits a _ _ => a

/-- The value of an option in a group of letters is its last part. -/
theorem Arguments.Versioned.done {a : Arguments} (versioned : a.Versioned) {s : Setting}
    {value : Bytes} {result : ClusterEnd} (read : (a.assign s value).map .done = .ok result) :
    result.arguments.Versioned := by
  cases assigned : a.assign s value with
  | error f => simp [assigned, Except.map] at read
  | ok b =>
    obtain rfl : ClusterEnd.done b = result := by simpa [assigned, Except.map] using read
    exact versioned.assign assigned

/-- What is read after the value of an option starts from arguments with that value. -/
theorem Arguments.Versioned.bind {a b : Arguments} (versioned : a.Versioned) {s : Setting}
    {value : Bytes} {next : Arguments → Except Fault Arguments}
    (keeps : ∀ c : Arguments, c.Versioned → next c = .ok b → b.Versioned)
    (accepted : a.assign s value >>= next = .ok b) : b.Versioned := by
  cases assigned : a.assign s value with
  | error f => simp [assigned, Bind.bind, Except.bind] at accepted
  | ok c =>
    rw [assigned] at accepted
    exact keeps c (versioned.assign assigned) accepted

theorem versioned_readLetters {last : Option Char} {ps : List Utf8.Piece} {a : Arguments}
    {result : ClusterEnd} (versioned : a.Versioned) (accepted : readLetters last ps a = .ok result) :
    result.arguments.Versioned := by
  fun_induction readLetters last ps a with
  | case1 => cases accepted; exact versioned
  | case2 => cases accepted
  | case3 => cases accepted
  | case4 => rename_i ih; exact ih (versioned.raise _) accepted
  | case5 => cases accepted; exact versioned
  | case6 => exact versioned.done accepted
  | case7 => exact versioned.done accepted

/-- Whatever way an option is written, its value is checked before it is taken. -/
theorem versioned_read {args : List Bytes} {a b : Arguments} (versioned : a.Versioned)
    (accepted : read args a = .ok b) : b.Versioned := by
  fun_induction read args a with
  | case1 => cases accepted; exact versioned
  | case2 => cases accepted
  | case3 => cases accepted; exact versioned
  | case4 => cases accepted
  | case5 => cases accepted
  | case6 => cases accepted
  | case7 => rename_i ih; exact ih (versioned.raise _) accepted
  | case8 => rename_i ih; exact versioned.bind ih accepted
  | case9 => cases accepted
  | case10 => rename_i ih; exact versioned.bind ih accepted
  | case11 => cases accepted
  | case12 => rename_i letters ih; exact ih (versioned_readLetters versioned letters) accepted
  | case13 => cases accepted
  | case14 =>
    rename_i letters _ _ ih
    exact (versioned_readLetters versioned letters).bind ih accepted

theorem versioned_parse {args : List Bytes} {a : Arguments} (accepted : parse args = .ok a) :
    a.Versioned :=
  versioned_read (by rintro v ⟨⟩) accepted

end CommandLine

namespace Settings

/-! ## The origin of each setting -/

/-- The first of several sources that gives a value; the standard value if none does. -/
def highest {α : Type} (sources : List (Option α)) (otherwise : α) : α :=
  (sources.findSome? id).getD otherwise

@[simp] theorem highest_nil {α : Type} (otherwise : α) : highest [] otherwise = otherwise := rfl

@[simp] theorem highest_cons {α : Type} (source : Option α) (sources : List (Option α))
    (otherwise : α) :
    highest (source :: sources) otherwise = source.getD (highest sources otherwise) := by
  cases source <;> rfl

/-- An empty text counts as none. -/
theorem filter_isEmpty (value : Option String) :
    value.filter (!·.isEmpty) = value.filter (· ≠ "") := by
  congr 1
  funext v
  rw [Bool.eq_iff_iff]
  simp

/-- Each setting is what the highest source says that says anything of it: the command line, then the
environment, then the file, then the standard settings. A setting depends on no other one, and a
version that the command line has accepted is the one that a broker gets, whatever the rest says. -/
theorem load_takes_highest {args : List Bytes} {a : CommandLine.Arguments} {env : Environment}
    {files : Files} {s : Settings} (accepted : CommandLine.parse args = .ok a)
    (loaded : load a env files = .ok s) :
    ∃ o, outline a files = .ok o ∧
      s.level = highest [a.logLevel, env.text? "RUNSPACE_COORDINATOR_LOG_LEVEL",
        env.text? "RUST_LOG", o.text? "logging" "level"] "info" ∧
      s.minimumVersion = highest [a.minimumVersion,
        (env.text? "RUNSPACE_COORDINATOR_MIN_ENGINE_VERSION").filter (· ≠ ""),
        o.text? "execution" "minimum_engine_version"] "5.1" ∧
      s.probes = (highest [o.truth? "execution" "probe_after_execution"] true && !a.noProbe) ∧
      s.restartsLoop = highest [o.truth? "debugger" "restart_read_loop_after_resume"] true ∧
      s.capacity = highest [o.natural? "events" "capacity"] 256 ∧
      ∀ v, a.minimumVersion = some v → ∃ version, Version.parse? v = some version ∧
        s.broker? = some ⟨version, s.probes, s.restartsLoop, s.capacity⟩ := by
  rw [load_eq] at loaded
  cases read : outline a files with
  | error f => simp [read, Except.map] at loaded
  | ok o =>
    obtain rfl : (o.settings.withEnvironment env).withArguments a = s := by
      simpa [read, Except.map] using loaded
    refine ⟨o, rfl, ?_, ?_, ?_, ?_, ?_, fun v given => ?_⟩
    · simp [withArguments, withEnvironment, Outline.settings, standard, Option.getD_or]
    · simp [withArguments, withEnvironment, Outline.settings, standard, filter_isEmpty]
    · simp [withArguments, withEnvironment, Outline.settings, standard]
    · simp [withArguments, withEnvironment, Outline.settings, standard]
    · simp [withArguments, withEnvironment, Outline.settings, standard]
    · obtain ⟨version, isVersion⟩ := Option.isSome_iff_exists.mp (CommandLine.versioned_parse accepted v given)
      refine ⟨version, isVersion, ?_⟩
      simp [broker?, withArguments, given, isVersion]

/-! ### An empty variable, and a version over a file that has none -/

namespace Sample

def arguments : List Bytes :=
  ["--config", "s.json", "--no-probe", "--min-engine-version=6.2"].map CommandLine.ascii

def accepted : CommandLine.Arguments := ⟨some "s.json", none, some "6.2", true, false, false⟩

def environment : Environment :=
  [("RUST_LOG", CommandLine.ascii "warn"), ("RUNSPACE_COORDINATOR_LOG_LEVEL", [])]

/-- The version in the file is none, and one section is given as a list. -/
def files : Files := fun _ => .ok (CommandLine.ascii
  "\x7b\"execution\": \x7b\"minimum_engine_version\": \"none\"\x7d, \"events\": [64]\x7d")

def loaded : Settings := ⟨"6.2", false, true, 64, ""⟩

theorem ok_of_toOption {ε α : Type} {result : Except ε α} {a : α}
    (succeeds : result.toOption = some a) : result = .ok a := by
  cases result with
  | error e => cases succeeds
  | ok b => cases succeeds; rfl

theorem parse_arguments : CommandLine.parse arguments = .ok accepted :=
  ok_of_toOption (by decide +kernel)

theorem load_files : load accepted environment files = .ok loaded :=
  ok_of_toOption (by decide +kernel)

end Sample

theorem load_takes_highest_sample :
    CommandLine.parse Sample.arguments = .ok Sample.accepted ∧
      load Sample.accepted Sample.environment Sample.files = .ok Sample.loaded ∧
      Sample.loaded.level = "" ∧ Sample.loaded.broker? = some ⟨⟨6, 2⟩, false, true, 64⟩ := by
  refine ⟨Sample.parse_arguments, Sample.load_files, rfl, ?_⟩
  obtain ⟨_, _, _, _, _, _, _, taken⟩ := load_takes_highest Sample.parse_arguments Sample.load_files
  obtain ⟨version, parsed, broker⟩ := taken "6.2" rfl
  obtain rfl : version = ⟨6, 2⟩ := Option.some.inj (parsed.symm.trans (by decide +kernel))
  exact broker

end Settings

end SessionBroker
