import Mathlib.Data.List.Nodup
import Mathlib.Data.List.Perm.Subperm
import SessionBroker.Proofs.Precedence
import SessionBroker.Proofs.Readback

/-!
# Settings that are written to a file

A layout says which members stand in a file, section by section, and in which order. The compact text of a layout that
fits the chart is read as the members of the layout, each for itself. So settings are loaded from any layout of all
their members, and from a layout that leaves some of them out, those and no others are the standard ones.
-/

namespace SessionBroker.Settings

open Json Text

/-! ## Members -/

def Datum.kind : Datum → Datum.Kind
  | .text _ => .text
  | .truth _ => .truth
  | .natural _ => .natural

def Datum.toJson : Datum → Value
  | .text v => .string v
  | .truth v => .bool v
  | .natural v => .ofNat v

/-- A number that is small enough for a capacity, or no number. -/
def Datum.Bounded : Datum → Prop
  | .natural n => n < capacityBound
  | _ => True

/-- A value is read from its text, as one of its kind. -/
theorem Datum.scan_render {d : Datum} (bounded : d.Bounded) {rest : List Char} (closed : Scan.Closed rest) :
    d.kind.scan (d.toJson.render ++ rest) = .ok (d, rest) := by
  cases d with
  | text v => simp [kind, Kind.scan, toJson, Scan.text_render, Except.map]
  | truth v => simp [kind, Kind.scan, toJson, Scan.truth_render, Except.map]
  | natural n =>
    simp [kind, Kind.scan, toJson, Scan.natural_render bounded (Nat.le_refl _) closed, Except.map]

/-! ## Layouts -/

/-- The sections that stand in a file one after the other, each with the members that stand in it. -/
abbrev Layout := List (String × List (String × Datum))

namespace Layout

def members (ms : List (String × Datum)) : Value := .object (ms.map fun m => (m.1, m.2.toJson))

def toJson (l : Layout) : Value := .object (l.map fun p => (p.1, members p.2))

/-- The members of a layout in the order in which they stand. -/
def entries (l : Layout) : Outline := l.flatMap fun p => p.2.map fun m => ⟨p.1, m.1, m.2⟩

/-- A layout with no section and no member twice, in which all members are as the chart has them. -/
structure Fits (l : Layout) : Prop where
  sections : (l.map Prod.fst).Nodup
  members : ∀ p ∈ l, (p.2.map Prod.fst).Nodup
  charted : ∀ p ∈ l, ∃ kinds, Outline.chart.lookup p.1 = some kinds ∧
    ∀ m ∈ p.2, kinds.lookup m.1 = some m.2.kind ∧ m.2.Bounded

theorem mem_map_fst_of_lookup {α : Type} {pairs : List (String × α)} {key : String} {a : α}
    (found : pairs.lookup key = some a) : key ∈ pairs.map Prod.fst := by
  obtain ⟨before, after, rfl, -⟩ := List.lookup_eq_some_iff.mp found
  simp

/-- A member of a section, on top of what was read before. -/
def noting (concern : String) (m : String × Datum) (o : Outline) : Outline := ⟨concern, m.1, m.2⟩ :: o

/-- A section is read as its members, the last one on top. -/
theorem record_members {concern : String} {kinds : List (String × Datum.Kind)} {ms : List (String × Datum)}
    (distinct : (ms.map Prod.fst).Nodup) (charted : ∀ m ∈ ms, kinds.lookup m.1 = some m.2.kind ∧ m.2.Bounded)
    (o : Outline) (s : List Char) :
    Scan.record (Outline.concernFields concern kinds) o ((members ms).render ++ s) =
      .ok (ms.foldl (fun o m => noting concern m o) o, s) := by
  apply Scan.record_render Prod.fst (fun m => Datum.toJson m.2) (noting concern)
  · intro m here o rest closed
    obtain ⟨found, bounded⟩ := charted m here
    rw [Outline.concernFields_read found, Datum.scan_render bounded closed]
    rfl
  · intro m here
    exact mem_map_fst_of_lookup (charted m here).1
  · exact distinct
  · intro required
    cases required

/-- A layout that fits the chart is read as what stands in it. -/
theorem ofText_compress {l : Layout} (fits : l.Fits) : Outline.ofText l.toJson.compress = .ok l.entries.reverse := by
  let put (p : String × List (String × Datum)) (o : Outline) := p.2.foldl (fun o m => noting p.1 m o) o
  have read : Outline.ofText l.toJson.compress = .ok (l.foldl (fun o p => put p o) []) := by
    apply Scan.whole_record_compress Prod.fst (fun p => members p.2) put
    · intro p here o rest _
      obtain ⟨kinds, found, charted⟩ := fits.charted p here
      rw [Outline.fields_read found]
      exact record_members (fits.members p here) charted o rest
    · intro p here
      obtain ⟨kinds, found, -⟩ := fits.charted p here
      exact mem_map_fst_of_lookup found
    · exact fits.sections
    · intro required
      cases required
  have listed : l.entries.foldl (fun o e => e :: o) [] = l.entries.reverse := by
    rw [List.foldl_flip_cons_eq_append, List.append_nil, List.map_id']
  rw [read, ← listed, entries, List.foldl_flatMap]
  simp only [List.foldl_map, put, noting]

/-! ### Layouts of the same members -/

/-- Some sections and members of a layout, in any order. -/
structure Excerpt (part all : Layout) : Prop where
  sections : (part.map Prod.fst).Subperm (all.map Prod.fst)
  members : ∀ p ∈ part, ∃ q ∈ all, p.1 = q.1 ∧ p.2.Subperm q.2

/-- All sections and members of a layout, in any order. -/
structure Rearranged (part all : Layout) : Prop where
  sections : (part.map Prod.fst).Perm (all.map Prod.fst)
  members : ∀ p ∈ part, ∃ q ∈ all, p.1 = q.1 ∧ p.2.Perm q.2

/-- Whether a layout gives a member of a section. -/
def gives (l : Layout) (concern name : String) : Bool :=
  l.entries.any fun e => e.concern = concern ∧ e.name = name

theorem mem_entries {l : Layout} {e : Entry} :
    e ∈ l.entries ↔ ∃ p ∈ l, p.1 = e.concern ∧ (e.name, e.value) ∈ p.2 := by
  constructor
  · intro here
    obtain ⟨p, stands, inside⟩ := List.mem_flatMap.mp here
    obtain ⟨m, given, rfl⟩ := List.mem_map.mp inside
    exact ⟨p, stands, rfl, given⟩
  · rintro ⟨p, stands, same, given⟩
    apply List.mem_flatMap.mpr
    refine ⟨p, stands, List.mem_map.mpr ⟨_, given, ?_⟩⟩
    rw [same]

variable {part all : Layout}

theorem Rearranged.excerpt (rearranged : part.Rearranged all) : part.Excerpt all where
  sections := rearranged.sections.subperm
  members := by
    intro p here
    obtain ⟨q, there, same, perm⟩ := rearranged.members p here
    exact ⟨q, there, same, perm.subperm⟩

theorem Excerpt.fits (excerpt : part.Excerpt all) (fits : all.Fits) : part.Fits where
  sections := by
    obtain ⟨names, perm, sublist⟩ := excerpt.sections
    exact perm.nodup_iff.mp (fits.sections.sublist sublist)
  members := by
    intro p here
    obtain ⟨q, there, -, ms, perm, sublist⟩ := excerpt.members p here
    exact (perm.map Prod.fst).nodup_iff.mp ((fits.members q there).sublist (sublist.map Prod.fst))
  charted := by
    intro p here
    obtain ⟨q, there, same, members⟩ := excerpt.members p here
    obtain ⟨kinds, found, charted⟩ := fits.charted q there
    refine ⟨kinds, same ▸ found, ?_⟩
    intro m given
    exact charted m (members.subset given)

/-- What an excerpt says stands in the layout that it is of. -/
theorem Excerpt.mem_entries (excerpt : part.Excerpt all) {e : Entry} (here : e ∈ part.entries) : e ∈ all.entries := by
  obtain ⟨p, stands, concern, given⟩ := Layout.mem_entries.mp here
  obtain ⟨q, there, same, members⟩ := excerpt.members p stands
  exact Layout.mem_entries.mpr ⟨q, there, same ▸ concern, members.subset given⟩

theorem Rearranged.mem_entries (rearranged : part.Rearranged all) (distinct : (all.map Prod.fst).Nodup) {e : Entry}
    (there : e ∈ all.entries) : e ∈ part.entries := by
  obtain ⟨q, stands, concern, given⟩ := Layout.mem_entries.mp there
  obtain ⟨p, here, same⟩ := List.mem_map.mp (rearranged.sections.mem_iff.mpr (List.mem_map_of_mem stands))
  obtain ⟨q', stands', same', members⟩ := rearranged.members p here
  obtain rfl : q' = q := List.inj_on_of_nodup_map distinct stands' stands (same'.symm.trans same)
  exact Layout.mem_entries.mpr ⟨p, here, same.trans concern, members.mem_iff.mpr given⟩

end Layout

/-- An outline gives a member if one stands in it, and the value if it gives no other one. -/
theorem Outline.value?_eq {o : Outline} {concern name : String} {d : Datum}
    (agrees : ∀ e ∈ o, e.concern = concern → e.name = name → e.value = d) :
    o.value? concern name = if o.any (fun e => e.concern = concern ∧ e.name = name) then some d else none := by
  rw [Outline.value?]
  cases found : o.find? fun e => e.concern = concern ∧ e.name = name with
  | none =>
    rw [if_neg]
    · rfl
    · simpa using found
  | some e =>
    have here := List.mem_of_find?_eq_some found
    have same : e.concern = concern ∧ e.name = name := by simpa using List.find?_some found
    rw [if_pos, Option.map_some, agrees e here same.1 same.2]
    exact List.any_eq_true.mpr ⟨e, here, by simpa using same⟩

/-! ## The layout of settings -/

variable (s : Settings)

/-- The members of settings, section by section. -/
def layout : Layout :=
  [("execution", [("minimum_engine_version", .text s.minimumVersion), ("probe_after_execution", .truth s.probes)]),
    ("debugger", [("restart_read_loop_after_resume", .truth s.restartsLoop)]),
    ("events", [("capacity", .natural s.capacity)]),
    ("logging", [("level", .text s.level)])]

/-- What a layout gives of the settings; for the rest the standard ones. -/
def keeping (part : Layout) : Settings where
  minimumVersion :=
    if part.gives "execution" "minimum_engine_version" then s.minimumVersion else standard.minimumVersion
  probes := if part.gives "execution" "probe_after_execution" then s.probes else standard.probes
  restartsLoop :=
    if part.gives "debugger" "restart_read_loop_after_resume" then s.restartsLoop else standard.restartsLoop
  capacity := if part.gives "events" "capacity" then s.capacity else standard.capacity
  level := if part.gives "logging" "level" then s.level else standard.level

variable {s}

theorem layout_fits (bounded : s.capacity < capacityBound) : s.layout.Fits where
  sections := by simp [layout]
  members := by simp [layout]
  charted := by
    intro p here
    simp only [layout, List.mem_cons, List.not_mem_nil, or_false] at here
    rcases here with rfl | rfl | rfl | rfl
    · exact ⟨_, rfl, List.forall_mem_cons.mpr ⟨⟨rfl, trivial⟩, List.forall_mem_singleton.mpr ⟨rfl, trivial⟩⟩⟩
    · exact ⟨_, rfl, List.forall_mem_singleton.mpr ⟨rfl, trivial⟩⟩
    · exact ⟨_, rfl, List.forall_mem_singleton.mpr ⟨rfl, bounded⟩⟩
    · exact ⟨_, rfl, List.forall_mem_singleton.mpr ⟨rfl, trivial⟩⟩

/-- The document of settings is one of their members. -/
theorem exists_rearranged_toJson : ∃ part : Layout, part.Rearranged s.layout ∧ part.toJson = s.toJson := by
  refine ⟨[("debugger", [("restart_read_loop_after_resume", .truth s.restartsLoop)]),
    ("events", [("capacity", .natural s.capacity)]),
    ("execution", [("minimum_engine_version", .text s.minimumVersion), ("probe_after_execution", .truth s.probes)]),
    ("logging", [("level", .text s.level)])], ?_, rfl⟩
  constructor
  · change ["debugger", "events", "execution", "logging"].Perm ["execution", "debugger", "events", "logging"]
    decide
  · intro p here
    refine ⟨p, ?_, rfl, List.Perm.refl p.2⟩
    simp only [layout, List.mem_cons, List.not_mem_nil, or_false] at here ⊢
    tauto

variable {part : Layout}

/-- The members of settings that stand in an excerpt are taken from it. -/
theorem settings_excerpt (excerpt : part.Excerpt s.layout) :
    Outline.settings part.entries.reverse = s.keeping part := by
  have value (concern name : String) (d : Datum)
      (agrees : ∀ e ∈ s.layout.entries, e.concern = concern → e.name = name → e.value = d) :
      Outline.value? part.entries.reverse concern name = if part.gives concern name then some d else none := by
    rw [Outline.value?_eq (d := d), List.any_reverse, Layout.gives]
    intro e here
    exact agrees e (excerpt.mem_entries (List.mem_reverse.mp here))
  have version := value "execution" "minimum_engine_version" (.text s.minimumVersion) (by simp [layout, Layout.entries])
  have probes := value "execution" "probe_after_execution" (.truth s.probes) (by simp [layout, Layout.entries])
  have restarts := value "debugger" "restart_read_loop_after_resume" (.truth s.restartsLoop)
    (by simp [layout, Layout.entries])
  have capacity := value "events" "capacity" (.natural s.capacity) (by simp [layout, Layout.entries])
  have level := value "logging" "level" (.text s.level) (by simp [layout, Layout.entries])
  simp only [Outline.settings, Outline.text?, Outline.truth?, Outline.natural?, version, probes, restarts, capacity,
    level, keeping]
  congr 1 <;> split_ifs <;> rfl

theorem keeping_rearranged (rearranged : part.Rearranged s.layout) : s.keeping part = s := by
  have gives : ∀ e ∈ s.layout.entries, part.gives e.concern e.name = true := by
    intro e there
    have here := rearranged.mem_entries (by simp [layout]) there
    exact List.any_eq_true.mpr ⟨e, here, by simp⟩
  have version := gives ⟨"execution", "minimum_engine_version", .text s.minimumVersion⟩
    (by simp [layout, Layout.entries])
  have probes := gives ⟨"execution", "probe_after_execution", .truth s.probes⟩ (by simp [layout, Layout.entries])
  have restarts := gives ⟨"debugger", "restart_read_loop_after_resume", .truth s.restartsLoop⟩
    (by simp [layout, Layout.entries])
  have capacity := gives ⟨"events", "capacity", .natural s.capacity⟩ (by simp [layout, Layout.entries])
  have level := gives ⟨"logging", "level", .text s.level⟩ (by simp [layout, Layout.entries])
  rw [keeping, if_pos version, if_pos probes, if_pos restarts, if_pos capacity, if_pos level]

/-! ## Loading what is written -/

/-- The arguments that name a file and say nothing else. -/
def onlyFile (path : String) : CommandLine.Arguments := { CommandLine.Arguments.none with config := some path }

/-- A file with a layout that fits is loaded as the layout over the standard settings. -/
theorem load_fits (fits : part.Fits) {path : String} {files : Files}
    (stored : files path = .ok (Utf8.encode part.toJson.compress)) :
    load (onlyFile path) [] files = .ok (Outline.settings part.entries.reverse) := by
  have read : outline (onlyFile path) files = .ok part.entries.reverse := by
    simp [outline, onlyFile, stored, Utf8.strict?_encode, Layout.ofText_compress fits, Except.mapError]
  rw [load_eq, read]
  simp [Except.map, withEnvironment, withArguments, Environment.text?, onlyFile, CommandLine.Arguments.none]

theorem load_excerpt (bounded : s.capacity < capacityBound) (excerpt : part.Excerpt s.layout) {path : String}
    {files : Files} (stored : files path = .ok (Utf8.encode part.toJson.compress)) :
    load (onlyFile path) [] files = .ok (s.keeping part) := by
  rw [load_fits (excerpt.fits (layout_fits bounded)) stored, settings_excerpt excerpt]

/-- Settings are loaded from the file that they are written to, whatever order their sections and members stand in.
Where sections or members are left out of it, these are the standard ones, and all the others stay as they are. -/
theorem load_written (bounded : s.capacity < capacityBound) (path : String) (files : Files) :
    (files path = .ok (Utf8.encode s.toJson.compress) → load (onlyFile path) [] files = .ok s) ∧
      ∀ part : Layout, files path = .ok (Utf8.encode part.toJson.compress) →
        (part.Rearranged s.layout → load (onlyFile path) [] files = .ok s) ∧
        (part.Excerpt s.layout → load (onlyFile path) [] files = .ok (s.keeping part)) := by
  have rearranged {part : Layout} (rearranged : part.Rearranged s.layout)
      (stored : files path = .ok (Utf8.encode part.toJson.compress)) : load (onlyFile path) [] files = .ok s := by
    rw [load_excerpt bounded rearranged.excerpt stored, keeping_rearranged rearranged]
  constructor
  · intro stored
    obtain ⟨part, same, document⟩ := exists_rearranged_toJson (s := s)
    exact rearranged same (document ▸ stored)
  · intro part stored
    exact ⟨fun same => rearranged same stored, fun excerpt => load_excerpt bounded excerpt stored⟩

namespace Sample

/-- The oldest version is none, and the largest capacity is given. -/
def strange : Settings := ⟨"\"\\\n😀", false, false, 18446744073709551615, "\t"⟩

/-- Two sections in another order, without one of their members. -/
def abridged : Layout :=
  [("events", [("capacity", .natural 18446744073709551615)]),
    ("execution", [("minimum_engine_version", .text "\"\\\n😀")])]

theorem abridged_excerpt : abridged.Excerpt strange.layout where
  sections := by decide
  members := by decide

end Sample

theorem load_written_sample :
    Sample.strange.capacity < capacityBound ∧ Sample.abridged.Excerpt Sample.strange.layout ∧
      load (onlyFile "s.json") [] (fun _ => .ok (Utf8.encode Sample.abridged.toJson.compress)) =
        .ok ⟨"\"\\\n😀", true, true, 18446744073709551615, "info"⟩ := by
  have bounded : Sample.strange.capacity < capacityBound := by decide
  refine ⟨bounded, Sample.abridged_excerpt, ?_⟩
  exact ((load_written bounded "s.json" _).2 Sample.abridged rfl).2 Sample.abridged_excerpt

end SessionBroker.Settings
