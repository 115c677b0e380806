import Mathlib.Data.List.Perm.Basic
import SessionBroker.Proofs.Readback
import SessionBroker.Proofs.Registration
import SessionBroker.Proofs.Ways

/-!
# What is made of the answer to a probe

An engine that is asked who it is answers with an object, and whoever reads the output finds the identity that the
engine had. He also finds it if the object comes as its compact text, whatever else is put out before it, and whatever
follows it that could not be an answer.
-/

namespace SessionBroker

open Json

namespace Identity

variable (d : Identity)

/-- The members of the object that stands for an identity. -/
def members : List (String × Value) :=
  [("processId", .ofNat d.process.toNat), ("instanceId", .string d.instanceName), ("machineName", .string d.machine)]

/-- An identity with one member taken over. -/
def taking (r : Identity) (m : String × Value) : Identity :=
  if m.1 = "processId" then { r with process := d.process }
  else if m.1 = "instanceId" then { r with instanceName := d.instanceName }
  else { r with machine := d.machine }

/-- The object that stands for an identity, or a string that holds its text with the members in some order. -/
inductive Answer : Value → Prop where
  | object : Answer d.toJson
  | text {ms : List (String × Value)} : ms.Perm d.members → Answer (.string (Value.object ms).compress)

variable {d}

theorem ofJson?_toJson : ofJson? d.toJson = some d := by
  have small : ¬UInt32.size ≤ d.process.toNat := Nat.not_le.mpr d.process.toNat_lt
  simp [ofJson?, toJson, Value.get?, Value.ofNat, small]

/-- Each member of an identity is read into the record. -/
theorem fields_reads {m : String × Value} (here : m ∈ d.members) :
    fields.Reads m.1 m.2 (fun r => d.taking r m) := by
  intro r rest closed
  simp only [members, List.mem_cons, List.not_mem_nil, or_false] at here
  rcases here with rfl | rfl | rfl
  · have read := Scan.natural_render d.process.toNat_lt (by decide : UInt32.size ≤ UInt64.size) closed
    simp [fields, taking, read, Except.map]
  · simp [fields, taking, Scan.text_render, Except.map]
  · simp [fields, taking, Scan.text_render, Except.map]

theorem foldl_taking {ms : List (String × Value)} (perm : ms.Perm d.members) (r : Identity) :
    ms.foldl d.taking r = d := by
  have commutes : RightCommutative d.taking := by
    constructor
    intro r m m'
    unfold taking
    split_ifs <;> rfl
  rw [perm.foldl_eq]
  rfl

/-- An identity is read from the text of its object, whatever order the members stand in. -/
theorem ofText?_compress {ms : List (String × Value)} (perm : ms.Perm d.members) :
    ofText? (Value.object ms).compress = some d := by
  have names : (ms.map Prod.fst).Perm fields.names := perm.map Prod.fst
  have read : Scan.whole (Scan.record fields ⟨0, "", ""⟩) (Value.object ms).compress.toList =
      .ok (ms.foldl d.taking ⟨0, "", ""⟩) := by
    have all := Scan.whole_record_compress Prod.fst Prod.snd (fun m r => d.taking r m)
      (fun m here => fields_reads (perm.mem_iff.mp here)) (fun m here => names.mem_iff.mp (List.mem_map_of_mem here))
      (names.nodup_iff.mpr (by decide)) (fun _ n here => names.mem_iff.mpr here) ⟨0, "", ""⟩
    simpa using all
  rw [ofText?, read, foldl_taking perm]
  rfl

/-- A value that cannot be the answer to a probe. -/
def NoAnswer (v : Value) : Prop := v.isObject = false ∧ v.isString = false

/-- The last value that could be an answer counts. -/
theorem ofProbe_append {before after : List Value} {v : Value} (answer : (v.isObject || v.isString) = true)
    (ignored : ∀ x ∈ after, NoAnswer x) : ofProbe (before ++ v :: after) = ofProbe [v] := by
  have passed : after.reverse.find? (fun v => v.isObject || v.isString) = none := by
    rw [List.find?_eq_none]
    intro x here
    have nothing := ignored x (List.mem_reverse.mp here)
    simp [nothing.1, nothing.2]
  have found : (before ++ v :: after).reverse.find? (fun v => v.isObject || v.isString) = some v := by
    rw [List.reverse_append, List.reverse_cons, List.find?_append, List.find?_append, passed]
    simp [answer]
  have alone : [v].reverse.find? (fun v => v.isObject || v.isString) = some v := by
    simp [answer]
  rw [ofProbe, ofProbe, found, alone]

theorem ofProbe_object {ms : List (String × Value)} (read : ofJson? (.object ms) = some d) :
    ofProbe [.object ms] = .ok d := by
  simp [ofProbe, Value.isObject, read]

theorem ofProbe_string {s : String} (read : ofText? s = some d) : ofProbe [.string s] = .ok d := by
  simp [ofProbe, Value.isString, read]

theorem ofProbe_answer (before : List Value) {v : Value} (answer : d.Answer v) {after : List Value}
    (ignored : ∀ x ∈ after, NoAnswer x) : ofProbe (before ++ v :: after) = .ok d := by
  cases answer with
  | object =>
    rw [ofProbe_append rfl ignored]
    exact ofProbe_object ofJson?_toJson
  | text perm =>
    rw [ofProbe_append rfl ignored]
    exact ofProbe_string (ofText?_compress perm)

end Identity

/-! ## On the engine -/

/-- What an engine does when it is asked who it is. -/
theorem Engines.run_probe {e : EngineName} {c : Command} (probe : c.isProbe = true) : Engines.run e c = (do
    let held : Bool ← Code.engine e .takeProbeHold
    Program.onlyIf held (Engines.awaitRelease e)
    let identity : Identity ← Code.engine e .identity
    return .ok (.ofOutput [identity.toJson])) := by
  rw [Engines.run, if_pos probe]
  congr 1
  funext held
  cases held <;> rfl

namespace Registration

variable {flow : Nat} {w : World} {e : EngineName} {p q : Endpoint}

theorem acts_engine (flow : Nat) (op : EngineOp) {r : op.Reply} (here : w.endpoint? e = some p)
    (performed : p.perform op = some (r, q)) : ∃ u, Acts flow (.engine e op) w r u ∧ u.endpoint? e = some q := by
  have acted : ∃ u, w.performEngine e op = some (r, u) ∧
      u.endpoint? e = (w.modifyEndpoint e fun _ => q).endpoint? e := by
    unfold World.performEngine
    rw [here]
    simp only [performed, Option.map_some]
    cases op <;> exact ⟨_, rfl, rfl⟩
  obtain ⟨u, acted, there⟩ := acted
  refine ⟨u, ⟨false, acted⟩, ?_⟩
  rw [there, World.endpoint?_modifyEndpoint, here]
  simp

/-- A probe that is held back goes on if it has been released already. -/
theorem does_hold (flow : Nat) (here : w.endpoint? e = some p) {held : Bool}
    (passes : held = true → p.engine.released = true) :
    ∃ u q, Alone flow (Program.onlyIf held (Engines.awaitRelease e)) w () u ∧ u.endpoint? e = some q ∧
      q.engine.identity = p.engine.identity := by
  cases held with
  | false => exact ⟨w, p, .done _ _, here, rfl⟩
  | true =>
    obtain ⟨v, waits, here⟩ := acts_engine flow .beginWait (q := p.map Engine.beginWait) here rfl
    have ends : ∃ q, (p.map Engine.beginWait).perform .endHold = some ((), q) ∧
        q.engine.identity = p.engine.identity := by
      simp [Endpoint.perform, Endpoint.map, Engine.endHold?, Engine.beginWait, passes rfl]
    obtain ⟨q, ends, same⟩ := ends
    obtain ⟨u, ends, there⟩ := acts_engine flow _ here ends
    exact ⟨u, q, .act waits (.act ends (.done _ _)), there, same⟩

/-- An engine that is asked who it is tells it, unless it holds the probe back. -/
theorem does_run (flow : Nat) {c : Command} (probe : c.isProbe = true) (here : w.endpoint? e = some p)
    (passes : p.engine.holdNextProbe = true → p.engine.released = true) :
    ∃ u q, Alone flow (Engines.run e c) w (.ok (.ofOutput [p.engine.identity.toJson])) u ∧
      u.endpoint? e = some q := by
  obtain ⟨v, taken, here⟩ := acts_engine flow .takeProbeHold
    (q := p.map ({ · with holdNextProbe := false })) here rfl
  obtain ⟨x, q, released, here, same⟩ := does_hold flow here passes
  obtain ⟨u, told, there⟩ := acts_engine flow .identity here rfl
  rw [same] at told
  refine ⟨u, q, ?_, there⟩
  rw [Engines.run_probe probe]
  exact .perform taken (.bind released (.perform told (.done _ _)))

/-- An open engine answers a probe with its identity. -/
theorem does_probed (flow : Nat) {c : Command} (probe : c.isProbe = true) (here : w.endpoint? e = some p)
    (opened : p.engine.closed = false) (passes : p.engine.holdNextProbe = true → p.engine.released = true)
    (merge nested : Bool) : ∃ u,
      Alone flow (body (.invoke e c merge nested)) w (.ok (.ofOutput [p.engine.identity.toJson])) u := by
  have enters : ∃ q, p.perform .enter = some (.ok (), q) ∧ q.engine.identity = p.engine.identity ∧
      q.engine.holdNextProbe = p.engine.holdNextProbe ∧ q.engine.released = p.engine.released := by
    simp [Endpoint.perform, Engine.enter, opened]
  obtain ⟨q, enters, identity, hold, released⟩ := enters
  obtain ⟨v, entered, here⟩ := acts_engine flow _ here enters
  rw [← hold, ← released] at passes
  obtain ⟨x, q', ran, here⟩ := does_run flow probe here passes
  obtain ⟨u, left, -⟩ := acts_engine flow .leave here rfl
  rw [identity] at ran
  refine ⟨u, .perform entered (.bind ran (.perform left ?_))⟩
  cases merge with
  | false => exact .done _ _
  | true => exact .done _ _

/-- So the broker is answered when it asks the engine, unless somebody answers in its stead. -/
theorem does_asked (flow : Nat) (here : w.endpoint? e = some p) (opened : p.engine.closed = false)
    (passes : p.engine.holdNextProbe = true → p.engine.released = true) (own : p.probeOutput = none) :
    ∃ u, Alone flow (SessionChanges.probe e false) w (.ok [p.engine.identity.toJson]) u := by
  have arrives : p.perform (.arrive .probe false true) = some (none, p) := by
    simp [Endpoint.perform, own]
  obtain ⟨v, arrived, here⟩ := acts_engine flow _ here arrives
  obtain ⟨u, answered⟩ := does_probed flow Command.isProbe_probe here opened passes false true
  exact ⟨u, .perform arrived (.call answered (.done _ _))⟩

end Registration

/-! ## In any course of things -/

/-- Among some deeds an engine was asked for its identity, and had this one. -/
def Asked (ds : List (Deed brokerInterface World)) (e : EngineName) (d : Identity) : Prop :=
  ∃ a, .act a ∈ ds ∧ a.action = .engine e .identity ∧ ∃ p, a.before.endpoint? e = some p ∧ p.engine.identity = d

theorem performEngine_identity {w u : World} {e : EngineName} {d : Identity}
    (performed : w.performEngine e .identity = some (d, u)) : ∃ p, w.endpoint? e = some p ∧ p.engine.identity = d := by
  unfold World.performEngine at performed
  split at performed
  · cases performed
  · next p here =>
    cases performed
    exact ⟨p, here, rfl⟩

section Comes

variable {flow : Nat} {who : Proc} {e : EngineName} {c : Command} {ds : List (Deed brokerInterface World)}

theorem comes_asked (probe : c.isProbe = true) : (Engines.run e c).Comes brokerMachine flow who
    (fun ds r => ∃ d, r = .ok (.ofOutput [d.toJson]) ∧ Asked ds e d) ds := by
  rw [Engines.run_probe probe]
  refine Program.comes_perform fun _ held _ _ _ => ?_
  refine Program.comes_after fun ds _ => ?_
  refine Program.comes_perform fun pick d w u told => ?_
  obtain ⟨p, here, same⟩ := performEngine_identity told
  exact ⟨d, rfl, _, List.mem_cons_self, rfl, p, here, same⟩

/-- Whoever else is at work, the output of a probe is the identity that the engine had when it was asked. -/
theorem comes_probed (probe : c.isProbe = true) (merge nested : Bool) :
    (body (.invoke e c merge nested)).Comes brokerMachine flow who
      (fun ds r => ∀ i, r = .ok i → ∃ d, i.output = [d.toJson] ∧ Asked ds e d) ds := by
  refine Program.comes_perform fun _ entered _ _ _ => ?_
  cases entered with
  | error f =>
    intro i ran
    cases ran
  | ok _ =>
    refine (comes_asked probe).bind ?_
    rintro ds r ⟨d, rfl, a, here, asked, had⟩
    refine Program.comes_perform fun _ _ _ _ _ => ?_
    intro i ran
    have output : i.output = [d.toJson] := by
      cases merge <;> cases ran <;> rfl
    exact ⟨d, output, a, List.mem_cons_of_mem _ here, asked, had⟩

end Comes

/-- The identity of an engine is found in what it puts out when it is asked who it is, and so the broker finds it when
it asks. It is found wherever its object stands in an output, or the text of its object, if nothing that could be an
answer follows. -/
theorem identity_read_back (d : Identity) :
    (∀ flow w e p, w.endpoint? e = some p → p.engine.identity = d → p.engine.closed = false →
      (p.engine.holdNextProbe = true → p.engine.released = true) →
        (∀ c merge nested, c.isProbe = true → ∃ i u,
          Registration.Alone flow (body (.invoke e c merge nested)) w (.ok i) u ∧ Identity.ofProbe i.output = .ok d) ∧
        (p.probeOutput = none → ∃ output u,
          Registration.Alone flow (SessionChanges.probe e false) w (.ok output) u ∧
            Identity.ofProbe output = .ok d)) ∧
      (∀ flow who e c merge nested, c.isProbe = true → (body (.invoke e c merge nested)).Comes brokerMachine flow who
        (fun ds r => ∀ i, r = .ok i → ∃ d, Asked ds e d ∧ Identity.ofProbe i.output = .ok d) []) ∧
      ∀ v, d.Answer v → ∀ before after, (∀ x ∈ after, Identity.NoAnswer x) →
        Identity.ofProbe (before ++ v :: after) = .ok d := by
  have read (d : Identity) : Identity.ofProbe [d.toJson] = .ok d :=
    Identity.ofProbe_answer [] .object (List.forall_mem_nil _)
  refine ⟨?alone, ?beset, fun v answer before after ignored => Identity.ofProbe_answer before answer ignored⟩
  case alone =>
    rintro flow w e p here rfl opened passes
    constructor
    · intro c merge nested probe
      obtain ⟨u, does⟩ := Registration.does_probed flow probe here opened passes merge nested
      exact ⟨_, u, does, read _⟩
    · intro nothing
      obtain ⟨u, does⟩ := Registration.does_asked flow here opened passes nothing
      exact ⟨_, u, does, read _⟩
  case beset =>
    intro flow who e c merge nested probe
    refine (comes_probed probe merge nested).imp ?_
    intro ds r told i ran
    obtain ⟨d, output, asked⟩ := told i ran
    exact ⟨d, asked, output ▸ read d⟩

namespace Identity.Sample

def strange : Identity := ⟨4294967295, "\"\\\n", "😀"⟩

/-- An engine that has been released from a hold that is still to come. -/
def world : World :=
  .new .standard [("main", ⟨{ Engine.new ⟨7, 4⟩ strange [] with holdNextProbe := true, released := true },
    false, none, none⟩)] "main" .new

end Identity.Sample

theorem identity_read_back_sample :
    (∃ i u, Registration.Alone 0 (body (.invoke "main" .probe false true)) Identity.Sample.world (.ok i) u ∧
      Identity.ofProbe i.output = .ok Identity.Sample.strange) ∧
    Identity.ofProbe [.string "\x7b", .string (Value.object Identity.Sample.strange.members.reverse).compress,
      .null, .ofNat 3] = .ok Identity.Sample.strange := by
  obtain ⟨alone, -, read⟩ := identity_read_back Identity.Sample.strange
  constructor
  · exact (alone 0 Identity.Sample.world "main" _ rfl rfl rfl (fun _ => rfl)).1 .probe false true
      Command.isProbe_probe
  · exact read _ (.text (List.reverse_perm _)) [.string "\x7b"] [.null, .ofNat 3] (by
      simp [Identity.NoAnswer, Value.ofNat, Value.isObject, Value.isString])

end SessionBroker
