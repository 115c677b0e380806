import SessionBroker.Proofs.Shell.Running

/-!
# The loop of the shell

The reader reads one line after the other, hands each over and waits for its end, until a line says to exit or
the input has ended. Then it disposes of the broker, reports, and nobody has anything left to do. What has been
written and run by then is what the reference says.
-/

namespace SessionBroker.Shell

variable {reader p q start : Nat} {x y : Scene} {request : String}
  {loop : Waiting brokerInterface (.shellLoop q)} {awaited : Option Nat} {goal : BrokerConfig → Prop}

/-! ## One line -/

/-- From the end of a request the reader goes on with its loop. -/
theorem Hears.returns {P : Situation brokerMachine reader} {position : Nat}
    {wait : Waiting brokerInterface (.shellWait request p)} (hears : Hears request loop wait)
    (h : P.Ensures ⟨.shellLoop position, brokerMachine.body (.shellLoop position),
      @Waiting.caller brokerInterface _ (.shellLoop q) .done loop⟩ goal) :
    P.Ensures ⟨.shellWait request p, .done position, wait⟩ goal := by
  induction hears with
  | first => exact .returns (.enters h)
  | again _ ih => exact .returns ih

/-- The scene once a request has ended. -/
def Scene.reported (request : String) (o : Outcome) (x : Scene) : Scene :=
  { x with reports := (request, .response (.ok o)) :: x.reports }

/-- The runner reports the end of a request. Then the reader goes on with its loop. -/
theorem reports {runner : Nat} {ne : runner ≠ reader} {r : ClientRequest} {o : Outcome}
    (known : ∀ id, awaited = some id → 0 < id ∧ id ≤ x.past)
    (h : (alone reader (x.reported request o, home)).Ensures
      ⟨.shellLoop x.sent.length, brokerMachine.body (.shellLoop x.sent.length),
        @Waiting.caller brokerInterface _ (.shellLoop q) .done loop⟩ goal) :
    (runs reader runner ne request loop awaited start x).Ensures
      ⟨.serveClient request r, .act (.broker (.report request (.response (.ok o)))) .done, .root _⟩ goal := by
  refine .act fun {n c} now hc => ?_
  obtain ⟨d, g, k, p, stage, hg, coming, listens, -⟩ := now
  obtain ⟨b, j, fits, other, shared⟩ := stage.stands
  refine ⟨(), _, fun pick => by rw [shared]; rfl, ?_⟩
  have arrives : (alone reader (x.reported request o, d)).Ensures g goal := by
    refine coming.arrives alone_acts known fun wait hears => ?_
    rw [body_shellWait]
    have found : ((x.reported request o).reports.find? (·.1 = request)).map (·.2) = some (.response (.ok o)) := by
      simp [Scene.reported]
    refine .performs (alone_acts (Desk.acts_awaitNews found (.inr rfl))) ?_
    change (alone reader (x.reported request o, home)).Ensures ⟨.shellWait request p,
      heard request p (newsAt (x.reported request o) p (some (.response (.ok o)))), wait⟩ goal
    rw [heard_reported (x := x.reported request o) listens.le listens.unannounced]
    exact hears.returns h
  have stage : Stage (Scene.seen (x.reported request o) reader d) runner reader
      { c with shared := (x.reported request o).world d b j } := stage.share ⟨b, j, ⟨fits.count, fits.torn⟩, other, rfl⟩
  exact arrives _ _ ⟨stage.retire ⟨_, _, rfl⟩, le_rfl⟩ ((Config.find?_update_of_ne (Ne.symm ne)).trans hg)

/-- The reader starts a flow that runs a line, and goes on to listening. -/
theorem starts {proc : Proc} {next : Code (Except Failure Unit)} {k : Nat} (listens : Listens request x start p)
    (coming : Coming request loop none p home ⟨.shellLoop q, next, loop⟩ k)
    (h : ∀ runner, ∀ ne : runner ≠ reader, (runs reader runner ne request loop none start x).Ensures
      ⟨proc, brokerMachine.body proc, @Waiting.root brokerInterface proc⟩ goal) :
    (alone reader (x, home)).Ensures ⟨.shellLoop q, .fork proc next, loop⟩ goal := by
  refine .forks fun {n c} now hc => ?_
  have ne : c.next ≠ reader := by
    rintro same
    rw [← same, now.1.numbered.find?_next] at hc
    cases hc
  have numbered := now.1.numbered.update reader ⟨.shellLoop q, next, loop⟩
  refine h c.next ne _ _ ⟨home, _, k, p, ⟨numbered.spawn _ _, now.1.stands, ?_⟩,
    Config.find?_spawn (Config.find?_update_self hc), coming, listens, le_rfl⟩ (Config.find?_spawn_self numbered)
  intro id f ni nj hf
  rw [Config.find?_spawn_of_ne (c := c.update reader ⟨.shellLoop q, next, loop⟩) ni, Config.find?_update_of_ne nj] at hf
  exact now.1.spent id f nj nj hf

/-! ## The end -/

/-- The shell has ended, and what has been written and run is on a sheet. -/
def Over (s : Sheet) (c : BrokerConfig) : Prop :=
  c.flows = [] ∧ transcript c = { s.page with code := some 0 } ∧
    (c.shared.endpoint? engineName).map (·.engine.history) = some s.ran

/-- What the reader's loop returns to. -/
inductive Loops : {q : Nat} → Waiting brokerInterface (.shellLoop q) → Prop where
  | first {q : Nat} {next : Except Failure Unit → Code Unit} :
      (∀ r, next r = .act (.broker (.report loopName (.lease r))) .done) →
      Loops (q := q) (@Waiting.caller brokerInterface _ (.serveClient loopName .shell) next (.root _))
  | again {q q' : Nat} {wait : Waiting brokerInterface (.shellLoop q)} : Loops wait →
      Loops (q := q') (@Waiting.caller brokerInterface _ (.shellLoop q) .done wait)

theorem Loops.returns {P : Situation brokerMachine reader} (loops : Loops loop) {r : Except Failure Unit}
    (h : P.Ensures ⟨.serveClient loopName .shell, .act (.broker (.report loopName (.lease r))) .done, .root _⟩ goal) :
    P.Ensures ⟨.shellLoop q, .done r, loop⟩ goal := by
  induction loops with
  | first code =>
    refine .returns ?_
    rw [code]
    exact h
  | again _ ih => exact .returns ih

/-- In every case an action can be performed now, with a reply and another state. -/
def Surely (flow : Nat) (action : Action) (w : World) (r : action.Reply) (w' : World) : Prop :=
  ∀ pick, World.perform flow pick action w = some (r, w')

section

open Program.Evaluates (exists_act exists_call)

/-- Disposing of the broker at the shell's own prompt ends at once, and leaves alone what was written and
the history. -/
theorem disposes {d : Desk} {b : Backstage} {j : Counts} (at_home : x.Home) : ∃ w,
    (body .dispose).Evaluates body (Surely reader) (x.world d b j) () w ∧ w.host.calls = x.calls ∧
      (w.endpoint? engineName).map (·.engine.history) = some x.history := by
  obtain ⟨calls, lines, readers, reading, history, depth, phase, past, held, stop, sent, event, holders, tickets,
    reports⟩ := x
  obtain ⟨stop, depth, idle, readers, unheld, ready⟩ := at_home
  dsimp only at stop depth idle readers unheld ready
  subst stop depth idle readers unheld ready
  -- it aborts what runs, and asks for the frames that are left
  iterate 7 refine exists_act (fun _ => rfl) ?_
  refine exists_call (.perform (fun _ => rfl) (.done _ _)) ?_
  -- the engine is given up, and nobody can read or run anything any more
  iterate 5 refine exists_act (fun _ => rfl) ?_
  exact ⟨_, .done _ _, rfl, rfl⟩

end

/-- Spent flows end one after the other, and then there are none. -/
theorem all_end {W : World → Prop} {c : BrokerConfig} (stage : Stage W reader reader c) (gone : c.find? reader = none) :
    brokerMachine.Inevitably (fun c => c.flows = [] ∧ W c.shared) c := by
  induction length : c.flows.length using Nat.strong_induction_on generalizing c with
  | _ n ih =>
    cases flows : c.flows with
    | nil => exact .here ⟨flows, stage.stands⟩
    | cons p rest =>
      have hf : c.find? p.1 = some p.2 := by simp [Config.find?, flows]
      have ne : p.1 ≠ reader := fun same => by rw [same, gone] at hf; cases hf
      obtain ⟨proc, a, spent⟩ := stage.spent _ _ ne ne hf
      refine .later ⟨c.remove p.1, .flow p.1 false ?_⟩ ?_
      · rw [Machine.step?, hf, spent]
        rfl
      · rintro d ⟨id, pick, hd⟩
        have other : id ≠ reader := by
          rintro rfl
          rw [Machine.step?, gone] at hd
          cases hd
        obtain ⟨stage', less, kept⟩ := stage.other other other hd
        exact ih _ (length ▸ less) stage' ((kept reader (Ne.symm other)).trans gone) rfl

/-- With the reader at its end too, nothing is left in the end. -/
theorem lone_ends {W : World → Prop} {proc : Proc} {a : proc.Result} :
    (lone reader W).Ensures ⟨proc, .done a, @Waiting.root brokerInterface proc⟩
      fun c => c.flows = [] ∧ W c.shared := by
  refine Situation.ensures fun {n c} now hc => ⟨c.remove reader, fun pick => ?_, all_end (?_ : Stage W reader reader _) ?_⟩
  · rw [Machine.step?, hc]
    rfl
  · refine ⟨now.1.numbered.remove reader, now.1.stands, fun id f ne _ hf => ?_⟩
    rw [Config.find?_remove, if_neg ne] at hf
    exact now.1.spent id f ne ne hf
  · rw [Config.find?_remove, if_pos rfl]

/-- Who has read the last line disposes of the broker, and the shell ends. -/
theorem closes (at_home : x.Home) (loops : Loops loop) :
    (alone reader (x, home)).Ensures ⟨.shellLoop q, .call .dispose fun _ => .done (.ok ()), loop⟩ (Over x.sheet) := by
  intro n c holds hc
  obtain ⟨b, j, -, -, shared⟩ := holds.1.stands
  obtain ⟨w, disposed, calls, history⟩ := @disposes reader x home b j at_home
  have surely : ∀ {action : Action} {v v' : World} {r : action.Reply}, Surely reader action v r v' →
      (lone reader (· = v)).Acts action r (lone reader (· = v')) :=
    fun h => lone_acts (by rintro _ rfl; exact ⟨_, h, rfl⟩)
  let after : World := { w with reports := (loopName, .lease (.ok ())) :: w.reports }
  have ends : (lone reader (· = after)).Ensures
      ⟨.serveClient loopName .shell, .done (), .root _⟩ (Over x.sheet) := by
    refine lone_ends.imp ?_
    rintro e ⟨flows, shared⟩
    refine ⟨flows, ?_, by rw [shared]; exact history⟩
    have found : reportOf? e loopName = some (.lease (.ok ())) := by rw [reportOf?, shared]; rfl
    rw [transcript, found, shared]
    exact congrArg (fun calls : List HostCall => { calls.reverse.foldl Transcript.add .empty with code := some 0 }) calls
  have stage : Stage (· = x.world home b j) reader reader c := ⟨holds.1.numbered, shared, holds.1.spent⟩
  have ensures : (lone reader (· = x.world home b j)).Ensures
      ⟨.shellLoop q, .call .dispose fun _ => .done (.ok ()), loop⟩ (Over x.sheet) :=
    .calls (disposed.leads (fun w => lone reader (· = w)) surely)
      (loops.returns (.performs (surely fun _ => rfl) ends))
  exact ensures n c ⟨stage, holds.2⟩ hc

/-! ## All lines -/

/-- Where a line of the shell's own prompt leads to, if it is not the last one. -/
def Mode.onward (text : String) : Mode := if text = "Wait-Debugger" then .stopped else .main

theorem after_main {text : String} (stays : text ≠ "exit") : Mode.main.after text = some (.onward text) := by
  rw [Mode.after, if_neg stays, Mode.onward]
  split <;> rfl

theorem read_main {line : String} {rest : List String} {s : Sheet} (stays : trimmed line ≠ "exit") :
    read .main (line :: rest) s =
      read (.onward (trimmed line)) rest ((s.write .normal Mode.main.prompt false).answer .main (trimmed line)) := by
  simp only [read, after_main stays]

theorem read_exit {line : String} {rest : List String} {s : Sheet} (exits : trimmed line = "exit") :
    read .main (line :: rest) s = s.write .normal Mode.main.prompt false := by
  simp [read, Mode.after, exits, Sheet.answer]

theorem isCalm_main {line : String} {rest : List String} (stays : trimmed line ≠ "exit")
    (h : isCalm .main (line :: rest) = true) : isCalm (.onward (trimmed line)) rest = true := by
  simpa [isCalm, after_main stays] using h

namespace Scene

/-- No report has the name of a request to come. -/
def Fresh (x : Scene) : Prop := ∀ r ∈ x.reports, ∀ n, r.1 = "command " ++ toString n → n < x.tickets

/-- The scene once a line has been read at the shell's own prompt. -/
def mainRead (x : Scene) : Scene := { x.afterReading prompt with held := false }

theorem Home.mainRead (h : x.Home) : x.mainRead.Home :=
  ⟨h.stop, h.depth, rfl, rfl, rfl, h.ready⟩

theorem Fresh.mainRead (h : x.Fresh) : x.mainRead.Fresh :=
  fun r hr n hn => (h r hr n hn).trans_le (Nat.le_add_right _ _)

theorem sheet_mainRead : x.mainRead.sheet = x.sheet.write .normal Mode.main.prompt false :=
  sheet_write ..

end Scene

/-- How the reader has a line run. -/
def handsOver (position : Nat) (text : String) : Code (Except Failure Unit) := do
  let ticket : Nat ← Code.broker .ticket
  let request := "command " ++ toString ticket
  Code.start (.serveClient request (.execute (.script text) .interactive none))
  let position : Nat ← Code.invoke (.shellWait request position)
  Code.invoke (.shellLoop position)

theorem eq_of_toString {m n : Nat} (h : toString m = toString n) : m = n := by
  have digits : Nat.toDigits 10 m = Nat.toDigits 10 n := by
    have texts : m.repr = n.repr := h
    rw [Nat.repr_eq_ofList_toDigits, Nat.repr_eq_ofList_toDigits] at texts
    exact String.ofList_injective texts
  rw [← Nat.ofDigitChars_toDigits (b := 10) (n := m) (by decide) (by decide), digits,
    Nat.ofDigitChars_toDigits (by decide) (by decide)]

theorem hands_over {text : String} (at_home : x.Home) (fresh : x.Fresh) (some_ : text ≠ "") (stays : text ≠ "exit")
    (awake : text ≠ "Start-Sleep") (plain : ∀ line ∈ x.lines, trimmed line ≠ "Start-Sleep")
    (calm : isCalm (.onward text) x.lines = true)
    (h : ∀ y : Scene, y.Home → y.Fresh → y.lines.length ≤ x.lines.length → (∀ line ∈ y.lines, line ∈ x.lines) →
      isCalm .main y.lines = true →
      read (.onward text) x.lines (x.sheet.answer .main text) = read .main y.lines y.sheet →
      (alone reader (y, home)).Ensures ⟨.shellLoop y.sent.length, Shell.loop y.sent.length,
        @Waiting.caller brokerInterface _ (.shellLoop q) .done loop⟩ goal) :
    (alone reader (x, home)).Ensures ⟨.shellLoop q, handsOver x.sent.length text, loop⟩ goal := by
  refine .performs (alone_acts (.of_scene Scene.acts_ticket)) ?_
  let z : Scene := { x with tickets := x.tickets + 1 }
  have unreported : (z.reports.find? (·.1 = "command " ++ toString x.tickets)).map (·.2) = none := by
    refine Option.map_eq_none_iff.mpr (List.find?_eq_none.mpr fun r hr named => ?_)
    exact lt_irrefl _ (fresh r hr x.tickets (of_decide_eq_true named))
  have listens : Listens ("command " ++ toString x.tickets) z z.sent.length z.sent.length :=
    ⟨le_rfl, le_rfl, by simp [firstStop?], unreported⟩
  refine starts listens (.calls (.listens .first)) fun runner ne => ?_
  refine serves (x := z) ⟨at_home.stop, at_home.depth, at_home.idle, at_home.readers, at_home.unheld, at_home.ready⟩
    some_ stays awake (by omega) plain calm fun o awaited y ran => ?_
  refine reports ran.known (h _ ⟨ran.home.stop, ran.home.depth, ran.home.idle, ran.home.readers, rfl, ran.home.ready⟩
    ?_ ran.fewer ran.mem ran.calm ran.same)
  have numbered : x.tickets + 1 < y.tickets := ran.tickets
  intro r hr n hn
  rcases List.mem_cons.mp hr with rfl | hr
  · have same : x.tickets = n := eq_of_toString ((String.append_right_inj "command ").mp hn)
    exact same ▸ (Nat.lt_succ_self _).trans numbered
  · have hr : r ∈ x.reports := ran.reports ▸ hr
    exact ((fresh r hr n hn).trans (Nat.lt_succ_self _)).trans numbered

/-- The reader inevitably comes to the last line, and what has been written and run by then is what the
reference says. -/
theorem loop_ends (at_home : x.Home) (fresh : x.Fresh) (loops : Loops loop)
    (plain : ∀ line ∈ x.lines, trimmed line ≠ "Start-Sleep") (calm : isCalm .main x.lines = true) :
    (alone reader (x, home)).Ensures ⟨.shellLoop q, Shell.loop x.sent.length, loop⟩
      (Over (read .main x.lines x.sheet)) := by
  induction length : x.lines.length using Nat.strong_induction_on generalizing x q with
  | _ n ih =>
    refine .calls (alone_leads (Scene.does_readLine at_home.stop at_home.unheld at_home.readers (.inl at_home.ready))) ?_
    change (alone reader (x.mainRead, home)).Ensures _ _
    cases lines : x.lines with
    | nil =>
      refine .performs (alone_acts (.of_scene Scene.acts_isEnded)) ?_
      have none_left : x.mainRead.lines = [] := by simp [Scene.mainRead, Scene.afterReading, lines]
      rw [none_left]
      have ended : (alone reader (x.mainRead, home)).Ensures _ _ := closes at_home.mainRead loops
      rw [Scene.sheet_mainRead] at ended
      exact ended
    | cons line rest =>
      have left : x.mainRead.lines = rest := by simp [Scene.mainRead, Scene.afterReading, lines]
      have plain_rest : ∀ l ∈ rest, trimmed l ≠ "Start-Sleep" := fun l hl => plain l (lines ▸ .tail _ hl)
      rw [lines] at calm
      change (alone reader (x.mainRead, home)).Ensures ⟨.shellLoop q,
        if (trimmed line).isEmpty then Code.invoke (.shellLoop x.sent.length)
        else if trimmed line = "exit" then Code.invoke .dispose >>= fun _ => pure (.ok ())
        else handsOver x.sent.length (trimmed line), loop⟩ _
      by_cases exits : trimmed line = "exit"
      · rw [read_exit exits, ← Scene.sheet_mainRead, if_neg (by simp [exits]), if_pos exits]
        exact closes at_home.mainRead loops
      have calm_rest := isCalm_main exits calm
      rw [read_main exits, ← Scene.sheet_mainRead]
      by_cases blank : trimmed line = ""
      · rw [if_pos (isEmpty_trimmed.mpr blank)]
        have again : Mode.onward (trimmed line) = .main := by rw [blank]; decide
        rw [again] at calm_rest ⊢
        rw [Sheet.answer, if_pos blank, ← left]
        exact .enters (ih _ (by simp [← length, lines, left]) at_home.mainRead fresh.mainRead loops.again
          (by rwa [left]) (by rwa [left]) rfl)
      · rw [if_neg (isEmpty_trimmed.not.mpr blank), if_neg exits]
        refine hands_over at_home.mainRead fresh.mainRead blank exits (plain line (lines ▸ .head _)) (by rwa [left])
          (by rwa [left]) fun y home_ fresh_ fewer mem calm_ same => ?_
        rw [left] at fewer mem same
        rw [same]
        exact ih _ (by simp [← length, lines]; omega) home_ fresh_ loops.again
          (fun l hl => plain_rest l (mem l hl)) calm_ rfl

end SessionBroker.Shell
