import SessionBroker.Proofs.Ways

/-!
# Stories

A chronicle is about the broker's machine. A story tells the same of any machine that works on the world: the
procedures may do what they like, and clients come and go, flows make steps and the surroundings change things
as they do for the broker. What somebody has done himself stands in the log in the order in which he did it.
-/

namespace SessionBroker

open Scenario (touch still)

/-! ## What deeds have to do with the log -/

namespace Annals

variable {I : Interface} {σ : Type} {m : Machine I σ} {c : Config I σ} {id : Nat} {pick : Bool} {n : Annals I σ}
  {P : Track I σ → List (Act I σ) → Prop}

/-- Something relates what each one has done to all that was done, whether he is under way or has returned. -/
structure Recorded (P : Track I σ → List (Act I σ) → Prop) (n : Annals I σ) : Prop where
  tracks : ∀ flow, ∀ t ∈ n.tracks flow, P t n.log
  returns : ∀ r ∈ n.returns, P ⟨r.proc, r.deeds⟩ n.log

theorem Recorded.update {ts : List (Track I σ)} (recorded : n.Recorded P) (mine : ∀ t ∈ ts, P t n.log) :
    ∀ flow, ∀ t ∈ Function.update n.tracks id ts flow, P t n.log := by
  intro flow t ht
  by_cases own : flow = id
  · subst own
    exact mine t (by simpa using ht)
  · exact recorded.tracks flow t (by simpa [Function.update_of_ne own] using ht)

theorem forall_modifyHead {Q : Track I σ → Prop} {d : Deed I σ} {ts : List (Track I σ)}
    (head : ∀ t ∈ ts.head?, Q (t.note d)) (others : ∀ t ∈ ts, Q t) : ∀ t ∈ ts.modifyHead (·.note d), Q t := by
  cases ts with
  | nil => exact others
  | cons t ts => exact List.forall_mem_cons.mpr ⟨head t rfl, (List.forall_mem_cons.mp others).2⟩

/-- What is so for all who have done nothing, and stays so whatever one notes that is no act, stays so if it does
whenever somebody acts. -/
theorem Recorded.step (recorded : n.Recorded P) (fits : n.Fits m c) (fresh : ∀ proc, P ⟨proc, []⟩ n.log)
    (quiet : ∀ t d, d.act? = none → P t n.log → P (t.note d) n.log)
    (own : ∀ proc action next wait r u, c.find? id = some ⟨proc, .act action next, wait⟩ →
      m.perform id pick action c.shared = some (r, u) → ∀ t ∈ (n.tracks id).head?, P t n.log →
        P (t.note (.act ⟨id, proc, action, r, c.shared, u⟩)) (⟨id, proc, action, r, c.shared, u⟩ :: n.log))
    (others : ∀ proc action next wait r u, c.find? id = some ⟨proc, .act action next, wait⟩ →
      m.perform id pick action c.shared = some (r, u) →
        (∀ flow, ∀ t ∈ n.tracks flow, P t n.log → P t (⟨id, proc, action, r, c.shared, u⟩ :: n.log)) ∧
        ∀ x ∈ n.returns, P ⟨x.proc, x.deeds⟩ n.log →
          P ⟨x.proc, x.deeds⟩ (⟨id, proc, action, r, c.shared, u⟩ :: n.log)) :
    (n.step m c id pick).Recorded P := by
  have all := recorded.tracks id
  have noted : ∀ {d : Deed I σ} {ts : List (Track I σ)}, d.act? = none → (∀ t ∈ ts, P t n.log) →
      ∀ t ∈ ts.modifyHead (·.note d), P t n.log := fun silent all =>
    forall_modifyHead (fun t ht => quiet t _ silent (all t (List.mem_of_mem_head? ht))) all
  unfold Annals.step
  rcases hf : c.find? id with _ | ⟨proc, code, wait⟩
  · exact recorded
  · cases code with
    | done r =>
      refine ⟨recorded.update (noted rfl fun t ht => all t (List.mem_of_mem_tail ht)),
        List.forall_mem_cons.mpr ⟨?_, recorded.returns⟩⟩
      obtain ⟨ds, lower, here, -⟩ := fits.tracked_of_find hf
      rw [here, List.headD_cons]
      exact all ⟨proc, ds⟩ (here ▸ List.mem_cons_self)
    | call callee next =>
      exact ⟨recorded.update (List.forall_mem_cons.mpr ⟨fresh callee, all⟩), recorded.returns⟩
    | fork other next =>
      have started : Recorded P { n with
          tracks := Function.update n.tracks id ((n.tracks id).modifyHead (·.note (.start other))) } :=
        ⟨recorded.update (noted rfl all), recorded.returns⟩
      exact ⟨started.update (List.forall_mem_singleton.mpr (fresh other)), recorded.returns⟩
    | act action next =>
      simp only
      split
      · exact recorded
      · next r u performed =>
        obtain ⟨stay, past⟩ := others proc action next wait r u hf performed
        refine ⟨fun flow t ht => ?_, fun x hx => past x hx (recorded.returns x hx)⟩
        by_cases mine : flow = id
        · subst mine
          simp only [Function.update_self] at ht
          refine forall_modifyHead (fun t ht => ?_) (fun t ht => stay flow t ht (all t ht)) t ht
          exact own proc action next wait r u hf performed t ht (all t (List.mem_of_mem_head? ht))
        · simp only [Function.update_of_ne mine] at ht
          exact stay flow t ht (recorded.tracks flow t ht)

/-- Everybody's acts stand in the log in the order in which he performed them. -/
def Sequenced (n : Annals I σ) : Prop := n.Recorded fun t log => t.acts.Sublist log

theorem Sequenced.step (sequenced : n.Sequenced) (fits : n.Fits m c) : (n.step m c id pick).Sequenced := by
  refine Recorded.step sequenced fits (fun _ => List.nil_sublist _) (fun t d silent before => ?_)
    (fun proc action next wait r u _ _ t _ before => before.cons_cons _)
    fun proc action next wait r u _ _ => ⟨fun flow t _ before => before.cons _, fun x _ before => before.cons _⟩
  simpa [Track.note, Track.acts, silent] using before

end Annals

/-- What a step makes of those under way in a flow that had begun before: nothing, or the innermost one notes a deed,
or calls somebody, or he returns and his caller notes it. -/
theorem Annals.tracks_step {I : Interface} {σ : Type} (n : Annals I σ) (m : Machine I σ) {c : Config I σ} (id : Nat)
    (pick : Bool) {flow : Nat} (old : flow ≠ c.next) :
    (n.step m c id pick).tracks flow = n.tracks flow ∨
      (∃ d, (n.step m c id pick).tracks flow = (n.tracks flow).modifyHead (·.note d)) ∨
      (∃ t, (n.step m c id pick).tracks flow = t :: n.tracks flow) ∨
      ∃ d, (n.step m c id pick).tracks flow = (n.tracks flow).tail.modifyHead (·.note d) := by
  unfold Annals.step
  rcases c.find? id with _ | ⟨proc, code, wait⟩
  · exact .inl rfl
  · by_cases mine : flow = id
    · subst mine
      cases code with
      | done r => exact .inr (.inr (.inr ⟨_, Function.update_self ..⟩))
      | call callee next => exact .inr (.inr (.inl ⟨_, Function.update_self ..⟩))
      | fork other next => exact .inr (.inl ⟨_, (Function.update_of_ne old ..).trans (Function.update_self ..)⟩)
      | act action next =>
        simp only
        split
        · exact .inl rfl
        · exact .inr (.inl ⟨_, Function.update_self ..⟩)
    · refine .inl ?_
      cases code with
      | done | call => exact Function.update_of_ne mine ..
      | fork => exact (Function.update_of_ne old ..).trans (Function.update_of_ne mine ..)
      | act action next =>
        simp only
        split
        · rfl
        · exact Function.update_of_ne mine ..

/-! ## Who called whom -/

section Calls

variable {I : Interface} {σ : Type} {m : Machine I σ} {flow : Nat}

/-- Of those who wait, the first one waits for the procedure above them, and each other one for the one above him. -/
theorem Waiting.Tracked.called {proc : I.Proc} {wait : Waiting I proc} {ts : List (Track I σ)}
    (tracked : wait.Tracked m flow ts) {above below : List (Track I σ)} {t u : Track I σ} {ds : List (Deed I σ)}
    (here : ⟨proc, ds⟩ :: ts = above ++ u :: t :: below) :
    ∃ next, (m.body t.proc).Leads m flow t.proc t.deeds (.call u.proc next) := by
  induction wait generalizing ts above ds with
  | root =>
    cases tracked
    exact absurd (congrArg List.length here) (by simp only [List.length_append, List.length_cons, List.length_nil]; omega)
  | caller next lower ih =>
    obtain ⟨ds', ts', rfl, leads, tracked⟩ := tracked
    rcases List.cons_eq_append_iff.mp here with ⟨rfl, same⟩ | ⟨above', rfl, same⟩
    · cases same
      exact ⟨next, leads⟩
    · exact ih tracked same

/-- Whoever is under way was called by the one below him, who waits for him. -/
theorem Annals.Fits.called {n : Annals I σ} {c : Config I σ} (fits : n.Fits m c) {above below : List (Track I σ)}
    {t u : Track I σ} (here : n.tracks flow = above ++ u :: t :: below) :
    ∃ next, (m.body t.proc).Leads m flow t.proc t.deeds (.call u.proc next) := by
  by_cases present : flow ∈ c.flows.map Prod.fst
  · obtain ⟨p, hp, rfl⟩ := List.mem_map.mp present
    obtain ⟨ds, lower, tracks, -, waiting⟩ := fits.tracked p hp
    exact waiting.called (tracks.symm.trans here)
  · simp [fits.gone flow present] at here

end Calls

/-! ## Stories -/

/-- Flows under way, and what everybody has done. -/
structure Story where
  config : BrokerConfig
  annals : Annals brokerInterface World

namespace Story

variable (m : Machine brokerInterface World) (s : Story)

def world : World := s.config.shared

/-- The procedures under way in a flow, the innermost one first. -/
def tracks (flow : Nat) : List (Track brokerInterface World) := s.annals.tracks flow

/-- All actions, the last one first. -/
def log : List (Act brokerInterface World) := s.annals.log

/-- The procedures that have returned, the last one first. -/
def returns : List (Return brokerInterface World) := s.annals.returns

/-- Nothing has happened in a world. -/
def new (w : World) : Story := ⟨still w, ⟨fun _ => [], [], []⟩⟩

/-- Something happens. -/
def move : Move → Story
  | .arrive name request =>
    ⟨s.config.spawn m (.serveClient name request), { s.annals with
      tracks := Function.update s.annals.tracks s.config.next [⟨.serveClient name request, []⟩] }⟩
  | .step flow pick =>
    match m.step? s.config flow pick with
    | none => s
    | some d => ⟨d, s.annals.step m s.config flow pick⟩
  | .outside change => { s with config := touch change.apply s.config }

/-- One thing after the other happens. -/
def moves (ms : List Move) : Story := ms.foldl (move m) s

variable {m s}

theorem moves_append (ms ns : List Move) : s.moves m (ms ++ ns) = (s.moves m ms).moves m ns := List.foldl_append

/-- What every move keeps, is kept. -/
theorem moves_keep {P : Story → Prop} (keep : ∀ s mv, P s → P (s.move m mv)) (hs : P s) (ms : List Move) :
    P (s.moves m ms) := by
  induction ms generalizing s with
  | nil => exact hs
  | cons mv ms ih => exact ih (keep s mv hs)

/-- What is on record is what happened. -/
structure Faithful (m : Machine brokerInterface World) (s : Story) : Prop where
  numbered : s.config.Numbered
  fits : s.annals.Fits m s.config
  sequenced : s.annals.Sequenced

theorem faithful_new (w : World) : (new w).Faithful m :=
  ⟨⟨List.nodup_nil, by rintro _ ⟨⟩⟩,
    ⟨by rintro _ ⟨⟩, by rintro _ ⟨⟩, fun _ => .nil, fun _ _ => rfl⟩, by rintro _ _ ⟨⟩, by rintro _ ⟨⟩⟩

theorem Faithful.move (faithful : s.Faithful m) (mv : Move) : (s.move m mv).Faithful m := by
  obtain ⟨numbered, fits, sequenced⟩ := faithful
  cases mv with
  | arrive name request =>
    refine ⟨numbered.spawn _ _, fits.spawn numbered _, ?_, sequenced.returns⟩
    exact sequenced.update (List.forall_mem_singleton.mpr (List.nil_sublist _))
  | outside change =>
    exact ⟨⟨numbered.unique, numbered.below⟩, ⟨fits.tracked, fits.returned, fits.complete, fits.gone⟩, sequenced⟩
  | step flow pick =>
    simp only [Story.move]
    split
    · exact ⟨numbered, fits, sequenced⟩
    · next d hs =>
      obtain ⟨f, -, hs'⟩ := Option.bind_eq_some_iff.mp hs
      exact ⟨numbered.step hs', fits.step numbered hs, sequenced.step fits⟩

theorem faithful_moves (faithful : s.Faithful m) (ms : List Move) : (s.moves m ms).Faithful m :=
  moves_keep (fun _ mv faithful => faithful.move mv) faithful ms

/-- Somebody performs what he was about to perform. -/
structure Performed (m : Machine brokerInterface World) (s t : Story) (a : Act brokerInterface World) : Prop where
  log : t.log = a :: s.log
  before : a.before = s.world
  after : a.after = t.world
  performed : ∃ pick, m.perform a.flow pick a.action a.before = some (a.reply, a.after)
  about : ∃ next wait, s.config.find? a.flow = some ⟨a.proc, .act a.action next, wait⟩

/-- A move performs an act, or it changes the world from outside, or not at all. -/
theorem log_move (s : Story) (mv : Move) :
    (s.move m mv).log = s.log ∧ ((s.move m mv).world = s.world ∨
        ∃ change : Outside, (s.move m mv).world = change.apply s.world) ∨
      ∃ a, Performed m s (s.move m mv) a := by
  cases mv with
  | arrive name request => exact .inl ⟨rfl, .inl rfl⟩
  | outside change => exact .inl ⟨rfl, .inr ⟨change, rfl⟩⟩
  | step flow pick =>
    rcases hs : m.step? s.config flow pick with _ | d
    · have stays : s.move m (.step flow pick) = s := by simp only [move, hs]
      exact .inl ⟨by rw [stays], .inl (by rw [stays])⟩
    · have moved : s.move m (.step flow pick) = ⟨d, s.annals.step m s.config flow pick⟩ := by simp only [move, hs]
      rw [moved]
      obtain ⟨⟨proc, code, wait⟩, hf, hs⟩ := Option.bind_eq_some_iff.mp hs
      simp only [log, world, Annals.step, hf]
      cases code with
      | done r => cases wait <;> cases hs <;> exact .inl ⟨rfl, .inl rfl⟩
      | call | fork => cases hs; exact .inl ⟨rfl, .inl rfl⟩
      | act action next =>
        simp only [Machine.stepFlow] at hs
        rcases hp : m.perform flow pick action s.config.shared with _ | ⟨r, u⟩
        · simp only [hp] at hs
          cases hs
        · simp only [hp] at hs ⊢
          cases hs
          exact .inr ⟨⟨flow, proc, action, r, s.config.shared, u⟩, rfl, rfl, rfl, ⟨pick, hp⟩, next, wait, hf⟩

/-- Who performs an action goes on with the reply. -/
theorem step_act {flow : Nat} {pick : Bool} {proc : Proc} {action : Action} {next : action.Reply → Code proc.Result}
    {wait : Waiting brokerInterface proc} {r : action.Reply} {u : World}
    (about : s.config.find? flow = some ⟨proc, .act action next, wait⟩)
    (performed : m.perform flow pick action s.world = some (r, u)) :
    (s.move m (.step flow pick)).config.find? flow = some ⟨proc, next r, wait⟩ ∧
      (s.move m (.step flow pick)).world = u := by
  have performed : m.perform flow pick action s.config.shared = some (r, u) := performed
  have step : m.step? s.config flow pick =
      some (Config.update { s.config with shared := u } flow ⟨proc, next r, wait⟩) := by
    simp only [Machine.step?, about, Option.bind_some, Machine.stepFlow, performed]
  simp only [move, step, world]
  exact ⟨Config.find?_update_self (c := { s.config with shared := u }) about, rfl⟩

/-- What was done, was done. -/
theorem log_moves (s : Story) (ms : List Move) : s.log <:+ (s.moves m ms).log := by
  refine moves_keep (P := fun t => s.log <:+ t.log) (fun t mv suffix => ?_) List.suffix_rfl ms
  rcases log_move (m := m) t mv with ⟨log, -⟩ | ⟨a, performed⟩
  · exact log ▸ suffix
  · exact performed.log ▸ suffix.trans (List.suffix_cons ..)

/-- What relates deeds to the log stays so if it does whenever somebody acts. -/
theorem recorded_move {P : Track brokerInterface World → List (Act brokerInterface World) → Prop}
    (faithful : s.Faithful m) (mv : Move) (recorded : s.annals.Recorded P) (fresh : ∀ proc, P ⟨proc, []⟩ s.log)
    (quiet : ∀ t d, d.act? = none → P t s.log → P (t.note d) s.log)
    (own : ∀ a, Performed m s (s.move m mv) a → ∀ t ∈ (s.tracks a.flow).head?, P t s.log →
      P (t.note (.act a)) (a :: s.log))
    (others : ∀ a, Performed m s (s.move m mv) a →
      (∀ flow, ∀ t ∈ s.tracks flow, P t s.log → P t (a :: s.log)) ∧
        ∀ x ∈ s.returns, P ⟨x.proc, x.deeds⟩ s.log → P ⟨x.proc, x.deeds⟩ (a :: s.log)) :
    (s.move m mv).annals.Recorded P := by
  cases mv with
  | outside change => exact recorded
  | arrive name request =>
    exact ⟨recorded.update (List.forall_mem_singleton.mpr (fresh _)), recorded.returns⟩
  | step flow pick =>
    rcases hs : m.step? s.config flow pick with _ | d
    · have stays : s.move m (.step flow pick) = s := by simp only [move, hs]
      rwa [stays]
    · have moved : (s.move m (.step flow pick)).annals = s.annals.step m s.config flow pick := by simp only [move, hs]
      have performed : ∀ {proc action next wait r u}, s.config.find? flow = some ⟨proc, .act action next, wait⟩ →
          m.perform flow pick action s.config.shared = some (r, u) →
          Performed m s (s.move m (.step flow pick)) ⟨flow, proc, action, r, s.config.shared, u⟩ := by
        intro proc action next wait r u hf hp
        refine ⟨?_, rfl, (step_act hf hp).2.symm, ⟨pick, hp⟩, next, wait, hf⟩
        simp only [log, moved, Annals.step, hf, hp]
      rw [moved]
      exact recorded.step faithful.fits fresh quiet
        (fun _ _ _ _ _ _ hf hp => own _ (performed hf hp)) fun _ _ _ _ _ _ hf hp => others _ (performed hf hp)

/-- Those who wait in a flow stay as they are as long as nobody has returned to them. -/
theorem waiting_move (faithful : s.Faithful m) (mv : Move) {flow : Nat}
    {upper lower : List (Track brokerInterface World)} (first : s.tracks flow = upper ++ lower) (more : upper ≠ [])
    (stays : lower.length < ((s.move m mv).tracks flow).length) :
    ∃ upper, (s.move m mv).tracks flow = upper ++ lower ∧ upper ≠ [] := by
  have known : s.annals.tracks flow ≠ [] := by simp [show s.annals.tracks flow = _ from first, more]
  have old : flow < s.config.next := by
    by_contra new
    refine known (faithful.fits.gone flow fun present => new ?_)
    obtain ⟨p, hp, rfl⟩ := List.mem_map.mp present
    exact faithful.numbered.below p hp
  cases mv with
  | outside change => exact ⟨upper, first, more⟩
  | arrive name request => exact ⟨upper, (Function.update_of_ne old.ne ..).trans first, more⟩
  | step id pick =>
    rcases hs : m.step? s.config id pick with _ | d
    · exact ⟨upper, by simpa only [move, hs] using first, more⟩
    · have moved : (s.move m (.step id pick)).tracks flow = (s.annals.step m s.config id pick).tracks flow := by
        simp only [move, hs, tracks]
      rw [moved] at stays ⊢
      cases upper with
      | nil => exact absurd rfl more
      | cons t upper =>
        rcases s.annals.tracks_step m id pick old.ne with same | ⟨d, same⟩ | ⟨u, same⟩ | ⟨d, same⟩
        · exact ⟨t :: upper, same.trans first, more⟩
        · refine ⟨t.note d :: upper, ?_, List.cons_ne_nil _ _⟩
          rw [same, show s.annals.tracks flow = _ from first]
          rfl
        · exact ⟨u :: t :: upper, by rw [same, show s.annals.tracks flow = _ from first]; rfl, List.cons_ne_nil _ _⟩
        · rw [same, show s.annals.tracks flow = _ from first] at stays ⊢
          cases upper with
          | nil => simp at stays
          | cons u upper => exact ⟨u.note d :: upper, rfl, List.cons_ne_nil _ _⟩

theorem waiting_moves (faithful : s.Faithful m) {ms : List Move} {flow : Nat}
    {upper lower : List (Track brokerInterface World)} (first : s.tracks flow = upper ++ lower) (more : upper ≠ [])
    (stays : ∀ n ≤ ms.length, lower.length < ((s.moves m (ms.take n)).tracks flow).length) :
    ∃ upper, (s.moves m ms).tracks flow = upper ++ lower ∧ upper ≠ [] := by
  induction ms generalizing s upper with
  | nil => exact ⟨upper, first, more⟩
  | cons mv ms ih =>
    obtain ⟨upper', next, more'⟩ := waiting_move faithful mv first more (stays 1 (by simp))
    exact ih (faithful.move mv) next more' fun n le => stays (n + 1) (by simpa using le)

end Story

namespace Chronicle

variable {c : Chronicle}

/-- What a chronicle tells, but for the events that were seen. -/
def story (c : Chronicle) : Story := ⟨c.play.config, c.annals⟩

theorem story_move (c : Chronicle) (mv : Move) : (c.move mv).story = c.story.move brokerMachine mv := by
  cases mv with
  | arrive | outside => rfl
  | step flow pick =>
    rcases hs : brokerMachine.step? c.play.config flow pick with _ | d
    · have stays : c.move (.step flow pick) = c := by
        simp only [Chronicle.move, Play.move, hs, Annals.step_of_none hs]
      rw [stays]
      simp only [story, Story.move, hs]
    · simp only [story, Story.move, Chronicle.move, Play.move, hs]

/-- A chronicle is a story of the broker's machine. -/
theorem story_moves (settings : BrokerSettings) (endpoints : List (EngineName × Endpoint)) (main : EngineName)
    (host : Host) (ms : List Move) : ((new settings endpoints main host).moves ms).story =
      (Story.new (.new settings endpoints main host)).moves brokerMachine ms := by
  have begins : ∀ c : Chronicle, (c.moves ms).story = c.story.moves brokerMachine ms := by
    induction ms with
    | nil => exact fun _ => rfl
    | cons mv ms ih => exact fun c => (ih (c.move mv)).trans (by rw [story_move]; rfl)
  exact begins _

theorem sequenced_moves (settings : BrokerSettings) (endpoints : List (EngineName × Endpoint)) (main : EngineName)
    (host : Host) (ms : List Move) : ((new settings endpoints main host).moves ms).annals.Sequenced := by
  have told := story_moves settings endpoints main host ms
  have faithful := Story.faithful_moves (m := brokerMachine) (Story.faithful_new (.new settings endpoints main host)) ms
  rw [← told] at faithful
  exact faithful.sequenced

end Chronicle

end SessionBroker
