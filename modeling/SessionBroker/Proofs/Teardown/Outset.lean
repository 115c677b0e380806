import SessionBroker.Proofs.Teardown.Course

/-!
# How the teardown begins

In a broker where nothing happens all flows wait: loops for requests to their frames, on threads of nested
prompts or in commands that the debugger stopped, a read loop for a line, and others for the end of a
prompt, a stop or a command. Once somebody has it disposed, the teardown is under way.
-/

namespace SessionBroker

theorem Config.Numbered.find?_of_mem {I : Interface} {σ : Type} {c : Config I σ} {p : Nat × Flow I}
    (numbered : c.Numbered) (hp : p ∈ c.flows) : c.find? p.1 = some p.2 := by
  obtain ⟨before, after, split⟩ := List.append_of_mem hp
  have new : ∀ q ∈ before, q.1 ≠ p.1 := by
    have unique := numbered.unique
    rw [split, List.map_append, List.map_cons, List.nodup_append] at unique
    exact fun q hq => unique.2.2 _ (List.mem_map_of_mem hq) _ List.mem_cons_self
  have none : before.find? (fun q => decide (q.1 = p.1)) = none :=
    List.find?_eq_none.mpr fun q hq => by simpa using new q hq
  rw [find?, split, List.find?_append, none, Option.none_or, List.find?_cons_of_pos (by simp), Option.map_some]

/-- A frame's loop has begun, has nothing to do and is to go on. -/
def Mailbox.isIdle {ρ α : Type} (m : Mailbox ρ α) : Bool :=
  m.slot.isNone && m.exit.isNone && !m.closed && !m.finished && m.server.isSome

/-- The frame that a flow serves. -/
def Flow.serving? (f : Flow brokerInterface) : Option FrameRef :=
  match f.proc with
  | .serveNext frame => some frame
  | _ => none

/-- The promise of a command that is run behind the read loop, if it is what a flow waits for. -/
def Flow.awaiting? : Flow brokerInterface → Option Nat
  | ⟨.route .., .act (.broker (.awaitPromise promise)) _, _⟩ => some promise
  | _ => none

def Promise.isOpen : Promise → Bool
  | .open => true
  | _ => false

namespace Teardown

/-- What there is when the teardown begins. -/
def onset (c : BrokerConfig) : Onset where
  toWorld := c.shared
  awaited := c.flows.filterMap fun p => p.2.awaiting?

/-- All that wait for what a flow does are on the thread of a nested prompt, of a command that the debugger
stopped, or of a read. -/
def underlain (old : Onset) : {proc : Proc} → Waiting brokerInterface proc → Bool
  | _, .root proc => endsFree proc
  | _, @Waiting.caller _ callee proc _ below => underlies old proc callee && underlain old below

/-- What a flow is charged with that waits where it may while nothing happens. -/
def parked? (old : Onset) : Flow brokerInterface → Option Charge
  | ⟨proc, .act action _, wait⟩ => if underlain old wait then parking old proc action else none
  | _ => none

/-- Nothing happens: all flows wait, and each frame on the stack is a nested prompt or a stop of the
debugger with a loop that has nothing to do. Neither has the read loop. -/
structure AtRest (c : BrokerConfig) : Prop where
  parked : ∀ p ∈ c.flows, (parked? (onset c) p.2).isSome
  serving : ∀ p ∈ c.flows, ∀ frame ∈ p.2.serving?, frame.id ∈ c.shared.frames.above
  kinds : ∀ i ∈ c.shared.frames.above, c.shared.frames.kind i = .nestedPrompt ∨ c.shared.frames.kind i = .debug
  idle : ∀ i ∈ c.shared.frames.above, (c.shared.frames.mailbox? i).any Mailbox.isIdle
  served : ∀ i ∈ c.shared.frames.above, ∃ p ∈ c.flows, p.2.serving? = some (c.shared.frames.ref i)
  tasks : c.shared.idle.tasks = []
  pumps : c.shared.host.pumps = 0
  awaited : ∀ promise ∈ (onset c).awaited, (c.shared.promises[promise]?).any Promise.isOpen

variable {old : Onset} {c : BrokerConfig} {f : Flow brokerInterface} {h : Charge}

/-- Whoever waits while nothing happens waits at the mailbox of the frame that it serves, or has nothing to
do with frames. -/
theorem charge_of_parked (parked : parked? old f = some h) :
    (∃ frame, f.serving? = some frame ∧ frame = old.frames.ref frame.id ∧ h = { duty := .waits frame.id }) ∨
      f.serving? = none ∧ h = {} := by
  obtain ⟨proc, code, wait⟩ := f
  cases code with
  | act action next =>
    simp only [parked?] at parked
    split at parked
    · unfold parking at parked
      split at parked
      · next frame _ _ =>
        split at parked
        · next same =>
          cases parked
          exact .inl ⟨frame, rfl, same, rfl⟩
        · cases parked
      · cases parked
        exact .inr ⟨rfl, rfl⟩
      · split at parked
        · cases parked
          exact .inr ⟨rfl, rfl⟩
        · cases parked
      · cases parked
        exact .inr ⟨rfl, rfl⟩
      · cases parked
        exact .inr ⟨rfl, rfl⟩
      · cases parked
    · cases parked
  | done | call | fork => cases parked

/-- The callers go on as the lore says. -/
theorem minds_underlain {proc : brokerInterface.Proc} {wait : Waiting brokerInterface proc}
    (goesOn : wait.AtEach brokerMachine (sequel old)) (under : underlain old wait) :
    wait.Minds (lore old) brokerMachine (some {}) := by
  induction wait with
  | root => trivial
  | @caller callee proc next below ih =>
    simp only [underlain, Bool.and_eq_true] at under
    obtain ⟨here, -, rest⟩ := goesOn
    refine ⟨some {}, fun r k back => ?_, ih rest under.2⟩
    rcases k with _ | k
    · have anything : (next r).Minds (lore old) brokerMachine
          (fun a k => ∀ k', k = some k' → Returns {} proc a k') none := minds_none _
      exact anything.imp fun a k' post h' same => ⟨{}, rfl, post h' same⟩
    · obtain ⟨_, ⟨⟩, returns⟩ := back k rfl
      exact minds_iff.mpr (here under.1 r k returns)

/-- One that waits minds the lore of the teardown. -/
theorem minds_of_parked (goesOn : f.AtEach brokerMachine (sequel old)) (parked : parked? old f = some h) :
    f.Minds (lore old) brokerMachine (some h) := by
  obtain ⟨proc, code, wait⟩ := f
  cases code with
  | act action next =>
    simp only [parked?] at parked
    split at parked
    · next under =>
      exact ⟨some {}, minds_iff.mpr (goesOn.1.1 h parked), minds_underlain goesOn.2 under⟩
    · cases parked
  | done | call | fork => cases parked

theorem outermost_of_underlain {proc : brokerInterface.Proc} {wait : Waiting brokerInterface proc}
    (under : underlain old wait) : endsFree wait.outermost := by
  induction wait with
  | root => exact under
  | caller next below ih =>
    simp only [underlain, Bool.and_eq_true] at under
    exact ih under.2

theorem outermost_of_parked (parked : parked? old f = some h) : endsFree f.waiting.outermost := by
  obtain ⟨proc, code, wait⟩ := f
  cases code with
  | act action next =>
    simp only [parked?] at parked
    split at parked
    · next under => exact outermost_of_underlain under
    · cases parked
  | done | call | fork => cases parked

/-- What the flows are charged with when somebody has the broker disposed. -/
def atFirst (c : BrokerConfig) (i : Nat) : Charge :=
  if i = c.next then start else ((c.find? i).bind (parked? (onset c))).getD {}

theorem atFirst_of_mem (numbered : c.Numbered) (rest : AtRest c) {p : Nat × Flow brokerInterface}
    (hp : p ∈ c.flows) : parked? (onset c) p.2 = some (atFirst c p.1) := by
  obtain ⟨h, parked⟩ := Option.isSome_iff_exists.mp (rest.parked p hp)
  rw [atFirst, if_neg (numbered.below p hp).ne, numbered.find?_of_mem hp, Option.bind_some, parked, Option.getD_some]

/-- Apart from the one who has it disposed they wait at mailboxes, or have nothing to do. -/
theorem atFirst_cases (numbered : c.Numbered) (rest : AtRest c) {i : Nat} (other : i ≠ c.next) :
    (∃ p ∈ c.flows, p.1 = i ∧ ∃ frame, p.2.serving? = some frame ∧ frame = c.shared.frames.ref frame.id ∧
      atFirst c i = { duty := .waits frame.id }) ∨ atFirst c i = {} := by
  rcases hf : c.find? i with _ | f
  · exact .inr (by rw [atFirst, if_neg other, hf]; rfl)
  · have hp := Config.mem_of_find? hf
    rcases charge_of_parked (atFirst_of_mem numbered rest hp) with ⟨frame, serves, same, mine⟩ | ⟨-, mine⟩
    · exact .inl ⟨_, hp, rfl, frame, serves, same, mine⟩
    · exact .inr mine

/-- They are in no change of the session stack, and have not looked at anything yet. -/
theorem atFirst_plain (numbered : c.Numbered) (rest : AtRest c) {i : Nat} (other : i ≠ c.next) :
    ∃ duty, atFirst c i = { duty } := by
  rcases atFirst_cases numbered rest other with ⟨-, -, -, frame, -, -, waits⟩ | free
  · exact ⟨_, waits⟩
  · exact ⟨_, free⟩

variable (numbered : c.Numbered) (rest : AtRest c) (fit : Fit (onset c))
include numbered rest fit

/-- The frames are as they should be when the teardown begins. -/
theorem frames_atFirst (here : Nat → Prop) (there : ∀ p ∈ c.flows, here p.1) :
    Frames (onset c) 0 0 [] here (fun i => (atFirst c i).duty) c.shared.frames := by
  have duties (i : Nat) :
      (∃ frame, ∃ p ∈ c.flows, frame ∈ p.2.serving? ∧ (atFirst c i).duty = .waits frame.id) ∨
        (atFirst c i).duty = .clears [] := by
    by_cases mine : i = c.next
    · exact .inr (by rw [atFirst, if_pos mine]; rfl)
    · rcases atFirst_cases numbered rest mine with ⟨p, hp, -, frame, serves, -, same⟩ | same
      · exact .inl ⟨frame, p, hp, serves, by rw [same]⟩
      · exact .inr (by rw [same])
  have unfinished (i : Nat) (hi : i ∈ c.shared.frames.above) : ¬Finished c.shared.frames i := by
    rintro ⟨m, hm, past⟩
    have idle := rest.idle i hi
    simp [hm, Mailbox.isIdle, past] at idle
  constructor
  case refs => rfl
  case left => exact ⟨0, le_rfl, le_rfl, Nat.zero_le _, rfl⟩
  case boxes =>
    intro j i hj
    have idle := rest.idle i (List.mem_of_getElem? hj)
    rcases hm : c.shared.frames.mailbox? i with _ | m
    · simp [hm] at idle
    · simp only [hm, Option.any_some, Mailbox.isIdle, Bool.and_eq_true, Option.isNone_iff_eq_none,
        Bool.not_eq_true'] at idle
      obtain ⟨⟨⟨⟨slot, exit⟩, closed⟩, unfinished⟩, server⟩ := idle
      refine ⟨m, rfl, slot, server, closed.trans unfinished.symm, by simp [exit], by simp [exit], ?_⟩
      rw [unfinished]
      rintro ⟨⟩
  case served =>
    intro i hi
    obtain ⟨p, hp, serves⟩ := rest.served i hi
    refine ⟨p.1, there p hp, .inl ?_⟩
    rcases charge_of_parked (atFirst_of_mem numbered rest hp) with ⟨frame, serves', -, mine⟩ | ⟨none, -⟩
    · obtain rfl : frame = c.shared.frames.ref i := Option.some.inj (serves'.symm.trans serves)
      rw [mine]
      exact congrArg Duty.waits (ref_id fit i)
    · rw [none] at serves
      cases serves
  case waiting =>
    intro f i waits
    rcases duties f with ⟨frame, p, hp, serves, mine⟩ | free
    · obtain rfl : frame.id = i := by simpa [mine] using waits
      exact rest.serving p hp frame serves
    · simp [free] at waits
  case serving =>
    intro f i serves
    rcases duties f with ⟨frame, p, hp, -, mine⟩ | free
    · simp [mine] at serves
    · simp [free] at serves
  case closing =>
    intro f i left closes
    rcases duties f with ⟨frame, p, hp, -, mine⟩ | free
    · simp [mine] at closes
    · simp [free] at closes
  case clearing => exact fun i hi off => absurd hi off
  case off =>
    intro f i pending
    rcases duties f with ⟨frame, p, hp, -, mine⟩ | free
    · simp [mine, Duty.pending] at pending
    · simp [free, Duty.pending] at pending
  case shut => exact fun i hi past => absurd past (unfinished i hi)
  case known => rintro i ⟨⟩

/-- Once somebody has the broker disposed, the teardown is under way. -/
theorem underway_of_atRest (goesOn : ∀ p ∈ c.flows, p.2.AtEach brokerMachine (sequel (onset c)))
    (placed : ∀ name, c.shared.hooksOn name = some .broker →
      ∃ s ∈ c.shared.sessions.toList, s.ownsHooks ∧ s.engine = name)
    (alive : c.shared.phase ≠ .disposed) (name : String) :
    ∃ x hand,
      Underway (onset c) c.next ⟨c.spawn brokerMachine (.serveClient name .dispose), none, []⟩ x hand := by
  have flows : (c.spawn brokerMachine (.serveClient name .dispose)).flows = c.flows ++
    [(c.next, ⟨.serveClient name .dispose, body (.serveClient name .dispose), .root _⟩)] := rfl
  have mine : atFirst c c.next = start := if_pos rfl
  have numbered' := numbered.spawn brokerMachine (.serveClient name .dispose)
  have here (p) (hp : p ∈ (c.spawn brokerMachine (.serveClient name .dispose)).flows) :
      ((c.spawn brokerMachine (.serveClient name .dispose)).find? p.1).isSome := by
    rw [numbered'.find?_of_mem hp]
    rfl
  have unchanged (i : Nat) : (atFirst c i).change = none ∧ (atFirst c i).seen = none := by
    by_cases same : i = c.next
    · rw [same, mine]
      exact ⟨rfl, rfl⟩
    · obtain ⟨duty, plain⟩ := atFirst_plain numbered rest same
      rw [plain]
      exact ⟨rfl, rfl⟩
  refine ⟨⟨false, 0, 0, [], false, none, false⟩, atFirst c, ?_⟩
  refine ⟨numbered', fun p hp => ?_, fun p hp => ?_, ?_, ⟨rest.tasks, rest.pumps, fun promise hp => ?_⟩,
    by rintro i ⟨⟩, fun none => ?_⟩
  · rcases List.mem_append.mp (flows ▸ hp) with old | new
    · exact minds_of_parked (goesOn p old) (atFirst_of_mem numbered rest old)
    · obtain rfl := List.mem_singleton.mp new
      simp only [mine]
      exact ⟨some start, minds_iff.mpr (does_serveClient name), trivial⟩
  · rcases List.mem_append.mp (flows ▸ hp) with old | new
    · exact outermost_of_parked (atFirst_of_mem numbered rest old)
    · obtain rfl := List.mem_singleton.mp new
      rfl
  · constructor
    case mine => rw [mine]; rfl
    case others =>
      intro i other
      obtain ⟨duty, plain⟩ := atFirst_plain numbered rest other
      rw [plain]
    case frames =>
      exact frames_atFirst numbered rest fit _ fun p hp => here p (flows ▸ List.mem_append_left _ hp)
    case sessions =>
      have nothing : (atFirst c c.next).deeds = [] := by
        rw [mine]
        rfl
      rw [Option.getD_none, nothing]
      exact ⟨rfl, List.suffix_refl _, by rintro ⟨⟩, by rintro ⟨⟩, placed, fun _ => by simp [standing]; rfl⟩
    case changing =>
      intro i
      simp [(unchanged i).1]
    case quiet => rintro ⟨⟩
    case engines => exact fun _ => rfl
    case phase => exact ⟨fun disposed => absurd disposed alive, by rintro ⟨⟩⟩
    case ended => rintro ⟨⟩
    case seen =>
      intro i n seen
      rw [(unchanged i).2] at seen
      cases seen
  · have waits := rest.awaited promise hp
    rcases found : c.shared.promises[promise]? with _ | _ | payload | _
    case some.open => exact .inl found
    all_goals simp [found, Promise.isOpen] at waits
  · have present := here _ (flows ▸ List.mem_append_right c.flows (List.mem_singleton_self _))
    simp only [none] at present
    cases present

end Teardown

end SessionBroker
