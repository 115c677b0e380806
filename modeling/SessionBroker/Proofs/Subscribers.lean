import SessionBroker.Proofs.Settlement

/-!
# What subscribers know

Whoever changes the stack of sessions tells it before doing anything else that matters. As long as each
change and its notice are one step to all others who change the stack, the notices are a mirror of it:
the last one names the current session, and all together they count how deep the stack is. So one who
has received all of them knows the current session at any time.
-/

namespace SessionBroker

/-- What a notice tells of sessions: how the stack was changed, and which session is current now. -/
def Notice.session? : Notice → Option (SessionChange × Session)
  | .sessionChanged change now => some (change, now)
  | _ => none

namespace Tale

variable {M : Type}

def sessions (t : Tale M) : SessionStack := t.play.config.shared.sessions

def channel (t : Tale M) : Channel := t.play.config.shared.channel

end Tale

namespace Subscribers

/-! ## Notices -/

def told (sent : List Notice) : List (SessionChange × Session) := sent.filterMap Notice.session?

/-- The current session as far as one knows who knew the original one and has received some notices. -/
def known (original : Session) (received : List Notice) : Session :=
  ((told received).getLast?.map (·.2)).getD original

def entered (sent : List Notice) : Nat := (told sent).countP (·.1 = .enter)

def left (sent : List Notice) : Nat := (told sent).countP fun n => n.1 = .exit ∨ n.1 = .shutdown

section

variable {original : Session} {sent more : List Notice}

theorem told_append : told (sent ++ more) = told sent ++ told more := List.filterMap_append

/-- One goes on from what one knows. -/
theorem known_append : known original (sent ++ more) = known (known original sent) more := by
  unfold known
  rw [told_append, List.getLast?_append]
  cases (told more).getLast? <;> rfl

theorem entered_append : entered (sent ++ more) = entered sent + entered more := by
  simp only [entered, told_append, List.countP_append]

theorem left_append : left (sent ++ more) = left sent + left more := by
  simp only [left, told_append, List.countP_append]

/-- One who has lost nothing has received all notices from its position on. -/
theorem receive_eq {c : Channel} {position : Nat} {got : List Notice}
    (all : c.receive position = (0, got)) : got = c.sent.drop position := by
  obtain ⟨none, rfl⟩ := Prod.mk.inj all
  rw [show max position (c.sent.length - c.capacity) = position by omega]

end

/-! ## The mirror -/

/-- The notices mirror the stack. -/
structure Mirrors (t : SessionStack) (sent : List Notice) : Prop where
  current : known t.bottom sent = t.current
  depth : (entered sent : Int) - left sent = t.depth - 1

section

variable {t : SessionStack} {sent : List Notice} {s : Session}

theorem Mirrors.congr {others : List Notice} (mirrors : Mirrors t sent) (same : told others = told sent) :
    Mirrors t others := by
  constructor
  · rw [← mirrors.current, known, known, same]
  · rw [← mirrors.depth, entered, left, entered, left, same]

theorem mirrors_ofBottom (nothing : told sent = []) : Mirrors (.ofBottom s) sent := by
  constructor
  · simp [known, nothing, SessionStack.ofBottom, SessionStack.current]
  · simp [entered, left, nothing, SessionStack.depth, SessionStack.ofBottom]

theorem Mirrors.push (mirrors : Mirrors t sent) (s : Session) :
    Mirrors (t.push s) (sent ++ [.sessionChanged .enter s]) := by
  constructor
  · rw [known_append]
    rfl
  · have depth := mirrors.depth
    have more : entered [.sessionChanged .enter s] = 1 ∧ left [.sessionChanged .enter s] = 0 := ⟨rfl, rfl⟩
    rw [entered_append, left_append, SessionStack.depth_push, more.1, more.2]
    omega

theorem Mirrors.pop {change : SessionChange} (mirrors : Mirrors (t.push s) sent)
    (leaving : change ≠ .enter) : Mirrors t (sent ++ [.sessionChanged change t.current]) := by
  constructor
  · rw [known_append]
    rfl
  · have depth := mirrors.depth
    have more : entered [.sessionChanged change t.current] = 0 ∧
        left [.sessionChanged change t.current] = 1 := by
      cases change with
      | enter => exact absurd rfl leaving
      | exit | shutdown => exact ⟨rfl, rfl⟩
    rw [SessionStack.depth_push] at depth
    rw [entered_append, left_append, more.1, more.2]
    omega

/-- One who began with the current session and has lost nothing since knows the current session. -/
theorem Mirrors.known_receive {c : Channel} (mirrors : Mirrors t c.sent) {position : Nat}
    {got : List Notice} (all : c.receive position = (0, got)) :
    known (known t.bottom (c.sent.take position)) got = t.current := by
  rw [receive_eq all, ← known_append, List.take_append_drop, mirrors.current]

end

/-! ## What flows owe -/

/-- What one has done to the stack and not told yet. -/
inductive Owed where
  /-- A session was pushed. -/
  | entered (s : Session)
  /-- One was popped, and this one is current now. -/
  | left (now : Session)
  deriving DecidableEq

/-- The notice that tells it. -/
def Owed.Fits : Owed → SessionChange → Session → Prop
  | .entered s, change, told => change = .enter ∧ told = s
  | .left now, change, told => change ≠ .enter ∧ told = now

/-- Whoever pushes or pops a session owes a notice that says so. -/
def notices : Debts (Option Owed) where
  nothing := none
  pushed _ s := some (.entered s)
  popped _ now := some (.left now)
  founded _ := none
  worked _ _ k := k
  told _ := none
  registers _ _ := True
  tells change s k := ∃ o, k = some o ∧ o.Fits change s
  worked_nothing _ _ := rfl
  told_nothing := rfl

instance : notices.Fair where
  push s := by simp [SessionChanges.push, notices, Debts.due, Debts.after, Owed.Fits]
  pop change leaving := by
    refine ⟨rfl, fun popped => ?_⟩
    rcases popped with _ | ⟨s, now⟩
    · rfl
    · simp [leaving, notices, Debts.due, Debts.after, Owed.Fits]
  setUp e owns := by
    refine Program.pays_bind (by simp [Debts.due, Debts.after]) fun settings => ?_
    refine Program.pays_bind (by simp [Debts.due, Debts.after, notices]) fun found => ?_
    split
    · simp
    · refine Program.pays_bind (by simp) fun answer => ?_
      rcases answer with f | output
      · simp
      · simp only []
        split <;> simp [notices, Debts.due, Debts.after]

/-- Nothing was told yet of sessions, and there is none but the original one. -/
def Untold (w : World) : Prop := w.sessions.above = [] ∧ told w.channel.sent = []

instance : DecidablePred Untold := fun _ => inferInstanceAs (Decidable (_ ∧ _))

/-- The notices mirror the stack as soon as what is owed is told. -/
def Tells (k : Option Owed) (w : World) : Prop :=
  match k with
  | none => Mirrors w.sessions w.channel.sent
  | some o => ∀ change s, o.Fits change s → Mirrors w.sessions (w.channel.sent ++ [.sessionChanged change s])

/-- Nothing matters but the stack and what was told of sessions. -/
theorem Tells.congr {k : Option Owed} {w u : World} (tells : Tells k w) (sessions : u.sessions = w.sessions)
    (same : told u.channel.sent = told w.channel.sent) : Tells k u := by
  cases k with
  | none =>
    rw [Tells, sessions]
    exact Mirrors.congr tells same
  | some o =>
    intro change s fits
    rw [sessions]
    refine (tells change s fits).congr ?_
    rw [told_append, told_append, same]

theorem told_noticesOf {action : Action} (due : notices.due action none) :
    told (World.noticesOf action) = [] := by
  cases action with
  | broker op =>
    cases op
    case notify n =>
      cases n
      case sessionChanged change s =>
        obtain ⟨_, ⟨⟩, -⟩ := due
      all_goals rfl
    all_goals rfl
  | _ => rfl

/-- Whoever changes the stack owes what is missing, and whoever tells it tells the right thing. -/
theorem Tells.pay {k : Option Owed} {w u : World} {flow : Nat} {pick : Bool} {action : Action}
    {r : action.Reply} (tells : Tells k w) (performed : World.perform flow pick action w = some (r, u))
    (due : notices.due action k) (first : action.founds → Untold w) : Tells (notices.after action r k) u := by
  have sessions := World.sessions_perform performed
  have sent := World.sent_perform performed
  have quiet (unmoved : World.sessionsAfter w.sessions action = w.sessions)
      (untold : told (World.noticesOf action) = []) : Tells k u := by
    refine tells.congr (sessions.trans unmoved) ?_
    rw [sent, told_append, untold, List.append_nil]
  cases action with
  | sessions op =>
    rw [show World.noticesOf (.sessions op) = [] from rfl, List.append_nil] at sent
    cases op
    case push s =>
      obtain rfl : k = none := due
      rintro _ _ ⟨rfl, rfl⟩
      rw [sessions, sent]
      exact Mirrors.push tells _
    case pop =>
      obtain rfl : k = none := due
      simp only [World.perform, World.performSessions] at performed
      split at performed
      · next bottom =>
        obtain ⟨rfl, -⟩ := Prod.mk.inj (Option.some.inj performed)
        refine quiet ?_ rfl
        rw [World.sessionsAfter, bottom]
        rfl
      · next s rest popped =>
        obtain ⟨rfl, -⟩ := Prod.mk.inj (Option.some.inj performed)
        have mirrors : Mirrors (rest.push s) w.channel.sent := SessionStack.pop?_eq_some.mp popped ▸ tells
        have now : u.sessions = rest := by
          rw [sessions, World.sessionsAfter, popped]
          rfl
        rintro change _ ⟨leaving, rfl⟩
        rw [now, sent]
        exact mirrors.pop leaving
    case found s =>
      show Mirrors _ _
      rw [sessions, sent]
      exact mirrors_ofBottom (first rfl).2
    all_goals exact quiet rfl rfl
  | broker op =>
    cases op
    case notify n =>
      cases n
      case sessionChanged change s =>
        obtain ⟨o, rfl, fits⟩ := due
        show Mirrors _ _
        rw [sessions, sent]
        exact tells change s fits
      all_goals exact quiet rfl rfl
    all_goals exact quiet rfl rfl
  | _ => exact quiet rfl rfl

theorem fits_tells : notices.Fits Untold Tells where
  outside change tells := by
    obtain ⟨sessions, channel⟩ := change.apply_apart _
    exact tells.congr sessions (by rw [channel])
  aside performed due alone tells := by
    refine tells.congr (World.sessions_perform_alone performed alone) ?_
    rw [World.sent_perform performed, told_append, told_noticesOf due, List.append_nil]
  pay performed due first tells := tells.pay performed due first

/-! ## Runs -/

/-- At any moment at which nobody is in the middle of a change of the stack, the last notice about a
session names the current one, which is the original one if there was none, and the sessions that were
entered and not left are those above the original one. So one who began to listen with the session that
was current then, and has lost nothing since, knows the current session. -/
theorem subscribers_know (settings : BrokerSettings) (endpoints : List (EngineName × Endpoint))
    (main : EngineName) (host : Host) (ms : List Move)
    (inTurn : notices.TakesTurns Untold (.new notices.lore settings endpoints main host) ms) :
    let t : Tale (Option Owed) := (Tale.new notices.lore settings endpoints main host).moves notices.lore ms
    notices.Settled t → Mirrors t.sessions t.channel.sent ∧
      ∀ position got, t.channel.receive position = (0, got) →
        known (known t.sessions.bottom (t.channel.sent.take position)) got = t.sessions.current := by
  intro t settled
  have mirrors : Mirrors t.sessions t.channel.sent :=
    Debts.fits_of_settled fits_tells inTurn (mirrors_ofBottom rfl) settled
  exact ⟨mirrors, fun position got all => mirrors.known_receive all⟩

/-! ### A session after the other -/

def twoEndpoints : List (EngineName × Endpoint) :=
  ["main", "second"].map fun name =>
    (name, ⟨.new ⟨5, 1⟩ ⟨1, "localhost", "host"⟩ [], false, none, none⟩)

/-- A session is pushed and popped, another one is pushed, and the broker is disposed. -/
def enterAndLeave : List Move :=
  [.arrive "set up" (.setUp "main" true)] ++ turns 0 30
    ++ [.arrive "near" (.pushSession "second" ⟨2, "localhost", "host"⟩ none none none)] ++ turns 1 12
    ++ [.arrive "back" .popSession] ++ turns 2 12
    ++ [.arrive "far" (.pushSession "second" ⟨3, "second", "host"⟩ (some "ssh") none none)] ++ turns 3 12
    ++ [.arrive "dispose" .dispose] ++ turns 4 60

/-- Two sessions were entered, one was left and one shut down, and who has heard of it knows that the
original session is current again. -/
theorem subscribers_know_after_dispose :
    let t := (Tale.new notices.lore .standard twoEndpoints "main" .new).moves notices.lore enterAndLeave
    (told t.channel.sent).map (·.1) = [.enter, .exit, .enter, .shutdown] ∧
      (∃ got, t.channel.receive 0 = (0, got) ∧ known t.sessions.bottom got = t.sessions.current) ∧
      t.sessions.above = [] := by
  have inTurn : notices.TakesTurns Untold (.new notices.lore .standard twoEndpoints "main" .new)
      enterAndLeave := by decide +kernel
  have settled : notices.Settled ((Tale.new notices.lore .standard twoEndpoints "main" .new).moves notices.lore
      enterAndLeave) := by decide +kernel
  have changes : (told ((Tale.new notices.lore .standard twoEndpoints "main" .new).moves notices.lore
      enterAndLeave).channel.sent).map (·.1) = [.enter, .exit, .enter, .shutdown] := by decide +kernel
  have alone : ((Tale.new notices.lore .standard twoEndpoints "main" .new).moves notices.lore
      enterAndLeave).sessions.above = [] := by decide +kernel
  have none : (((Tale.new notices.lore .standard twoEndpoints "main" .new).moves notices.lore
      enterAndLeave).channel.receive 0).1 = 0 := by decide +kernel
  have knows := subscribers_know .standard twoEndpoints "main" .new enterAndLeave inTurn settled
  -- from here on the broker need not be computed any more
  generalize (Tale.new notices.lore .standard twoEndpoints "main" .new).moves notices.lore enterAndLeave = t
    at changes alone none knows ⊢
  exact ⟨changes, ⟨_, Prod.ext none rfl, knows.2 0 _ (Prod.ext none rfl)⟩, alone⟩

end Subscribers

end SessionBroker
