import SessionBroker.Proofs.Debts
import SessionBroker.Proofs.Lore
import SessionBroker.Proofs.Parts

/-!
# Runs in which debts are paid

As long as nobody changes the stack of sessions while somebody else still owes something for the last
change, at most one flow owes anything at any time. What is true of the world together with this debt is
true whenever nobody owes anything.
-/

namespace SessionBroker

variable {K : Type}

/-- Whether an action changes the stack of sessions, if there is one to pop. -/
def Action.changesStack : Action → Bool
  | .sessions (.push _) | .sessions .pop | .sessions (.found _) => true
  | _ => false

/-- Whether one begins with a session. -/
def Action.founds : Action → Bool
  | .sessions (.found _) => true
  | _ => false

/-- Whoever leaves the stack alone does nothing to it. -/
theorem World.sessions_perform_alone {w u : World} {flow : Nat} {pick : Bool} {action : Action}
    {r : action.Reply} (h : World.perform flow pick action w = some (r, u))
    (alone : action.changesStack = false) : u.sessions = w.sessions := by
  rw [World.sessions_perform h]
  cases action with
  | sessions op => cases op <;> first | rfl | cases alone
  | _ => rfl

/-- What happens outside concerns neither the sessions nor the notices. -/
theorem Outside.apply_apart (change : Outside) (w : World) :
    (change.apply w).sessions = w.sessions ∧ (change.apply w).channel = w.channel := by
  cases change <;> exact ⟨rfl, rfl⟩

namespace Debts

variable (D : Debts K)

/-- Everybody remembers what it owes, and owes nothing when it calls a procedure and when it is done. -/
def lore : Lore brokerInterface World K where
  blank := D.nothing
  note action r _ k := D.after action r k
  acts := D.due
  calls _ k := k = D.nothing
  starts _ _ := True
  back _ _ _ k := k = D.nothing

variable {D}

theorem minds_of_pays {α : Type} {p : Code α} {k : K} (pays : p.Pays D k) :
    p.Minds D.lore brokerMachine (fun _ k => k = D.nothing) k := by
  induction p generalizing k with
  | done a => exact pays
  | act action next ih => exact ⟨pays.1, fun _ _ _ r _ _ => ih r (pays.2 r)⟩
  | call proc next ih =>
    refine ⟨pays.1, fun r k' back => ?_⟩
    obtain rfl : k' = D.nothing := back
    exact ih r (pays.2 r)
  | fork proc next ih => exact ⟨trivial, ih pays⟩

theorem bodies [D.Fair] : D.lore.Bodies brokerMachine where
  minds proc k nothing := by
    obtain rfl : k = D.nothing := nothing
    exact minds_of_pays (pays_body proc)
  fresh _ _ _ := rfl

/-- One who owes nothing and leaves the stack alone owes nothing afterwards. -/
theorem after_nothing {action : Action} (alone : action.changesStack = false) (r : action.Reply) :
    D.after action r D.nothing = D.nothing := by
  cases action with
  | engine e op => exact D.worked_nothing e op
  | sessions op => cases op <;> first | rfl | cases alone
  | broker op =>
    cases op
    case notify n => cases n <;> first | rfl | exact D.told_nothing
    all_goals rfl
  | _ => rfl

/-! ## One change at a time -/

variable (D)

/-- Nobody owes anything. -/
def Settled (t : Tale K) : Prop := ∀ id < t.play.config.next, t.memory id = D.nothing

instance [DecidableEq K] (t : Tale K) : Decidable (D.Settled t) := Nat.decidableBallLT _ _

variable (fresh : World → Prop)

/-- A move and the moment at which it is made. -/
structure InTurn (t : Tale K) (m : Move) : Prop where
  /-- Nobody changes the stack while something is owed for the last change. -/
  alone : (t.play.action? m).any Action.changesStack → D.Settled t
  /-- One begins with a session when everything is fresh. -/
  first : (t.play.action? m).any Action.founds → fresh t.play.config.shared

instance [DecidableEq K] [DecidablePred fresh] (t : Tale K) (m : Move) : Decidable (D.InTurn fresh t m) :=
  decidable_of_iff (((t.play.action? m).any Action.changesStack → D.Settled t) ∧
    ((t.play.action? m).any Action.founds → fresh t.play.config.shared))
    ⟨fun h => ⟨h.1, h.2⟩, fun h => ⟨h.1, h.2⟩⟩

/-- The stack is changed in turn all the time. -/
def TakesTurns : Tale K → List Move → Prop
  | _, [] => True
  | t, m :: ms => D.InTurn fresh t m ∧ TakesTurns (t.move D.lore m) ms

instance decidableTakesTurns [DecidableEq K] [DecidablePred fresh] :
    (t : Tale K) → (ms : List Move) → Decidable (D.TakesTurns fresh t ms)
  | _, [] => .isTrue trivial
  | t, m :: ms =>
    have := decidableTakesTurns (t.move D.lore m) ms
    inferInstanceAs (Decidable (D.InTurn fresh t m ∧ D.TakesTurns fresh (t.move D.lore m) ms))

/-- What is owed and the world fit together, whatever is done. -/
structure Fits (R : K → World → Prop) : Prop where
  outside : ∀ {k : K} {w : World} (change : Outside), R k w → R k (change.apply w)
  /-- One who owes nothing does something else. -/
  aside : ∀ {k : K} {w u : World} {flow : Nat} {pick : Bool} {action : Action} {r : action.Reply},
    World.perform flow pick action w = some (r, u) → D.due action D.nothing →
    action.changesStack = false → R k w → R k u
  /-- One who owes what is owed at all pays it, or one changes the stack while nothing is owed. -/
  pay : ∀ {k : K} {w u : World} {flow : Nat} {pick : Bool} {action : Action} {r : action.Reply},
    World.perform flow pick action w = some (r, u) → D.due action k → (action.founds → fresh w) →
    R k w → R (D.after action r k) u

/-- At most one flow owes something, and this fits the world. -/
structure Owing (R : K → World → Prop) (t : Tale K) (debtor : Nat) (k : K) : Prop where
  memory : t.memory = Function.update (fun _ => D.nothing) debtor k
  old : k ≠ D.nothing → debtor < t.play.config.next
  fits : R k t.play.config.shared

variable {D fresh} {R : K → World → Prop} {t : Tale K} {m : Move} {debtor : Nat} {k : K}

theorem Owing.eq_nothing (owing : D.Owing R t debtor k) (settled : D.Settled t) : k = D.nothing := by
  by_contra owed
  have nothing := settled debtor (owing.old owed)
  rw [owing.memory, Function.update_self] at nothing
  exact owed nothing

/-- Those who are still to come owe nothing. -/
theorem Owing.memory_next (owing : D.Owing R t debtor k) : t.memory t.play.config.next = D.nothing := by
  rw [owing.memory]
  by_cases same : t.play.config.next = debtor
  · by_cases owed : k = D.nothing
    · rw [same, Function.update_self, owed]
    · exact absurd (owing.old owed) (by omega)
  · rw [Function.update_of_ne same]

theorem Owing.move (right : D.Fits fresh R) (keeps : t.Keeps D.lore) (turn : D.InTurn fresh t m)
    (owing : D.Owing R t debtor k) : ∃ debtor' k', D.Owing R (t.move D.lore m) debtor' k' := by
  have next : t.play.config.next ≤ (t.move D.lore m).play.config.next := Play.next_le_move m
  cases t.moved (L := D.lore) m with
  | rest shared memory =>
    refine ⟨debtor, k, ?_, fun owed => (owing.old owed).trans_le next, ?_⟩
    · rcases memory with same | begun
      · rw [same, owing.memory]
      · rw [begun, show D.lore.blank = t.memory t.play.config.next from owing.memory_next.symm,
          Function.update_eq_self, owing.memory]
    · rcases shared with same | ⟨change, changed⟩
      · rw [same]
        exact owing.fits
      · rw [changed]
        exact right.outside change owing.fits
  | @act flow pick proc action _ wait r w step here performed shared memory =>
    obtain ⟨p, hp, found⟩ := Option.map_eq_some_iff.mp here
    have mem := List.mem_of_find?_eq_some hp
    obtain rfl : p.1 = flow := by simpa using List.find?_some hp
    obtain ⟨called, minds, -⟩ := keeps.2 p mem
    rw [found] at minds
    have due : D.due action (t.memory p.1) := minds.1
    have acts : t.play.action? m = some action := by
      rw [step, Play.action?, here]
      rfl
    have alone (changes : action.changesStack) : D.Settled t := turn.alone (by rw [acts]; exact changes)
    have first (founds : action.founds) : fresh t.play.config.shared := turn.first (by rw [acts]; exact founds)
    have old := (keeps.1.below p mem).trans_le next
    by_cases mine : p.1 = debtor
    · -- it is the one who owes something that acts
      have owed : t.memory p.1 = k := by rw [owing.memory, mine, Function.update_self]
      refine ⟨debtor, D.after action r k, ?_, fun _ => mine ▸ old, ?_⟩
      · rw [memory, owed, owing.memory, mine, Function.update_idem]
        rfl
      · rw [shared]
        exact right.pay performed (owed ▸ due) first owing.fits
    · have owed : t.memory p.1 = D.nothing := by rw [owing.memory, Function.update_of_ne mine]
      by_cases changes : action.changesStack
      · -- then nobody owed anything
        obtain rfl := owing.eq_nothing (alone changes)
        refine ⟨p.1, D.after action r D.nothing, ?_, fun _ => old, ?_⟩
        · rw [memory, owed, owing.memory, Function.update_eq_self_iff.mpr rfl]
          rfl
        · rw [shared]
          exact right.pay performed (owed ▸ due) first owing.fits
      · have other : action.changesStack = false := by simpa using changes
        refine ⟨debtor, k, ?_, fun owed => (owing.old owed).trans_le next, ?_⟩
        · rw [memory, show D.lore.note action r t.play.config.shared (t.memory p.1) = t.memory p.1 by
            rw [owed]
            exact after_nothing other r, Function.update_eq_self, owing.memory]
        · rw [shared]
          exact right.aside performed (owed ▸ due) other owing.fits

theorem Owing.moves [D.Fair] (right : D.Fits fresh R) {ms : List Move} (keeps : t.Keeps D.lore)
    (turns : D.TakesTurns fresh t ms) (owing : D.Owing R t debtor k) :
    ∃ debtor' k', D.Owing R (t.moves D.lore ms) debtor' k' := by
  induction ms generalizing t debtor k with
  | nil => exact ⟨debtor, k, owing⟩
  | cons m ms ih =>
    obtain ⟨debtor', k', owing'⟩ := owing.move right keeps turns.1
    exact ih (keeps.move bodies (fun _ _ => rfl) m) turns.2 owing'

/-- As long as the stack is changed in turn, the world is as it should be whenever nobody owes anything. -/
theorem fits_of_settled [D.Fair] (right : D.Fits fresh R) {settings : BrokerSettings}
    {endpoints : List (EngineName × Endpoint)} {main : EngineName} {host : Host} {ms : List Move}
    (turns : D.TakesTurns fresh (.new D.lore settings endpoints main host) ms)
    (new : R D.nothing (.new settings endpoints main host))
    (settled : D.Settled ((Tale.new D.lore settings endpoints main host).moves D.lore ms)) :
    R D.nothing ((Tale.new D.lore settings endpoints main host).moves D.lore ms).play.config.shared := by
  have keeps : (Tale.new D.lore settings endpoints main host).Keeps D.lore :=
    Tale.keeps_moves bodies (fun _ _ => rfl) settings endpoints main host []
  have owing : D.Owing R (.new D.lore settings endpoints main host) 0 D.nothing :=
    ⟨(Function.update_eq_self 0 _).symm, fun owed => absurd rfl owed, new⟩
  obtain ⟨_, _, later⟩ := owing.moves right keeps turns
  exact later.eq_nothing settled ▸ later.fits

end Debts

end SessionBroker
