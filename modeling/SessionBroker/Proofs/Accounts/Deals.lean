import SessionBroker.Proofs.Accounts.Parcels
import SessionBroker.Proofs.Plays
import SessionBroker.Proofs.Quiet

/-!
# Deals

Every action gives no more than it takes, and so does every call.
-/

namespace SessionBroker.Accounts

open Mailbox (Answer Next)

variable {h : History} {w u : World} {all : Multiset Stake} {flow : Nat} {pick : Bool}

/-! ## Who needs nothing -/

instance : contract.scope.Outer where
  acts a quiet := by
    rcases a with _ | op | _ | op | _ | op
    case frames => cases op <;> first | exact ⟨_, rfl, rfl⟩ | exact quiet.elim
    case idle =>
      cases op
      case schedule work => cases work <;> first | exact ⟨_, rfl, rfl⟩ | exact quiet.elim
      all_goals exact ⟨_, rfl, rfl⟩
    case broker =>
      cases op
      case ticket => exact ⟨_, ⟨_, .inl rfl, rfl⟩, rfl⟩
      case keep => exact quiet.elim
      case awaitPromise => exact ⟨_, .inl rfl, rfl⟩
      all_goals exact ⟨_, rfl, rfl⟩
    all_goals exact ⟨_, rfl, rfl⟩
  calls p outer := by cases p <;> first | exact ⟨_, rfl, rfl⟩ | exact outer.elim
  starts p root := by cases p <;> first | exact ⟨_, rfl, rfl⟩ | exact root.elim

/-! ## Actions -/

theorem acts_idly (right : books h w (0 + all))
    (same : u.ledger = w.ledger) : ∃ got, got = 0 ∧ books h u (got + all) :=
  ⟨0, rfl, by unfold books; rwa [same]⟩

theorem Balanced.idly {l : Ledger} (b : Balanced h l (0 + all)) {t : FrameStack}
    (grows : l.frames.Grows t) :
    ∃ got : Multiset Stake, got = 0 ∧ Balanced h { l with frames := t } (got + all) :=
  ⟨0, rfl, b.grow grows⟩

theorem acts_frames {l : Ledger} {t : FrameStack} {isCancelled : Option Token → Bool} {op : FrameOp}
    {r : op.Reply} (free : isCancelled none = false) (use : Use brokerInterface Stake (.frames op))
    (hu : use ∈ terms (.frames op)) (b : Balanced h l (use.takes + all))
    (hp : l.frames.perform flow isCancelled pick op = some (r, t)) :
    ∃ got, use.gives r got ∧ Balanced h { l with frames := t } (got + all) := by
  cases op
  case look i ticket caller =>
    obtain rfl := hu
    simp only [FrameStack.perform] at hp
    split at hp
    · cases hp
      exact ⟨0, ⟨by simp, rfl⟩, b.grow (FrameStack.grows_refl _)⟩
    · next f hf =>
      split at hp
      · cases hp
        refine ⟨0, ⟨fun gaveUp => ?_, rfl⟩, b.grow (FrameStack.grows_modify fun _ => rfl)⟩
        have cancelled := Gate.cancelled_look rfl gaveUp
        cases token : caller.token with
        | none => simp [token, free] at cancelled
        | some token => rfl
      · cases hp
  case ask i t q =>
    obtain rfl := hu
    simp only [FrameStack.perform] at hp
    rcases hm : l.frames.mailbox? i with _ | m
    · rw [hm] at hp
      cases hp
      refine ⟨{.right q}, ⟨rfl, rfl⟩, b.less fun a => ?_⟩
      exact Multiset.count_le_of_le a (add_le_add_left (Multiset.le_add_left _ _) _)
    · rcases asked : m.ask t q with ⟨reply, n⟩
      simp only [hm, asked] at hp
      cases hp
      obtain ⟨rfl, rfl⟩ | ⟨rfl, put⟩ := b.ask hm asked
      · refine ⟨{.right q}, ⟨rfl, rfl⟩, ?_⟩
        rw [FrameStack.modifyMailbox_eq fun m' hm' => Option.some.inj (hm.symm.trans hm')]
        exact b.less fun a =>
          Multiset.count_le_of_le a (add_le_add_left (Multiset.le_add_left _ _) _)
      · exact ⟨_, rfl, put⟩
  case lookMail i t =>
    obtain ⟨q, rfl⟩ := hu
    simp only [FrameStack.perform] at hp
    obtain ⟨m, hm⟩ := b.mailbox (i := i) (x := t) (q := q) (.inl (by simp))
    rcases looked : m.look t with ⟨reply, n⟩
    simp only [hm, looked] at hp
    split at hp
    · cases hp
      obtain ⟨waits, gets⟩ := b.look hm looked
      cases r with
      | none => exact ⟨_, rfl, waits rfl⟩
      | some a => exact gets a rfl
    · cases hp
  case take i =>
    obtain rfl := hu
    simp only [FrameStack.perform] at hp
    rcases hm : l.frames.mailbox? i with _ | m
    · rw [hm] at hp
      cases hp
      exact ⟨0, rfl, b⟩
    · rw [hm] at hp
      obtain ⟨⟨next, n⟩, taken, e⟩ := Option.map_eq_some_iff.mp hp
      cases e
      rw [zero_add] at b
      exact ⟨_, rfl, b.take hm taken⟩
  case answer i t a =>
    obtain ⟨q, own, told, rfl⟩ := hu
    cases hp
    exact ⟨0, rfl, by rw [zero_add]; exact b.answer told⟩
  case tryExit i action =>
    obtain rfl := hu
    simp only [FrameStack.perform] at hp
    rcases hm : l.frames.mailbox? i with _ | m
    · rw [hm] at hp
      cases hp
      exact ⟨0, rfl, b⟩
    · rw [hm] at hp
      cases hp
      exact ⟨0, rfl, b.tryExit hm action⟩
  case attach i =>
    obtain rfl := hu
    cases hp
    exact ⟨0, rfl, b.attach flow⟩
  case dispose i =>
    obtain rfl := hu
    cases hp
    exact ⟨0, rfl, b.dispose⟩
  case push kind remote =>
    obtain rfl := hu
    cases hp
    exact b.idly (FrameStack.grows_push kind remote)
  case remove i =>
    obtain rfl := hu
    obtain rfl : (l.frames.remove i).2 = t := congrArg Prod.snd (Option.some.inj hp)
    exact b.idly FrameStack.grows_remove
  case closeGate i | release i =>
    obtain rfl := hu
    cases hp
    exact b.idly (FrameStack.grows_modify fun _ => rfl)
  case awaitExit i =>
    obtain rfl := hu
    simp only [FrameStack.perform] at hp
    split at hp
    · cases hp
      exact b.idly (FrameStack.grows_refl _)
    · obtain ⟨_, -, e⟩ := Option.map_eq_some_iff.mp hp
      cases e
      exact b.idly (FrameStack.grows_refl _)
  case awaitFinish i =>
    obtain rfl := hu
    simp only [FrameStack.perform] at hp
    split at hp
    · cases hp
      exact b.idly (FrameStack.grows_refl _)
    · split at hp
      · cases hp
        exact b.idly (FrameStack.grows_refl _)
      · cases hp
  all_goals
    obtain rfl := hu
    cases hp
    exact b.idly (FrameStack.grows_refl _)

theorem acts_idle {op : IdleOp} {r : op.Reply} (use : Use brokerInterface Stake (.idle op))
    (hu : use ∈ terms (.idle op)) (right : books h w (use.takes + all))
    (hp : w.performIdle op = some (r, u)) : ∃ got, use.gives r got ∧ books h u (got + all) := by
  cases op
  case setActive active =>
    obtain rfl := hu
    cases hp
    refine ⟨0, rfl, ?_⟩
    unfold books
    rw [World.ledger_discard]
    cases active with
    | true => exact right
    | false =>
      have broken := Balanced.breakAll (l := w.ledger) right rfl
      exact broken
  case schedule work =>
    obtain rfl := hu
    simp only [World.performIdle, IdleQueue.schedule] at hp
    cases active : w.idle.active with
    | true =>
      simp only [active, if_true] at hp
      cases hp
      exact ⟨_, rfl, Balanced.schedule right⟩
    | false =>
      simp only [active, Bool.false_eq_true, if_false] at hp
      cases hp
      exact ⟨_, rfl, right⟩
  case take =>
    obtain rfl := hu
    rw [zero_add] at right
    simp only [World.performIdle, IdleQueue.take] at hp
    rcases ht : w.idle.tasks with _ | ⟨task, rest⟩
    · simp only [ht] at hp
      cases hp
      exact ⟨0, rfl, by rw [zero_add]; exact right⟩
    · simp only [ht] at hp
      cases hp
      exact ⟨_, rfl, Balanced.takeTask right ht⟩
  all_goals
    obtain rfl := hu
    cases hp
    exact ⟨0, rfl, right⟩

theorem acts_broker {op : BrokerOp} {r : op.Reply} (use : Use brokerInterface Stake (.broker op))
    (hu : use ∈ terms (.broker op)) (right : books h w (use.takes + all))
    (hp : World.perform flow pick (.broker op) w = some (r, u)) :
    ∃ got, use.gives r got ∧ books h u (got + all) := by
  cases op
  case ticket =>
    obtain ⟨f, new, rfl⟩ := hu
    rw [zero_add] at right
    cases hp
    refine ⟨_, rfl, Balanced.ticket right ?_⟩
    obtain rfl | ⟨c, o, rfl⟩ := new
    · exact .inl rfl
    · exact .inr ⟨_, rfl, rfl⟩
  case promise =>
    obtain rfl := hu
    rw [zero_add] at right
    cases hp
    exact ⟨_, rfl, Balanced.promise right⟩
  case keep p payload =>
    obtain ⟨j, own, gives, rfl⟩ := hu
    cases hp
    exact ⟨0, rfl, by rw [zero_add]; exact Balanced.keep right gives⟩
  case offer v =>
    obtain rfl := hu
    rw [zero_add] at right
    cases hp
    exact ⟨_, rfl, Balanced.offer right v⟩
  case takeAction n =>
    obtain rfl := hu
    rw [zero_add] at right
    cases hp
    exact ⟨_, rfl, Balanced.takeAction right n⟩
  case awaitPromise p =>
    have same := World.ledger_perform id hp
    obtain rfl | ⟨j, rfl⟩ := hu
    · exact acts_idly right same
    · unfold books at right ⊢
      rw [same]
      obtain ⟨jobs, pledged⟩ := right.pledged
      have bound : p < w.promises.length := pledged.bound (pledged.claim (p := p) (j := j) (by simp))
      simp only [World.perform, World.performBroker] at hp
      rcases hw : w.promises[p]? with _ | promise
      · exact absurd (List.getElem?_eq_none_iff.mp hw) (Nat.not_le.mpr bound)
      · obtain ⟨keeps, breaks⟩ := right.redeem hw
        rw [hw] at hp
        cases promise with
        | «open» => cases hp
        | kept payload =>
          cases hp
          exact keeps payload rfl
        | broken =>
          cases hp
          exact breaks rfl
  all_goals
    obtain rfl := hu
    exact acts_idly right (World.ledger_perform id hp)

/-- No action gives more than it takes. -/
theorem books_acts {action : Action} {r : action.Reply} (use : Use brokerInterface Stake action)
    (hu : use ∈ terms action) (right : books h w (use.takes + all))
    (hp : World.perform flow pick action w = some (r, u)) :
    ∃ got, use.gives r got ∧ books h u (got + all) := by
  cases action with
  | frames op =>
    obtain ⟨⟨reply, t⟩, hs, e⟩ := Option.map_eq_some_iff.mp hp
    cases e
    exact acts_frames rfl use hu right hs
  | idle op => exact acts_idle use hu right hp
  | broker op => exact acts_broker use hu right hp
  | _ =>
    obtain rfl := hu
    exact acts_idly right (World.ledger_perform id hp)

end SessionBroker.Accounts
