import SessionBroker.Proofs.Accounts.Mail
import SessionBroker.Proofs.Accounts.Trades

/-!
# Parcels

The books stay right when frames come and go and requests are mailed: the right to run a request goes
into a mailbox with it, and comes out with the one who serves it or with its answer.
-/

namespace SessionBroker.Accounts

open Mailbox

variable {h : History} {l : Ledger} {all own out got : Multiset Stake} {s t : FrameStack}
  {i x : Nat} {q : Request} {m n : Mailbox Request Response}

/-- Tokens that change hands when requests are mailed. -/
def Stake.IsParcel : Stake → Prop
  | .right _ | .ran _ | .deposit .. | .duty .. => True
  | _ => False

/-- What mailboxes hold grows by no more than what is handed in. -/
theorem Balanced.mail (b : Balanced h l (out + all)) (mailed : Mailed h t l.next (got + all))
    (parcels : ∀ a ∈ got, a.IsParcel)
    (rights : ∀ k, t.rights k + got.countP (fun a => isRight l.promises k a) ≤
      l.frames.rights k + out.countP fun a => isRight l.promises k a)
    (ran : ∀ {q}, .ran q ∈ got → Ran h q) : Balanced h { l with frames := t } (got + all) := by
  have fewer : ∀ a : Stake, ¬a.IsParcel → (got + all).count a ≤ (out + all).count a := by
    intro a other
    have none : got.count a = 0 := Multiset.count_eq_zero.mpr fun ha => other (parcels a ha)
    rw [Multiset.count_add, Multiset.count_add, none, Nat.zero_add]
    exact Nat.le_add_left _ _
  obtain ⟨⟨jobs, pledged⟩, -, counted, computed⟩ := b
  refine ⟨⟨jobs, (pledged.less fun a ha => fewer a ?_).ledger rfl rfl⟩, mailed, ?_,
    computed.less fun a ha => ?_⟩
  · intro parcel
    cases a <;> first | exact ha | exact parcel
  · refine counted.step (fun k => ?_) (fun k => fewer _ id) le_rfl fun ha => ?_
    · have change := rights k
      simp only [uses, Multiset.countP_add]
      omega
    · rcases Multiset.mem_add.mp ha with ha | ha
      · exact ran ha
      · exact counted.ran (Multiset.mem_add.mpr (.inr ha))
  · by_cases parcel : a.IsParcel
    · cases a <;> first | exact ha.elim | exact parcel.elim
    · exact fewer a parcel

theorem Balanced.grow (b : Balanced h l all) (grows : l.frames.Grows t) :
    Balanced h { l with frames := t } all := by
  obtain ⟨⟨jobs, pledged⟩, mailed, counted, computed⟩ := b
  refine ⟨⟨jobs, pledged.ledger rfl rfl⟩, mailed.grow grows, ?_, computed⟩
  refine counted.step (fun k => ?_) (fun _ => le_rfl) le_rfl counted.ran
  simp only [uses, grows.rights k]
  exact le_rfl

theorem Balanced.within (b : Balanced h l all) (moves : l.frames.Moves t i m n)
    (mailed : Mailed h t l.next all) (rights : ∀ k, n.rights k = m.rights k) :
    Balanced h { l with frames := t } all := by
  rw [← zero_add all] at b mailed ⊢
  refine b.mail mailed (by simp) (fun k => ?_) (by simp)
  have moved := moves.rights k
  have kept := rights k
  omega

/-! ## Requests -/

theorem Balanced.mailbox (b : Balanced h l all)
    (ha : .deposit i x q ∈ all ∨ .duty i x q ∈ all) : ∃ m, l.frames.mailbox? i = some m := by
  rcases ha with ha | ha
  · obtain ⟨m, hm, -⟩ := b.mailed.deposit ha
    exact ⟨m, hm⟩
  · obtain ⟨m, hm, -⟩ := b.mailed.duty ha
    exact ⟨m, hm⟩

/-- Who puts a request down hands in the right to run it. -/
theorem Balanced.ask {r : Option (Answer Response)} (b : Balanced h l ({.fresh x} + {.right q} + all))
    (hm : l.frames.mailbox? i = some m) (asked : m.ask x q = (r, n)) :
    r = some .refused ∧ n = m ∨ r = none ∧
      Balanced h { l with frames := l.frames.modifyMailbox i fun _ => n } ({.deposit i x q} + all) := by
  have mine : .fresh x ∈ ({.fresh x} + {.right q} + all : Multiset Stake) := by simp
  have once : .fresh x ∉ all := by
    intro again
    have asked := b.counted.asked x
    have twice := Multiset.count_pos.mpr again
    simp only [Multiset.count_add, Multiset.count_singleton_self] at asked
    omega
  have fresh : m.Fresh x := (b.mailed.box hm).fresh (b.mailed.fresh mine hm)
  obtain same | ⟨rfl, entries⟩ := ask_entries fresh asked
  · exact .inl same
  refine .inr ⟨rfl, b.mail ?_ (by simp [Stake.IsParcel]) (fun k => ?_) (by simp)⟩
  · refine Mailed.ask (b.mailed.less fun a _ => ?_) once (b.counted.bound mine (by simp))
      (FrameStack.moves_modifyMailbox _ hm) asked
    exact Multiset.count_le_of_le a (add_le_add_left (Multiset.le_add_right _ _) _)
  · have moved := (FrameStack.moves_modifyMailbox (fun _ => n) hm).rights k
    have grown : n.rights k = m.rights k + (decide (q.call = k)).toNat := by
      rcases entries with ⟨entries, -⟩ | ⟨entries, -⟩
      · exact rights_append rfl entries
      · exact rights_append rfl entries
    simp only [Multiset.countP_add, countP_single, isRight_right]
    have none : isRight l.promises k (.deposit i x q) = false := rfl
    rw [none]
    simp only [Bool.toNat_false]
    omega

/-- What an answer is worth to the one who waited for it. -/
theorem Box.tell {next : Nat} {e : Caller Request Response} {a : Answer Response}
    (b : Box h next m) (he : e ∈ m.entries) (how : e.stage = .answered a ∨ e.stage = .waiting ∧ a = .refused) :
    Told e.request a {.right e.request} ∧ e.stage.isUnrun ∨
      Told e.request a {.ran e.request} ∧ Ran h e.request := by
  rcases how with how | ⟨how, rfl⟩
  · cases a with
    | refused => exact .inl ⟨rfl, by rw [how]; rfl⟩
    | served r =>
      obtain ⟨run, ran⟩ | rfl := b.told e he r how
      · exact .inr ⟨.inl ⟨run, rfl⟩, ran⟩
      · exact .inl ⟨.inr ⟨rfl, rfl⟩, by rw [how]; rfl⟩
  · exact .inl ⟨rfl, by rw [how]; rfl⟩

/-- Who gets an answer gets what it is worth. -/
theorem Balanced.look (b : Balanced h l ({.deposit i x q} + all)) {r : Option (Answer Response)}
    (hm : l.frames.mailbox? i = some m) (looked : m.look x = (r, n)) :
    (r = none → Balanced h { l with frames := l.frames.modifyMailbox i fun _ => n }
        ({.deposit i x q} + all)) ∧
      ∀ a, r = some a → ∃ got, Told q a got ∧
        Balanced h { l with frames := l.frames.modifyMailbox i fun _ => n } (got + all) := by
  have moves := FrameStack.moves_modifyMailbox (fun _ => n) hm
  constructor
  · rintro rfl
    obtain ⟨mailed, rights⟩ := b.mailed.look_on (q := q) (by simp) moves looked
    exact b.within moves mailed rights
  · rintro a rfl
    have box := b.mailed.box hm
    obtain ⟨mailed, e, he, rfl, rfl, entries, how⟩ := b.mailed.look_off moves looked
    have left : ∀ k, n.rights k + (holds k e).toNat = m.rights k := fun k => by
      rw [← countP_filter box.unique he, rights, entries]
    obtain ⟨told, unrun⟩ | ⟨told, ran⟩ := box.tell he how
    · refine ⟨_, told, b.mail (mailed.less (count_le_of_kind id)) (by simp [Stake.IsParcel])
        (fun k => ?_) (by simp)⟩
      have moved := moves.rights k
      have gone := left k
      rw [toNat_holds, if_pos unrun] at gone
      simp only [countP_single, isRight_right]
      omega
    · refine ⟨_, told, b.mail (mailed.less (count_le_of_kind id)) (by simp [Stake.IsParcel])
        (fun k => ?_) (by simpa using ran)⟩
      have moved := moves.rights k
      have gone := left k
      have none : isRight l.promises k (.ran e.request) = false := rfl
      simp only [countP_single, none, Bool.toNat_false]
      omega

theorem Balanced.take {next : Next Request} (b : Balanced h l all) (hm : l.frames.mailbox? i = some m)
    (taken : m.take? = some (next, n)) :
    Balanced h { l with frames := l.frames.modifyMailbox i fun _ => n } (handed i next + all) := by
  have moves := FrameStack.moves_modifyMailbox (fun _ => n) hm
  have box := b.mailed.box hm
  have unchanged : n = m →
      Balanced h { l with frames := l.frames.modifyMailbox i fun _ => n } (0 + all) := by
    rintro rfl
    rw [zero_add, FrameStack.modifyMailbox_eq fun m' hm' => Option.some.inj (hm.symm.trans hm')]
    exact b
  obtain ⟨action, -, rfl, same⟩ | ⟨-, -, rfl, same⟩ | ⟨x, q, past, hs, rfl, rfl⟩ := take_cases taken
  · exact unchanged same
  · exact unchanged same
  · obtain ⟨mailed, e, he, rfl, rfl, posted⟩ := b.mailed.handOver hs (isOver_false past).2 moves
    have entries := (handOver_entries m e.id).1
    rw [← zero_add all] at b
    refine b.mail ?_ (by simp [handed, Stake.IsParcel]) (fun k => ?_) (by simp [handed])
    · refine mailed.less fun a ha => ?_
      have same : handed i (.request e.id e.request) + all =
          {.right e.request} + ({.duty i e.id e.request} + all) := by
        simp only [handed]
        abel
      rw [same]
      exact count_le_of_kind id a ha
    · have moved := moves.rights k
      have changed := box.rights_setStage he entries k
      simp only [toNat_holds, posted, Stage.isUnrun, if_true] at changed
      have none : isRight l.promises k (.duty i e.id e.request) = false := rfl
      simp only [handed, Multiset.countP_add, countP_single, none, isRight_right, Bool.toNat_false,
        Multiset.countP_zero]
      simp only [Bool.false_eq_true, if_false] at changed
      omega

/-- Who answers a request hands in what the answer is worth. -/
theorem Balanced.answer {a : Answer Response} (b : Balanced h l ({.duty i x q} + own + all))
    (told : Told q a own) :
    Balanced h { l with frames := l.frames.modifyMailbox i (·.answer x a) } all := by
  obtain ⟨m, hm⟩ := b.mailbox (i := i) (x := x) (q := q) (.inr (by simp))
  have moves := FrameStack.moves_modifyMailbox (·.answer x a) hm
  have box := b.mailed.box hm
  have ran : ∀ r, a = .served r → hasRun r ∧ Ran h q ∨ r = .error .frameExited := by
    rintro r rfl
    obtain ⟨run, rfl⟩ | ⟨gone, -⟩ := told
    · exact .inl ⟨run, b.counted.ran (by simp)⟩
    · exact .inr gone
  have fewer : Mailed h l.frames l.next ({.duty i x q} + all) := b.mailed.less fun a _ =>
    Multiset.count_le_of_le a (add_le_add_left (Multiset.le_add_right _ _) _)
  obtain ⟨mailed, e, he, rfl, rfl, served⟩ := fewer.answer ran moves
  rw [← zero_add all] at mailed ⊢
  refine b.mail mailed (by simp) (fun k => ?_) (by simp)
  have moved := moves.rights k
  have changed := box.rights_setStage he (answer_entries m e.id a).1 k
  -- An answer that gives the request back gives back the right to run it.
  have worth : (holds k { e with stage := .answered a }).toNat ≤
      own.countP fun a => isRight l.promises k a := by
    cases a with
    | refused =>
      obtain rfl : own = {.right e.request} := told
      rw [countP_single, toNat_holds]
      exact le_rfl
    | served r =>
      obtain ⟨run, rfl⟩ | ⟨rfl, rfl⟩ := told
      · have notUnrun : Stage.isUnrun (.answered (.served r)) = false := by
          cases r with
          | ok outcome => rfl
          | error f => cases f <;> first | rfl | cases run
        rw [toNat_holds, notUnrun]
        exact Nat.zero_le _
      · rw [countP_single, toNat_holds]
        exact le_rfl
  simp only [toNat_holds e, served, Stage.isUnrun, Bool.false_eq_true, if_false] at changed
  simp only [Multiset.countP_add, Multiset.countP_zero]
  omega

theorem Balanced.tryExit (b : Balanced h l all) (hm : l.frames.mailbox? i = some m)
    (action : ResumeAction) :
    Balanced h { l with frames := l.frames.modifyMailbox i fun _ => (m.tryExit action).2 } all := by
  obtain ⟨entries, slot⟩ := tryExit_entries (m := m) action
  have moves := FrameStack.moves_modifyMailbox (fun _ => (m.tryExit action).2) hm
  exact b.within moves (b.mailed.same moves ((b.mailed.box hm).tidy.tryExit action) entries slot)
    fun k => by rw [rights, entries, ← rights]

theorem Balanced.attach (b : Balanced h l all) (server : Nat) :
    Balanced h { l with frames := l.frames.modifyMailbox i (·.attach server) } all := by
  rcases hm : l.frames.mailbox? i with _ | m
  · rw [FrameStack.modifyMailbox_eq (by simp [hm])]
    exact b
  · have moves := FrameStack.moves_modifyMailbox (·.attach server) hm
    exact b.within moves (b.mailed.same moves ((b.mailed.box hm).tidy.attach server) rfl rfl)
      fun k => rfl

theorem Balanced.dispose (b : Balanced h l all) :
    Balanced h { l with frames := l.frames.modifyMailbox i Mailbox.dispose } all := by
  rcases hm : l.frames.mailbox? i with _ | m
  · rw [FrameStack.modifyMailbox_eq (by simp [hm])]
    exact b
  · have moves := FrameStack.moves_modifyMailbox Mailbox.dispose hm
    obtain ⟨mailed, rights⟩ := b.mailed.dispose moves
    exact b.within moves mailed rights

end SessionBroker.Accounts
