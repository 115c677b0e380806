import SessionBroker.Proofs.Contract
import SessionBroker.Proofs.Ledger
import SessionBroker.Proofs.Mailbox

/-!
# Requests in mailboxes

A request that stands in a mailbox has not been run as long as it waits, is posted or came back
unserved. Here is what every operation does to the requests in a mailbox, and to how many of them
have not been run.
-/

namespace SessionBroker.Mailbox

section Entries

variable {ρ α : Type} {m n : Mailbox ρ α} {id : Nat} {c : Caller ρ α}

/-- A caller without its mark. -/
def Caller.entry (c : Caller ρ α) : Caller ρ α := { c with woken := false }

/-- The callers, whether they are marked or not. -/
def entries (m : Mailbox ρ α) : List (Caller ρ α) := m.callers.map Caller.entry

/-- The stage of one entry changes. -/
def setStage (l : List (Caller ρ α)) (id : Nat) (stage : Stage α) : List (Caller ρ α) :=
  l.map fun e => if e.id = id then { e with stage := stage } else e

@[simp] theorem entry_id : c.entry.id = c.id := rfl
@[simp] theorem entry_request : c.entry.request = c.request := rfl
@[simp] theorem entry_stage : c.entry.stage = c.stage := rfl

theorem mem_entries {e : Caller ρ α} : e ∈ m.entries ↔ ∃ c ∈ m.callers, c.entry = e := List.mem_map

theorem entry_mem (hc : c ∈ m.callers) : c.entry ∈ m.entries := List.mem_map_of_mem hc

theorem ids_entries : m.entries.map (·.id) = m.callers.map (·.id) := by
  simp [entries, Function.comp_def]

theorem mem_setStage {l : List (Caller ρ α)} {stage : Stage α} {e : Caller ρ α} :
    e ∈ setStage l id stage ↔
      ∃ d ∈ l, d.id = id ∧ e = { d with stage := stage } ∨ d.id ≠ id ∧ e = d := by
  simp only [setStage, List.mem_map]
  refine exists_congr fun d => ?_
  by_cases h : d.id = id <;> simp [h, eq_comm]

/-- Whom one changes without changing number, request or stage is the same entry. -/
theorem entries_modify {f : Caller ρ α → Caller ρ α} (same : ∀ c, (f c).entry = c.entry) :
    (m.modify id f).entries = m.entries := by
  simp only [entries, modify, List.map_map]
  refine List.map_congr_left fun c _ => ?_
  simp only [Function.comp]
  split
  · exact same c
  · rfl

theorem entries_modify_stage {f : Caller ρ α → Caller ρ α} {stage : Stage α}
    (same : ∀ c, (f c).entry = { c.entry with stage := stage }) :
    (m.modify id f).entries = setStage m.entries id stage := by
  simp only [entries, modify, setStage, List.map_map]
  refine List.map_congr_left fun c _ => ?_
  by_cases h : c.id = id
  · simpa [h] using same c
  · simp [h]

theorem entries_wake : (m.wake id).entries = m.entries := entries_modify fun _ => rfl

theorem entries_passTurn : m.passTurn.entries = m.entries := by
  unfold passTurn
  split
  · rfl
  · exact entries_modify fun _ => rfl

theorem entries_wakeWaiting : m.wakeWaiting.entries = m.entries := by
  simp only [entries, wakeWaiting, List.map_map]
  refine List.map_congr_left fun c _ => ?_
  simp only [Function.comp]
  split <;> rfl

theorem entries_drop : (m.drop id).entries = m.entries.filter (·.id ≠ id) := by
  have kept : ({ m with
      callers := m.callers.filter (·.id ≠ id), queue := m.queue.filter (· ≠ id) }
      : Mailbox ρ α).entries = m.entries.filter (·.id ≠ id) := by
    simp only [entries, List.filter_map]
    rfl
  show (if m.turn = some id then _ else _ : Mailbox ρ α).entries = _
  split
  · rw [entries_passTurn]
    exact kept
  · exact kept

theorem fill_cases (m : Mailbox ρ α) (id : Nat) (q : ρ) :
    (m.fill id q).entries = m.entries ∧ (m.fill id q).slot = m.slot ∨
    (m.fill id q).entries = setStage m.entries id .posted ∧ (m.fill id q).slot = some (id, q) := by
  unfold fill
  split
  · exact .inl ⟨entries_modify fun _ => rfl, rfl⟩
  · exact .inr ⟨entries_passTurn.trans (entries_modify_stage fun _ => rfl), passTurn_slot⟩

@[simp] theorem drop_slot : (m.drop id).slot = m.slot := by
  show (if m.turn = some id then _ else _ : Mailbox ρ α).slot = _
  split
  · rw [passTurn_slot]
  · rfl

/-! ### Operations -/

theorem ask_entries {q : ρ} {r : Option (Answer α)} (fresh : m.Fresh id) (h : m.ask id q = (r, n)) :
    r = some .refused ∧ n = m ∨ r = none ∧
      (n.entries = m.entries ++ [⟨id, q, .waiting, false⟩] ∧ n.slot = m.slot ∨
        n.entries = m.entries ++ [⟨id, q, .posted, false⟩] ∧ n.slot = some (id, q)) := by
  have joined : ∀ l : List (Caller ρ α), l = m.callers ++ [⟨id, q, .waiting, false⟩] →
      l.map Caller.entry = m.entries ++ [⟨id, q, .waiting, false⟩] := by
    rintro _ rfl
    simp [entries, Caller.entry]
  obtain ⟨-, e⟩ | ⟨-, -, e⟩ | ⟨-, -, e⟩ := ask_cases m id q
  · rw [e] at h
    cases h
    exact .inl ⟨rfl, rfl⟩
  · rw [e] at h
    cases h
    refine .inr ⟨rfl, ?_⟩
    rcases fill_cases { m with
      callers := m.callers ++ [⟨id, q, .waiting, false⟩], turn := some id } id q with ⟨he, hs⟩ | ⟨he, hs⟩
    · exact .inl ⟨he.trans (joined _ rfl), hs⟩
    · refine .inr ⟨he.trans ?_, hs⟩
      rw [show entries _ = _ from joined _ rfl]
      have away : ∀ e ∈ m.entries, e.id ≠ id := by
        intro e he
        obtain ⟨c, hc, rfl⟩ := mem_entries.mp he
        exact fresh.1 c hc
      have stays : setStage m.entries id .posted = m.entries := by
        conv_rhs => rw [← List.map_id m.entries]
        exact List.map_congr_left fun e he => if_neg (away e he)
      simp only [setStage, List.map_append] at stays ⊢
      rw [stays]
      simp
  · rw [e] at h
    cases h
    exact .inr ⟨rfl, .inl ⟨joined _ rfl, rfl⟩⟩

/-- One who looks again is not known, gets an answer or is turned away and leaves, may now be posted,
or waits on. -/
theorem look_entries {r : Option (Answer α)} (h : m.look id = (r, n)) :
    (∀ e ∈ m.entries, e.id ≠ id) ∨ ∃ e ∈ m.entries, e.id = id ∧
      ((∃ a, r = some a ∧ (e.stage = .answered a ∨ e.stage = .waiting ∧ a = .refused) ∧
          n.entries = m.entries.filter (·.id ≠ id) ∧ n.slot = m.slot) ∨
        r = none ∧ (n.entries = m.entries ∧ n.slot = m.slot ∨ e.stage = .waiting ∧
          n.entries = setStage m.entries id .posted ∧ n.slot = some (id, e.request))) := by
  unfold look at h
  split at h
  · next none =>
    refine .inl fun e he => ?_
    obtain ⟨c, hc, rfl⟩ := mem_entries.mp he
    simpa using List.find?_eq_none.mp none c hc
  · next c hf =>
    have hc := List.mem_of_find?_eq_some hf
    have found : c.id = id := by simpa using List.find?_some hf
    refine .inr ⟨c.entry, entry_mem hc, found, ?_⟩
    split at h
    · next a ha =>
      cases h
      exact .inl ⟨a, rfl, .inl ha, entries_drop, drop_slot⟩
    · next hw =>
      split_ifs at h with past turn
      · cases h
        exact .inl ⟨.refused, rfl, .inr ⟨hw, rfl⟩, entries_drop, drop_slot⟩
      · cases h
        rcases fill_cases m id c.request with same | posted
        · exact .inr ⟨rfl, .inl same⟩
        · exact .inr ⟨rfl, .inr ⟨hw, posted⟩⟩
      · cases h
        exact .inr ⟨rfl, .inl ⟨entries_modify fun _ => rfl, rfl⟩⟩
    · cases h
      exact .inr ⟨rfl, .inl ⟨entries_modify fun _ => rfl, rfl⟩⟩

theorem handOver_entries (m : Mailbox ρ α) (id : Nat) : (m.handOver id).entries = setStage m.entries id .handedOver ∧
    (m.handOver id).slot = none := by
  have handed : ({ m with slot := none }.modify id ({ · with stage := .handedOver })
      : Mailbox ρ α).entries = setStage m.entries id .handedOver :=
    entries_modify_stage fun _ => rfl
  unfold handOver
  split
  · exact ⟨entries_wake.trans handed, rfl⟩
  · exact ⟨handed, rfl⟩

theorem answer_entries (m : Mailbox ρ α) (id : Nat) (a : Answer α) :
    (m.answer id a).entries = setStage m.entries id (.answered a) ∧ (m.answer id a).slot = m.slot :=
  ⟨entries_modify_stage fun _ => rfl, rfl⟩

theorem tryExit_entries (action : ResumeAction) :
    (m.tryExit action).2.entries = m.entries ∧ (m.tryExit action).2.slot = m.slot := by
  unfold tryExit
  split
  · exact ⟨rfl, rfl⟩
  · exact ⟨entries_wakeWaiting, rfl⟩

theorem dispose_entries (m : Mailbox ρ α) :
    m.dispose.entries = m.entries ∧ m.dispose.slot = m.slot ∨
    ∃ i q, m.slot = some (i, q) ∧ m.dispose.entries = setStage m.entries i (.answered .refused) ∧
      m.dispose.slot = none := by
  unfold dispose
  split
  · exact .inl ⟨rfl, rfl⟩
  · split
    · next i q hs =>
      exact .inr ⟨i, q, hs, entries_wakeWaiting.trans (entries_modify_stage fun _ => rfl), rfl⟩
    · exact .inl ⟨entries_wakeWaiting, rfl⟩

end Entries

/-! ### Requests that have not been run -/

/-- Whether nobody has run the request of one who has come this far. -/
def Stage.isUnrun : Stage Response → Bool
  | .waiting | .posted | .answered .refused | .answered (.served (.error .frameExited)) => true
  | _ => false

/-- The request of a call, which nobody has run. -/
def holds (k : Nat) (c : Caller Request Response) : Bool := c.stage.isUnrun && c.request.call = k

variable {m n : Mailbox Request Response} {k : Nat} {e : Caller Request Response}

/-- How often a mailbox holds the request of a call. -/
def rights (m : Mailbox Request Response) (k : Nat) : Nat := m.entries.countP (holds k)

theorem countP_filter (unique : (m.entries.map (·.id)).Nodup) (he : e ∈ m.entries) :
    (m.entries.filter (·.id ≠ e.id)).countP (holds k) + (holds k e).toNat = m.rights k := by
  obtain ⟨before, after, split, -, gone⟩ := split_at_key unique he
  rw [gone, rights, split]
  simp only [List.countP_append, List.countP_cons]
  cases holds k e <;> simp
  omega

theorem countP_setStage (unique : (m.entries.map (·.id)).Nodup) (he : e ∈ m.entries)
    (stage : Stage Response) :
    (setStage m.entries e.id stage).countP (holds k) + (holds k e).toNat =
      m.rights k + (holds k { e with stage := stage }).toNat := by
  obtain ⟨before, after, split, changed, -⟩ := split_at_key unique he
  have changed : setStage m.entries e.id stage = before ++ { e with stage := stage } :: after :=
    changed fun e => { e with stage := stage }
  rw [changed, rights, split]
  simp only [List.countP_append, List.countP_cons]
  cases holds k e <;> cases holds k { e with stage := stage } <;> simp <;> omega

theorem rights_append {id : Nat} {q : Request} {stage : Stage Response} (unrun : stage.isUnrun)
    (entries : n.entries = m.entries ++ [⟨id, q, stage, false⟩]) :
    n.rights k = m.rights k + (decide (q.call = k)).toNat := by
  simp only [rights, entries, List.countP_append, List.countP_singleton, holds, unrun, Bool.true_and]
  by_cases mine : q.call = k <;> simp [mine]

theorem toNat_holds (e : Caller Request Response) : (holds k e).toNat =
    if e.stage.isUnrun then (decide (e.request.call = k)).toNat else 0 := by
  unfold holds
  cases e.stage.isUnrun <;> rfl

end SessionBroker.Mailbox

namespace SessionBroker.FrameStack

variable {s t : FrameStack} {i j k : Nat} {m n : Mailbox Request Response}

/-- How often the mailboxes of all frames hold the request of a call. -/
def rights (s : FrameStack) (k : Nat) : Nat :=
  (s.frames.map fun f => f.mailbox.elim 0 (·.rights k)).sum

/-- Mailboxes stay as they are, and there may be new ones. -/
structure Grows (s t : FrameStack) : Prop where
  old : ∀ {j m}, s.mailbox? j = some m → t.mailbox? j = some m
  new : ∀ {j m}, t.mailbox? j = some m → s.mailbox? j = some m ∨ m = .new
  rights : ∀ k, t.rights k = s.rights k

/-- One mailbox changes. -/
structure Moves (s t : FrameStack) (i : Nat) (m n : Mailbox Request Response) : Prop where
  before : s.mailbox? i = some m
  after : ∀ j, t.mailbox? j = if j = i then some n else s.mailbox? j
  rights : ∀ k, t.rights k + m.rights k = s.rights k + n.rights k

theorem grows_refl (s : FrameStack) : s.Grows s := ⟨id, .inl, fun _ => rfl⟩

theorem sum_modify {α : Type} (g : α → Nat) (f : α → α) {l : List α} {i : Nat} {a : α}
    (h : l[i]? = some a) : ((l.modify i f).map g).sum + g a = (l.map g).sum + g (f a) := by
  induction l generalizing i with
  | nil => simp at h
  | cons b rest ih =>
    cases i with
    | zero =>
      obtain rfl : b = a := by simpa using h
      simp only [List.modify_zero_cons, List.map_cons, List.sum_cons]
      omega
    | succ i =>
      have step := ih (by simpa using h)
      simp only [List.modify_succ_cons, List.map_cons, List.sum_cons]
      omega

theorem moves_modifyMailbox (f : Mailbox Request Response → Mailbox Request Response)
    (hm : s.mailbox? i = some m) : s.Moves (s.modifyMailbox i f) i m (f m) where
  before := hm
  after j := by
    rw [mailbox?_modifyMailbox]
    by_cases same : j = i
    · subst same
      simp [hm]
    · simp [same]
  rights k := by
    obtain ⟨fr, hf, hm⟩ := Option.bind_eq_some_iff.mp hm
    have moved := sum_modify (fun f : Frame => f.mailbox.elim 0 (·.rights k))
      (fun fr => { fr with mailbox := fr.mailbox.map f }) hf
    simpa [hm, FrameStack.rights, modifyMailbox, modify] using moved

/-- A mailbox that is not there, or that stays as it is, does not change. -/
theorem modifyMailbox_eq {f : Mailbox Request Response → Mailbox Request Response}
    (keeps : ∀ m, s.mailbox? i = some m → f m = m) : s.modifyMailbox i f = s := by
  have same : s.frames.modify i (fun fr => { fr with mailbox := fr.mailbox.map f }) = s.frames := by
    refine List.ext_getElem? fun j => ?_
    rw [List.getElem?_modify]
    by_cases mine : i = j
    · subst mine
      rcases hf : s.frames[i]? with _ | ⟨_, _, _, _, _ | m⟩
      · rfl
      · simp
      · have kept : f m = m := keeps m (by simp [mailbox?, get?, hf])
        simp [kept]
    · simp [mine]
  show FrameStack.mk _ _ = s
  rw [same]

theorem grows_modify {f : Frame → Frame} (keeps : ∀ fr, (f fr).mailbox = fr.mailbox) :
    s.Grows (s.modify i f) := by
  have same : ∀ j, (s.modify i f).mailbox? j = s.mailbox? j := by
    intro j
    simp only [mailbox?, get?_modify]
    cases s.get? j with
    | none => rfl
    | some fr => by_cases same : i = j <;> simp [same, keeps]
  refine ⟨fun h => (same _).trans h, fun h => .inl ((same _).symm.trans h), fun k => ?_⟩
  refine congrArg List.sum (List.ext_getElem? fun j => ?_)
  simp only [modify, List.getElem?_map, List.getElem?_modify]
  cases s.frames[j]? with
  | none => rfl
  | some fr => by_cases same : i = j <;> simp [same, keeps]

theorem grows_map {f : Frame → Frame} (keeps : ∀ fr, (f fr).mailbox = fr.mailbox) :
    s.Grows { s with frames := s.frames.map f } := by
  have same : ∀ j, mailbox? { s with frames := s.frames.map f } j = s.mailbox? j := by
    intro j
    simp only [mailbox?, get?, List.getElem?_map]
    cases s.frames[j]? with
    | none => rfl
    | some fr => exact keeps fr
  refine ⟨fun h => (same _).trans h, fun h => .inl ((same _).symm.trans h), fun k => ?_⟩
  simp [rights, Function.comp_def, keeps]

theorem grows_push (kind : FrameKind) (remote : Bool) : s.Grows (s.push kind remote).2 where
  old := by
    intro j m h
    obtain ⟨fr, hf, hm⟩ := Option.bind_eq_some_iff.mp h
    obtain ⟨bound, -⟩ := List.getElem?_eq_some_iff.mp hf
    refine Option.bind_eq_some_iff.mpr ⟨fr, ?_, hm⟩
    exact (List.getElem?_append_left bound).trans hf
  new := by
    intro j m h
    obtain ⟨fr, hf, hm⟩ := Option.bind_eq_some_iff.mp h
    rcases Nat.lt_or_ge j s.frames.length with bound | bound
    · exact .inl (Option.bind_eq_some_iff.mpr
        ⟨fr, (List.getElem?_append_left bound).symm.trans hf, hm⟩)
    · have hf := (List.getElem?_append_right bound).symm.trans hf
      have made := List.mem_of_getElem? hf
      rw [List.mem_singleton] at made
      subst made
      refine .inr ?_
      simp only [Frame.new] at hm
      split at hm <;> cases hm
      rfl
  rights k := by
    simp only [FrameStack.rights, push, List.map_append, List.sum_append, List.map_cons,
      List.map_nil, List.sum_cons, List.sum_nil, Frame.new]
    split <;> rfl

theorem grows_remove : s.Grows (s.remove i).2 := by
  unfold remove
  split <;> exact ⟨id, .inl, fun _ => rfl⟩

end SessionBroker.FrameStack
