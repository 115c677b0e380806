import Mathlib.Algebra.Order.Group.Multiset
import Mathlib.Tactic.Abel
import SessionBroker.Proofs.Scope

/-!
# Contracts

A contract says which tokens the flows of a machine hand to each other. An action takes some tokens
of the flow that performs it and gives others; a caller pays the price of an errand and gets tokens
back with the result. Tokens may be lost, but none comes from nowhere: what all flows own together is
in the books, an invariant of the shared state. If the body of every procedure keeps the contract and
every action keeps the books, then the books are right after any steps of any flows.
-/

namespace SessionBroker

variable {I : Interface} {A σ : Type}

/-- How an action may be used: what it takes, and what it gives with a reply. -/
structure Use (I : Interface) (A : Type) (action : I.Action) where
  takes : Multiset A
  gives : I.Reply action → Multiset A → Prop

/-- On which terms a procedure may be called. -/
structure Errand (I : Interface) (A : Type) (proc : I.Proc) where
  /-- What the caller hands in. -/
  price : Multiset A
  /-- What the body begins with. -/
  stock : Multiset A
  /-- What nobody can use while the procedure is under way. -/
  kept : Multiset A
  /-- What the body has to have with a result. -/
  yields : I.Result proc → Multiset A → Prop
  /-- What the caller gets back, given what the body had. -/
  back : I.Result proc → Multiset A → Multiset A

/-- The errand that is about no token. -/
def Errand.free (proc : I.Proc) : Errand I A proc := ⟨0, 0, 0, fun _ _ => True, fun _ _ => 0⟩

/-- The uses and errands that are allowed. -/
structure Contract (I : Interface) (A : Type) where
  uses : (action : I.Action) → Set (Use I A action)
  errands : (proc : I.Proc) → Set (Errand I A proc)

namespace Program

variable {α β : Type}

/-- A program that owns some tokens keeps the contract and ends with what `post` asks for. -/
def Obeys (C : Contract I A) (post : α → Multiset A → Prop) : Program I α → Multiset A → Prop
  | .done a, own => ∃ y ≤ own, post a y
  | .act action next, own => ∃ u ∈ C.uses action, ∃ rest, u.takes + rest ≤ own ∧
      ∀ r got, u.gives r got → (next r).Obeys C post (got + rest)
  | .call proc next, own => ∃ e ∈ C.errands proc, ∃ rest, e.price + rest ≤ own ∧
      ∀ r y, e.yields r y → (next r).Obeys C post (e.back r y + rest)
  | .fork proc next, own => ∃ e ∈ C.errands proc, ∃ rest, e.price + rest ≤ own ∧
      next.Obeys C post rest

variable {C : Contract I A} {post : α → Multiset A → Prop} {p : Program I α}
  {own more rest : Multiset A}

theorem Obeys.mono (h : p.Obeys C post own) (le : own ≤ more) : p.Obeys C post more := by
  cases p with
  | done a =>
    obtain ⟨y, hy, hp⟩ := h
    exact ⟨y, hy.trans le, hp⟩
  | act action next =>
    obtain ⟨u, hu, rest, hr, hn⟩ := h
    exact ⟨u, hu, rest, hr.trans le, hn⟩
  | call proc next =>
    obtain ⟨e, he, rest, hr, hn⟩ := h
    exact ⟨e, he, rest, hr.trans le, hn⟩
  | fork proc next =>
    obtain ⟨e, he, rest, hr, hn⟩ := h
    exact ⟨e, he, rest, hr.trans le, hn⟩

theorem Obeys.imp {post' : α → Multiset A → Prop} (h : p.Obeys C post own)
    (weaker : ∀ a y, post a y → post' a y) : p.Obeys C post' own := by
  induction p generalizing own with
  | done a =>
    obtain ⟨y, hy, hp⟩ := h
    exact ⟨y, hy, weaker a y hp⟩
  | act action next ih =>
    obtain ⟨u, hu, rest, hr, hn⟩ := h
    exact ⟨u, hu, rest, hr, fun r got hg => ih r (hn r got hg)⟩
  | call proc next ih =>
    obtain ⟨e, he, rest, hr, hn⟩ := h
    exact ⟨e, he, rest, hr, fun r y hy => ih r (hn r y hy)⟩
  | fork proc next ih =>
    obtain ⟨e, he, rest, hr, hn⟩ := h
    exact ⟨e, he, rest, hr, ih hn⟩

/-- What a program does not need stays for what comes after it. -/
theorem Obeys.bind {M : α → Multiset A → Prop} {post : β → Multiset A → Prop}
    {f : α → Program I β} (h : p.Obeys C M own) (le : own + rest ≤ more)
    (hf : ∀ a y, M a y → (f a).Obeys C post (y + rest)) : (p >>= f).Obeys C post more := by
  induction p generalizing own more with
  | done a =>
    obtain ⟨y, hy, hm⟩ := h
    exact (hf a y hm).mono ((add_le_add_left hy rest).trans le)
  | act action next ih =>
    obtain ⟨u, hu, left, hl, hn⟩ := h
    refine ⟨u, hu, left + rest, ?_, fun r got hg => ih r (hn r got hg) ?_⟩
    · rw [← add_assoc]
      exact (add_le_add_left hl rest).trans le
    · rw [add_assoc]
  | call proc next ih =>
    obtain ⟨e, he, left, hl, hn⟩ := h
    refine ⟨e, he, left + rest, ?_, fun r y hy => ih r (hn r y hy) ?_⟩
    · rw [← add_assoc]
      exact (add_le_add_left hl rest).trans le
    · rw [add_assoc]
  | fork proc next ih =>
    obtain ⟨e, he, left, hl, hn⟩ := h
    refine ⟨e, he, left + rest, ?_, ih hn le_rfl⟩
    rw [← add_assoc]
    exact (add_le_add_left hl rest).trans le

theorem obeys_done {a : α} (h : post a own) : (done a : Program I α).Obeys C post own :=
  ⟨own, le_rfl, h⟩

theorem obeys_perform {post : β → Multiset A → Prop} {action : I.Action}
    {f : I.Reply action → Program I β} {u : Use I A action} {z : Multiset A} (hu : u ∈ C.uses action)
    (le : u.takes + z ≤ own)
    (next : ∀ r got, u.gives r got → (f r).Obeys C post (got + z)) :
    (perform action >>= f).Obeys C post own :=
  ⟨u, hu, z, le, next⟩

theorem obeys_invoke {post : β → Multiset A → Prop} {proc : I.Proc}
    {f : I.Result proc → Program I β} {e : Errand I A proc} {z : Multiset A} (he : e ∈ C.errands proc)
    (le : e.price + z ≤ own)
    (next : ∀ r y, e.yields r y → (f r).Obeys C post (e.back r y + z)) :
    (invoke proc >>= f).Obeys C post own :=
  ⟨e, he, z, le, next⟩

theorem obeys_start {post : β → Multiset A → Prop} {proc : I.Proc} {f : Unit → Program I β}
    {e : Errand I A proc} {z : Multiset A} (he : e ∈ C.errands proc) (le : e.price + z ≤ own)
    (next : (f ()).Obeys C post z) : (start proc >>= f).Obeys C post own :=
  ⟨e, he, z, le, next⟩

/-- A program keeps the contract and needs nothing. -/
abbrev Fair (C : Contract I A) (p : Program I α) : Prop := p.Obeys C (fun _ _ => True) 0

theorem Fair.then {f : α → Program I β} (h : p.Fair C) (hf : ∀ a, (f a).Fair C) :
    (p >>= f).Fair C :=
  h.bind (add_zero 0).le fun a _ _ => (hf a).mono (Multiset.zero_le _)

end Program

/-! ## Flows -/

/-- The callers that wait own what they kept back. -/
def Waiting.Obeys (C : Contract I A) : {p : I.Proc} → Waiting I p → Errand I A p → Multiset A → Prop
  | _, .root _, e, own => e.kept ≤ own
  | _, @Waiting.caller _ _ p next below, e, own => ∃ d ∈ C.errands p, ∃ rest under,
      e.kept + rest + under ≤ own
        ∧ (∀ r y, e.yields r y → (next r).Obeys C d.yields (e.back r y + rest))
        ∧ below.Obeys C d under

/-- A flow that owns some tokens keeps the contract. -/
def Flow.Obeys (C : Contract I A) (f : Flow I) (own : Multiset A) : Prop :=
  ∃ e ∈ C.errands f.proc, ∃ here below, here + below ≤ own
    ∧ f.code.Obeys C e.yields here ∧ f.waiting.Obeys C e below

/-- All flows together own some tokens and keep the contract. -/
def Owned (C : Contract I A) : List (Nat × Flow I) → Multiset A → Prop
  | [], _ => True
  | p :: rest, all => ∃ own others, own + others ≤ all ∧ p.2.Obeys C own ∧ Owned C rest others

variable {C : Contract I A} {fs gs : List (Nat × Flow I)} {p : Nat × Flow I} {own all more : Multiset A}

theorem Owned.mono (h : Owned C fs all) (le : all ≤ more) : Owned C fs more := by
  cases fs with
  | nil => trivial
  | cons p rest =>
    obtain ⟨own, others, hl, hp, hr⟩ := h
    exact ⟨own, others, hl.trans le, hp, hr⟩

theorem owned_append : Owned C (fs ++ gs) all ↔
    ∃ left right, left + right ≤ all ∧ Owned C fs left ∧ Owned C gs right := by
  induction fs generalizing all with
  | nil =>
    constructor
    · exact fun h => ⟨0, all, by simp, trivial, h⟩
    · rintro ⟨left, right, le, -, h⟩
      exact h.mono ((Multiset.le_add_left right left).trans le)
  | cons p rest ih =>
    constructor
    · rintro ⟨own, others, le, hp, hr⟩
      obtain ⟨left, right, le', hl, hr⟩ := ih.mp hr
      refine ⟨own + left, right, ?_, ⟨own, left, le_rfl, hp, hl⟩, hr⟩
      rw [add_assoc]
      exact (add_le_add_right le' own).trans le
    · rintro ⟨left, right, le, ⟨own, others, le', hp, hl⟩, hr⟩
      refine ⟨own, others + right, ?_, hp, ih.mpr ⟨others, right, le_rfl, hl, hr⟩⟩
      rw [← add_assoc]
      exact (add_le_add_left le' right).trans le

theorem owned_middle : Owned C (fs ++ p :: gs) all ↔
    ∃ own others, own + others ≤ all ∧ p.2.Obeys C own ∧ Owned C (fs ++ gs) others := by
  constructor
  · intro h
    obtain ⟨left, right, le, hl, own, others, le', hp, hr⟩ := owned_append.mp h
    refine ⟨own, left + others, ?_, hp, owned_append.mpr ⟨left, others, le_rfl, hl, hr⟩⟩
    have swap : own + (left + others) = left + (own + others) := by abel
    rw [swap]
    exact (add_le_add_right le' left).trans le
  · rintro ⟨own, others, le, hp, h⟩
    obtain ⟨left, right, le', hl, hr⟩ := owned_append.mp h
    refine owned_append.mpr ⟨left, own + right, ?_, hl, own, right, le_rfl, hp, hr⟩
    have swap : left + (own + right) = own + (left + right) := by abel
    rw [swap]
    exact (add_le_add_right le' own).trans le

/-! ## Configurations -/

/-- Something that is seen of a flow: it enters a procedure or returns from one. -/
inductive Event (I : Interface) where
  | entered (proc : I.Proc)
  | returned (proc : I.Proc) (result : I.Result proc)

/-- What is seen of the next step of a flow. -/
def Flow.event? : Flow I → Option (Event I)
  | ⟨proc, .done a, _⟩ => some (.returned proc a)
  | ⟨_, .call callee _, _⟩ => some (.entered callee)
  | ⟨_, .fork other _, _⟩ => some (.entered other)
  | ⟨_, .act .., _⟩ => none

theorem countP_cons_toNat {α : Type} (f : α → Bool) (a : α) (l : List α) :
    (a :: l).countP f = l.countP f + (f a).toNat := by
  rw [List.countP_cons]
  cases f a <;> rfl

/-- Where keys are unique, an element stands in one place, and what is done by its key is done there. -/
theorem split_at_key {α : Type} {key : α → Nat} {l : List α} (unique : (l.map key).Nodup) {a : α}
    (ha : a ∈ l) : ∃ before after, l = before ++ a :: after
      ∧ (∀ f : α → α, (l.map fun b => if key b = key a then f b else b) = before ++ f a :: after)
      ∧ l.filter (key · ≠ key a) = before ++ after := by
  obtain ⟨before, after, rfl⟩ := List.append_of_mem ha
  rw [List.map_append, List.map_cons, List.nodup_middle, List.nodup_cons] at unique
  have other : ∀ b ∈ before ++ after, key b ≠ key a := by
    intro b hb e
    refine unique.1 ?_
    rw [← List.map_append]
    exact List.mem_map.mpr ⟨b, hb, e⟩
  have kept : ∀ l : List α, (∀ b ∈ l, b ∈ before ++ after) → ∀ f : α → α,
      (l.map fun b => if key b = key a then f b else b) = l := by
    intro l hl f
    conv_rhs => rw [← List.map_id l]
    exact List.map_congr_left fun b hb => if_neg (other b (hl b hb))
  have stays : ∀ l : List α, (∀ b ∈ l, b ∈ before ++ after) → l.filter (key · ≠ key a) = l := by
    intro l hl
    exact List.filter_eq_self.mpr fun b hb => by simpa using other b (hl b hb)
  have inBefore : ∀ b ∈ before, b ∈ before ++ after := fun b hb => List.mem_append_left _ hb
  have inAfter : ∀ b ∈ after, b ∈ before ++ after := fun b hb => List.mem_append_right _ hb
  refine ⟨before, after, rfl, fun f => ?_, ?_⟩
  · simp [kept before inBefore f, kept after inAfter f]
  · have out : (a :: after).filter (key · ≠ key a) = after := by
      rw [List.filter_cons_of_neg (by simp), stays after inAfter]
    rw [List.filter_append, stays before inBefore, out]

/-- Flows are numbered. -/
structure Config.Numbered (c : Config I σ) : Prop where
  unique : (c.flows.map Prod.fst).Nodup
  below : ∀ p ∈ c.flows, p.1 < c.next

namespace Config

variable {c : Config I σ} {id : Nat} {f : Flow I}

/-- A flow stands somewhere among the others, and changes only there. -/
theorem Numbered.split (h : c.Numbered) (hf : c.find? id = some f) :
    ∃ before after, c.flows = before ++ (id, f) :: after
      ∧ (∀ g, (c.update id g).flows = before ++ (id, g) :: after)
      ∧ (c.remove id).flows = before ++ after := by
  obtain ⟨p, hp, rfl⟩ := Option.map_eq_some_iff.mp hf
  have found : p.1 = id := by simpa using List.find?_some hp
  subst found
  obtain ⟨before, after, flows, updated, removed⟩ :=
    split_at_key h.unique (List.mem_of_find?_eq_some hp)
  exact ⟨before, after, flows, fun g => updated fun _ => (p.1, g), removed⟩

theorem Numbered.update (h : c.Numbered) (id : Nat) (f : Flow I) : (c.update id f).Numbered where
  unique := by
    have same : (c.update id f).flows.map Prod.fst = c.flows.map Prod.fst := by
      simp only [Config.update, List.map_map]
      refine List.map_congr_left fun p _ => ?_
      simp only [Function.comp]
      split
      · next e => exact e.symm
      · rfl
    rw [same]
    exact h.unique
  below := by
    intro p hp
    obtain ⟨q, hq, rfl⟩ := List.mem_map.mp hp
    have old := h.below q hq
    split
    · next e => exact e ▸ old
    · exact old

theorem Numbered.remove (h : c.Numbered) (id : Nat) : (c.remove id).Numbered where
  unique := h.unique.sublist (List.filter_sublist.map _)
  below := fun p hp => h.below p (List.mem_filter.mp hp).1

theorem Numbered.spawn (h : c.Numbered) (m : Machine I σ) (proc : I.Proc) :
    (c.spawn m proc).Numbered where
  unique := by
    simp only [Config.spawn, List.map_append, List.map_cons, List.map_nil, List.nodup_append]
    refine ⟨h.unique, by simp, fun i hi j hj e => ?_⟩
    obtain ⟨p, hp, rfl⟩ := List.mem_map.mp hi
    have old := h.below p hp
    rw [e, List.mem_singleton.mp hj] at old
    exact lt_irrefl _ old
  below := by
    intro p hp
    rcases List.mem_append.mp hp with hp | hp
    · exact (h.below p hp).trans (Nat.lt_succ_self _)
    · rw [List.mem_singleton.mp hp]
      exact Nat.lt_succ_self _

/-- Flows stay numbered. -/
theorem Numbered.step {m : Machine I σ} {d : Config I σ} {pick : Bool} (numbered : c.Numbered)
    (hs : m.stepFlow c id pick f = some d) : d.Numbered := by
  have shared : ∀ s : σ, ({ c with shared := s } : Config I σ).Numbered :=
    fun s => ⟨numbered.unique, numbered.below⟩
  obtain ⟨proc, code, wait⟩ := f
  cases code with
  | done a =>
    cases wait with
    | root => cases hs; exact numbered.remove id
    | caller next under => cases hs; exact numbered.update id _
  | act action next =>
    simp only [Machine.stepFlow] at hs
    split at hs
    · cases hs
    · cases hs
      exact (shared _).update id _
  | call callee next => cases hs; exact numbered.update id _
  | fork other next => cases hs; exact (numbered.update id _).spawn m other

end Config

/-! ## The books -/

/-- An invariant of what has been seen, the shared state and the tokens in circulation. -/
abbrev Books (I : Interface) (A σ : Type) := List (Event I) → σ → Multiset A → Prop

/-- Everything that may happen keeps the books right. -/
structure Contract.Balances (C : Contract I A) (m : Machine I σ) (J : Books I A σ) : Prop where
  loses : ∀ {h s all less}, less ≤ all → J h s all → J h s less
  acts : ∀ {h s t all flow pick action r}, ∀ u ∈ C.uses action, J h s (u.takes + all) →
    m.perform flow pick action s = some (r, t) → ∃ got, u.gives r got ∧ J h t (got + all)
  enters : ∀ {h s all proc}, ∀ e ∈ C.errands proc, J h s (e.price + all) →
    J (.entered proc :: h) s (e.kept + e.stock + all)
  returns : ∀ {h s all proc r y}, ∀ e ∈ C.errands proc, e.yields r y → J h s (e.kept + y + all) →
    J (.returned proc r :: h) s (e.back r y + all)
  bodies : ∀ proc, ∀ e ∈ C.errands proc, (m.body proc).Obeys C e.yields e.stock

/-- The flows keep the contract and the books are right. -/
def Sound (C : Contract I A) (J : Books I A σ) (c : Config I σ) (h : List (Event I)) : Prop :=
  c.Numbered ∧ ∃ all, Owned C c.flows all ∧ J h c.shared all

variable {m : Machine I σ} {J : Books I A σ} {c d : Config I σ} {h : List (Event I)}

theorem Contract.Balances.fresh (b : C.Balances m J) {proc : I.Proc} {e : Errand I A proc}
    (he : e ∈ C.errands proc) :
    Flow.Obeys C ⟨proc, m.body proc, .root proc⟩ (e.kept + e.stock) :=
  ⟨e, he, e.stock, e.kept, by rw [add_comm], b.bodies proc e he, le_rfl⟩

/-- Among the flows of a configuration, those but one own some tokens, whatever becomes of that one. -/
structure Config.Apart (C : Contract I A) (c : Config I σ) (id : Nat) (others : Multiset A) : Prop where
  numbered : c.Numbered
  update : ∀ {f own}, Flow.Obeys C f own → Owned C (c.update id f).flows (own + others)
  remove : Owned C (c.remove id).flows others

theorem Sound.apart (b : C.Balances m J) (sound : Sound C J c h) {id : Nat} {f : Flow I}
    (hf : c.find? id = some f) : ∃ own others, c.Apart C id others ∧ f.Obeys C own ∧
      J h c.shared (own + others) := by
  obtain ⟨numbered, all, owned, books⟩ := sound
  obtain ⟨before, after, flows, updated, removed⟩ := numbered.split hf
  rw [flows] at owned
  obtain ⟨own, others, le, obeys, rest⟩ := owned_middle.mp owned
  refine ⟨own, others, ⟨numbered, fun {g own'} obeys' => ?_, ?_⟩, obeys, b.loses le books⟩
  · rw [updated]
    exact owned_middle.mpr ⟨own', others, le_rfl, obeys', rest⟩
  · rw [removed]
    exact rest

section Apart

variable {id : Nat} {proc : I.Proc} {own others : Multiset A} {s : σ} {f : Flow I}
  {wait : Waiting I proc}

/-- To change a flow in its place, it is enough to find out what it owns then. -/
theorem Config.Apart.set (apart : c.Apart C id others) (obeys : f.Obeys C own)
    (books : J h s (own + others)) : Sound C J ({ c with shared := s }.update id f) h := by
  have numbered : ({ c with shared := s } : Config I σ).Numbered :=
    ⟨apart.numbered.unique, apart.numbered.below⟩
  exact ⟨numbered.update id f, own + others, apart.update obeys, books⟩

theorem Config.Apart.end (apart : c.Apart C id others) (b : C.Balances m J) {a : I.Result proc}
    (obeys : Flow.Obeys C ⟨proc, .done a, .root proc⟩ own) (books : J h c.shared (own + others)) :
    Sound C J (c.remove id) (.returned proc a :: h) := by
  obtain ⟨e, he, here, below, le, ⟨y, hy, yields⟩, kept⟩ := obeys
  have kept : e.kept ≤ below := kept
  have ended : J (.returned proc a :: h) c.shared (e.back a y + others) := by
    apply b.returns e he yields
    apply b.loses _ books
    rw [add_comm e.kept y]
    exact add_le_add_left ((add_le_add hy kept).trans le) others
  exact ⟨apart.numbered.remove id, others, apart.remove, b.loses (Multiset.le_add_left _ _) ended⟩

theorem Config.Apart.return (apart : c.Apart C id others) (b : C.Balances m J) {callee : I.Proc}
    {a : I.Result callee} {next : I.Result callee → Program I (I.Result proc)}
    (obeys : Flow.Obeys C ⟨callee, .done a, .caller next wait⟩ own)
    (books : J h c.shared (own + others)) :
    Sound C J (c.update id ⟨proc, next a, wait⟩) (.returned callee a :: h) := by
  obtain ⟨e, he, here, below, le, ⟨y, hy, yields⟩, d, hd, left, under, le', continues, waiting⟩ := obeys
  have obeys' : Flow.Obeys C ⟨proc, next a, wait⟩ (e.back a y + (left + under)) :=
    ⟨d, hd, e.back a y + left, under, (add_assoc _ _ _).le, continues a y yields, waiting⟩
  refine apart.set obeys' ?_
  rw [add_assoc]
  apply b.returns e he yields
  apply b.loses _ books
  have same : e.kept + y + (left + under + others) = y + (e.kept + left + under) + others := by abel
  rw [same]
  exact add_le_add_left ((add_le_add hy le').trans le) others

theorem Config.Apart.act (apart : c.Apart C id others) (b : C.Balances m J) {action : I.Action}
    {next : I.Reply action → Program I (I.Result proc)} {pick : Bool} {r : I.Reply action}
    (obeys : Flow.Obeys C ⟨proc, .act action next, wait⟩ own) (books : J h c.shared (own + others))
    (hp : m.perform id pick action c.shared = some (r, s)) :
    Sound C J ({ c with shared := s }.update id ⟨proc, next r, wait⟩) h := by
  obtain ⟨e, he, here, below, le, ⟨u, hu, left, hl, continues⟩, waiting⟩ := obeys
  have taken : J h c.shared (u.takes + (left + below + others)) := by
    apply b.loses _ books
    have same : u.takes + (left + below + others) = u.takes + left + below + others := by abel
    rw [same]
    exact add_le_add_left ((add_le_add_left hl below).trans le) others
  obtain ⟨got, gives, given⟩ := b.acts u hu taken hp
  have obeys' : Flow.Obeys C ⟨proc, next r, wait⟩ (got + (left + below)) :=
    ⟨e, he, got + left, below, (add_assoc _ _ _).le, continues r got gives, waiting⟩
  refine apart.set obeys' ?_
  rw [add_assoc]
  exact given

theorem Contract.Balances.pay (b : C.Balances m J) {e : Errand I A proc} (he : e ∈ C.errands proc)
    {left : Multiset A} (le : e.price + left ≤ own) (books : J h s own) :
    J (.entered proc :: h) s (e.kept + e.stock + left) :=
  b.enters e he (b.loses le books)

theorem Config.Apart.call (apart : c.Apart C id others) (b : C.Balances m J) {callee : I.Proc}
    {next : I.Result callee → Program I (I.Result proc)}
    (obeys : Flow.Obeys C ⟨proc, .call callee next, wait⟩ own) (books : J h c.shared (own + others)) :
    Sound C J (c.update id ⟨callee, m.body callee, .caller next wait⟩) (.entered callee :: h) := by
  obtain ⟨e, he, here, below, le, ⟨d, hd, left, hl, continues⟩, waiting⟩ := obeys
  have obeys' : Flow.Obeys C ⟨callee, m.body callee, .caller next wait⟩
      (d.kept + d.stock + (left + below)) := by
    refine ⟨d, hd, d.stock, d.kept + left + below, ?_, b.bodies callee d hd, e, he, left, below, le_rfl,
      continues, waiting⟩
    exact le_of_eq (by abel)
  refine apart.set obeys' ?_
  rw [add_assoc]
  apply b.pay hd _ books
  have same : d.price + (left + below + others) = d.price + left + below + others := by abel
  rw [same]
  exact add_le_add_left ((add_le_add_left hl below).trans le) others

theorem Config.Apart.fork (apart : c.Apart C id others) (b : C.Balances m J) {other : I.Proc}
    {next : Program I (I.Result proc)} (obeys : Flow.Obeys C ⟨proc, .fork other next, wait⟩ own)
    (books : J h c.shared (own + others)) :
    Sound C J ((c.update id ⟨proc, next, wait⟩).spawn m other) (.entered other :: h) := by
  obtain ⟨e, he, here, below, le, ⟨d, hd, left, hl, continues⟩, waiting⟩ := obeys
  have mine : Flow.Obeys C ⟨proc, next, wait⟩ (left + below) :=
    ⟨e, he, left, below, le_rfl, continues, waiting⟩
  refine ⟨(apart.numbered.update id _).spawn m other, left + below + others + (d.kept + d.stock), ?_, ?_⟩
  · apply owned_append.mpr
    exact ⟨left + below + others, d.kept + d.stock, le_rfl, apart.update mine, d.kept + d.stock, 0,
      by simp, b.fresh hd, trivial⟩
  · rw [add_comm]
    apply b.pay hd _ books
    have same : d.price + (left + below + others) = d.price + left + below + others := by abel
    rw [same]
    exact add_le_add_left ((add_le_add_left hl below).trans le) others

end Apart

/-- Whatever step a flow makes, the contract is kept. -/
theorem Sound.step (b : C.Balances m J) (sound : Sound C J c h) {id : Nat} {pick : Bool} {f : Flow I}
    (hf : c.find? id = some f) (hs : m.stepFlow c id pick f = some d) :
    Sound C J d (f.event?.toList ++ h) := by
  obtain ⟨own, others, apart, obeys, books⟩ := sound.apart b hf
  obtain ⟨proc, code, wait⟩ := f
  cases code with
  | done a =>
    cases wait with
    | root =>
      cases hs
      exact apart.end b obeys books
    | caller next below =>
      cases hs
      exact apart.return b obeys books
  | act action next =>
    simp only [Machine.stepFlow] at hs
    split at hs
    · cases hs
    · next r s hp =>
      cases hs
      exact apart.act b obeys books hp
  | call callee next =>
    cases hs
    exact apart.call b obeys books
  | fork other next =>
    cases hs
    exact apart.fork b obeys books

/-- Somebody outside starts a procedure for which nothing is to be paid. -/
theorem Sound.spawn (b : C.Balances m J) (sound : Sound C J c h) {proc : I.Proc}
    {e : Errand I A proc} (he : e ∈ C.errands proc) (nothing : e.price = 0) :
    Sound C J (c.spawn m proc) (.entered proc :: h) := by
  obtain ⟨numbered, all, owned, books⟩ := sound
  have entered : J (.entered proc :: h) c.shared (e.kept + e.stock + all) :=
    b.enters e he (by rw [nothing, zero_add]; exact books)
  refine ⟨numbered.spawn m proc, all + (e.kept + e.stock), ?_, ?_⟩
  · exact owned_append.mpr ⟨all, e.kept + e.stock, le_rfl, owned, e.kept + e.stock, 0, by simp,
      b.fresh he, trivial⟩
  · rw [add_comm]
    exact entered

/-- Somebody outside changes the shared state in a way that keeps the books right. -/
theorem Sound.touch (sound : Sound C J c h) (f : σ → σ)
    (keeps : ∀ all, J h c.shared all → J h (f c.shared) all) :
    Sound C J { c with shared := f c.shared } h := by
  obtain ⟨numbered, all, owned, books⟩ := sound
  exact ⟨⟨numbered.unique, numbered.below⟩, all, owned, keeps all books⟩

/-! ## What is kept while procedures are under way -/

/-- The procedures under way in all flows. -/
def Config.procs (c : Config I σ) : List I.Proc := c.flows.flatMap fun p => p.2.procs

theorem Waiting.Obeys.kept_le {keeps : I.Proc → Multiset A}
    (floor : ∀ proc, ∀ e ∈ C.errands proc, keeps proc ≤ e.kept) {proc : I.Proc}
    {waiting : Waiting I proc} {e : Errand I A proc} (he : e ∈ C.errands proc)
    (obeys : waiting.Obeys C e own) : (waiting.procs.map keeps).sum ≤ own := by
  induction waiting generalizing own with
  | root proc =>
    have kept : e.kept ≤ own := obeys
    simpa [Waiting.procs] using (floor proc e he).trans kept
  | caller next below ih =>
    obtain ⟨d, hd, rest, under, le, -, lower⟩ := obeys
    have below_le := ih hd lower
    have here := floor _ e he
    simp only [Waiting.procs, List.map_cons, List.sum_cons]
    calc _ ≤ e.kept + under := add_le_add here below_le
      _ ≤ e.kept + rest + under := add_le_add_left (Multiset.le_add_right _ _) _
      _ ≤ own := le

theorem Owned.kept_le {keeps : I.Proc → Multiset A}
    (floor : ∀ proc, ∀ e ∈ C.errands proc, keeps proc ≤ e.kept) (owned : Owned C fs all) :
    ((fs.flatMap fun p => p.2.procs).map keeps).sum ≤ all := by
  induction fs generalizing all with
  | nil => exact Multiset.zero_le all
  | cons p rest ih =>
    obtain ⟨own, others, le, ⟨e, he, here, below, le', -, waiting⟩, owned⟩ := owned
    have first : (p.2.procs.map keeps).sum ≤ own :=
      (waiting.kept_le floor he).trans ((Multiset.le_add_left _ _).trans le')
    rw [List.flatMap_cons, List.map_append, List.sum_append]
    exact (add_le_add first (ih owned)).trans le

/-- What the procedures under way keep is in the books. -/
theorem Sound.kept_le (sound : Sound C J c h) {keeps : I.Proc → Multiset A}
    (floor : ∀ proc, ∀ e ∈ C.errands proc, keeps proc ≤ e.kept) :
    ∃ all, (c.procs.map keeps).sum ≤ all ∧ J h c.shared all := by
  obtain ⟨-, all, owned, books⟩ := sound
  exact ⟨all, owned.kept_le floor, books⟩

/-! ## Programs that are about no token -/

/-- What may be done under a contract by those who own nothing. -/
def Contract.scope (C : Contract I A) : Scope I where
  acts action := ∃ u ∈ C.uses action, u.takes = 0
  calls proc := ∃ e ∈ C.errands proc, e.price = 0
  starts proc := ∃ e ∈ C.errands proc, e.price = 0

/-- Who does nothing that costs a token needs none. -/
theorem Program.Within.obeys {α : Type} {p : Program I α} {post : α → Multiset A → Prop}
    (h : p.Within C.scope) (hp : ∀ a, post a 0) : p.Obeys C post own := by
  induction p generalizing own with
  | done a => exact ⟨0, Multiset.zero_le own, hp a⟩
  | act action next ih =>
    obtain ⟨⟨u, hu, zero⟩, rest⟩ := h
    exact ⟨u, hu, 0, by rw [zero]; exact Multiset.zero_le own, fun r got _ => ih r (rest r)⟩
  | call proc next ih =>
    obtain ⟨⟨e, he, zero⟩, rest⟩ := h
    exact ⟨e, he, 0, by rw [zero]; exact Multiset.zero_le own, fun r y _ => ih r (rest r)⟩
  | fork proc next ih =>
    obtain ⟨⟨e, he, zero⟩, rest⟩ := h
    exact ⟨e, he, 0, by rw [zero]; exact Multiset.zero_le own, ih rest⟩

theorem Program.Within.fair {α : Type} {p : Program I α} (h : p.Within C.scope) : p.Fair C :=
  h.obeys fun _ => trivial

/-- Before something that needs tokens, one may do what costs none. -/
theorem Program.Within.then {α β : Type} {p : Program I α} {f : α → Program I β}
    {post : β → Multiset A → Prop} (h : p.Within C.scope) (hf : ∀ a, (f a).Obeys C post own) :
    (p >>= f).Obeys C post own :=
  Obeys.bind (M := fun _ y => y = 0) (h.obeys fun _ => rfl) (by rw [zero_add])
    fun a y hy => by rw [hy, zero_add]; exact hf a

end SessionBroker
