import SessionBroker.Broker.Procedure
import SessionBroker.Proofs.Custody

/-!
# Accounts

What is owned and owed while requests find their way. The right to run a request is handed from one
to the other until somebody runs the request or it is given up; whoever may keep a promise owes it,
and whoever waits for it has a claim.
-/

namespace SessionBroker.Accounts

/-! ## Responses -/

/-- The command went through the engine. -/
def hasRun : Response → Bool
  | .ok _ | .error (.engine _) | .error (.sessionUnavailable _) => true
  | _ => false

/-- The request is given up. -/
def isRest : Response → Bool
  | .error .cancelled | .error .disposed => true
  | _ => false

/-! ## Tokens -/

/-- What a promise is about. -/
inductive Job where
  /-- The response to a request. -/
  | command (q : Request)
  /-- The value of an action. -/
  | action (n : Nat)
  | other

/-- What an idle task promises. -/
def jobOf : IdleWork → Job
  | .command _ _ q => .command q
  | .action n => .action n
  | .rehearsal .. => .other

/-- The tokens of a broker: what somebody may own. -/
inductive Stake where
  /-- A number that nobody else has. -/
  | fresh (n : Nat)
  /-- The right to run a request. -/
  | right (q : Request)
  /-- A request has been run. -/
  | ran (q : Request)
  /-- The one who waits for a promise. -/
  | claim (promise : Nat) (job : Job)
  /-- The one who may keep a promise. -/
  | owed (promise : Nat) (job : Job)
  /-- The one who waits for the answer to a request in a mailbox. -/
  | deposit (frame ticket : Nat) (q : Request)
  /-- The one who has to answer a request in a mailbox. -/
  | duty (frame ticket : Nat) (q : Request)
  /-- An action has been put down. -/
  | offered (n : Nat)
  /-- The right to run an action. -/
  | taken (n : Nat)
  /-- An action has been run. -/
  | did (n : Nat)

noncomputable instance : DecidableEq Stake := Classical.decEq _

/-- Whether nobody will keep a promise. -/
def isBroken : Option Promise → Bool
  | some .broken => true
  | _ => false

/-- Whether a token is the right to run the request of a call, or will be exchanged for it. -/
def isRight (promises : List Promise) (k : Nat) : Stake → Bool
  | .fresh n => n = k
  | .right q => q.call = k
  | .claim p (.command q) => q.call = k && isBroken promises[p]?
  | _ => false

/-! ## Histories -/

/-- What has been seen of a broker, the last event first. -/
abbrev History := List (Event brokerInterface)

/-- A request of a call begins to run. -/
def runs (k : Nat) : Event brokerInterface → Bool
  | .entered (.runCommand _ _ q _) => q.call = k
  | _ => false

/-- A call begins. -/
def calls (k : Nat) : Event brokerInterface → Bool
  | .entered (.execute q _) => q.call = k
  | _ => false

/-- A call ends without having run its request. -/
def rests (k : Nat) : Event brokerInterface → Bool
  | .returned (.execute q _) r => q.call = k && isRest r
  | _ => false

/-- A call is made to have an action run. -/
def asks (n : Nat) : Event brokerInterface → Bool
  | .entered (.onPipeline m) => m = n
  | _ => false

/-- An action begins to run. -/
def computes (n : Nat) : Event brokerInterface → Bool
  | .entered (.compute m _) => m = n
  | _ => false

/-- A request has been run. -/
def Ran (h : History) (q : Request) : Prop :=
  ∃ frame e route, .entered (.runCommand frame e q route) ∈ h

/-- An action has been run. -/
def Did (h : History) (n : Nat) : Prop := ∃ v, .entered (.compute n v) ∈ h

variable {h : History} {q : Request} {n : Nat} {e : Event brokerInterface}

theorem Ran.cons (ran : Ran h q) : Ran (e :: h) q := by
  obtain ⟨frame, engine, route, ran⟩ := ran
  exact ⟨frame, engine, route, List.mem_cons_of_mem _ ran⟩

theorem Did.cons (did : Did h n) : Did (e :: h) n := by
  obtain ⟨v, did⟩ := did
  exact ⟨v, List.mem_cons_of_mem _ did⟩

/-! ## Books -/

/-- What a promise that is kept says of its job. -/
def Fits (h : History) : Job → Payload → Prop
  | .command q, payload => ∃ r, payload = .response r ∧ hasRun r ∧ Ran h q
  | .action n, payload => ∃ v, payload = .value v ∧ (v.isSome → Did h n)
  | .other, _ => True

/-- Promises are kept by those who owe them. -/
structure Pledged (h : History) (l : Ledger) (jobs : List Job) (all : Multiset Stake) : Prop where
  length : jobs.length = l.promises.length
  claim : ∀ {p j}, .claim p j ∈ all → jobs[p]? = some j
  owed : ∀ {p j}, .owed p j ∈ all → jobs[p]? = some j
  task : ∀ t ∈ l.tasks, jobs[t.promise]? = some (jobOf t.work)
  claims : ∀ p j, all.count (.claim p j) ≤ 1
  keepers : ∀ p j, all.count (.owed p j) + l.tasks.countP (·.promise = p) ≤ 1
  kept : ∀ {p : Nat} {payload : Payload}, l.promises[p]? = some (Promise.kept payload) → ∀ {j}, jobs[p]? = some j →
    Fits h j payload

/-- One mailbox of a broker. -/
structure Box (h : History) (next : Nat) (m : Mailbox Request Response) : Prop where
  tidy : m.Tidy
  manned : ∀ {t q}, m.slot = some (t, q) → ∃ e ∈ m.entries, e.id = t
  told : ∀ e ∈ m.entries, ∀ r, e.stage = .answered (.served r) →
    hasRun r ∧ Ran h e.request ∨ r = .error .frameExited
  below : ∀ e ∈ m.entries, e.id < next

/-- Requests in mailboxes are answered by those whose duty it is. -/
structure Mailed (h : History) (s : FrameStack) (next : Nat) (all : Multiset Stake) : Prop where
  box : ∀ {i m}, s.mailbox? i = some m → Box h next m
  fresh : ∀ {n}, .fresh n ∈ all → ∀ {i m}, s.mailbox? i = some m → ∀ e ∈ m.entries, e.id ≠ n
  deposit : ∀ {i t q}, .deposit i t q ∈ all →
    ∃ m, s.mailbox? i = some m ∧ ∃ e ∈ m.entries, e.id = t ∧ e.request = q
  duty : ∀ {i t q}, .duty i t q ∈ all →
    ∃ m, s.mailbox? i = some m ∧ ∃ e ∈ m.entries, e.id = t ∧ e.stage = .handedOver ∧ e.request = q
  deposits : ∀ i t q, all.count (.deposit i t q) ≤ 1
  duties : ∀ i t q, all.count (.duty i t q) ≤ 1

/-- Whether a task runs the request of a call. -/
def runsFor (k : Nat) (t : IdleTask) : Bool :=
  match t.work with
  | .command _ _ q => q.call = k
  | _ => false

/-- How often the request of a call has been run or given up, or may still be. -/
def uses (h : History) (l : Ledger) (all : Multiset Stake) (k : Nat) : Nat :=
  h.countP (runs k) + h.countP (rests k) + l.frames.rights k + l.tasks.countP (runsFor k)
    + all.countP fun a => isRight l.promises k a

/-- Requests are run or given up at most once. -/
structure Counted (h : History) (l : Ledger) (all : Multiset Stake) : Prop where
  once : ∀ k, uses h l all k ≤ 1
  asked : ∀ k, h.countP (calls k) + all.count (.fresh k) ≤ 1
  next : ∀ k, l.next ≤ k → uses h l all k = 0 ∧ h.countP (calls k) = 0
  ran : ∀ {q}, .ran q ∈ all → Ran h q
  ends : ∀ {q t} {r : Response}, .returned (.execute q t) r ∈ h → hasRun r ∧ Ran h q ∨ isRest r

/-- Actions are run at most once. -/
structure Computed (h : History) (actions : List (Option Json.Value)) (all : Multiset Stake) :
    Prop where
  once : ∀ n, h.countP (computes n) + (actions[n]?).join.isSome.toNat + all.count (.taken n) ≤ 1
  asked : ∀ n, h.countP (asks n) + all.count (.offered n) ≤ 1
  next : ∀ n, actions.length ≤ n → h.countP (computes n) + all.count (.taken n) = 0 ∧
    h.countP (asks n) + all.count (.offered n) = 0
  did : ∀ {n}, .did n ∈ all → Did h n
  ends : ∀ {n} {v : Json.Value × Bool}, .returned (.onPipeline n) (.ok v) ∈ h → Did h n

/-- All together. -/
structure Balanced (h : History) (l : Ledger) (all : Multiset Stake) : Prop where
  pledged : ∃ jobs, Pledged h l jobs all
  mailed : Mailed h l.frames l.next all
  counted : Counted h l all
  computed : Computed h l.actions all

/-- The books of a broker. -/
def books : Books brokerInterface Stake World := fun h w all => Balanced h w.ledger all

/-! ### Fewer tokens -/

/-- Tokens about promises. -/
def Stake.IsPledge : Stake → Prop
  | .claim .. | .owed .. => True
  | _ => False

/-- Tokens about requests in mailboxes. -/
def Stake.IsMail : Stake → Prop
  | .fresh _ | .deposit .. | .duty .. => True
  | _ => False

/-- Tokens about requests that are run. -/
def Stake.IsCount : Stake → Prop
  | .fresh _ | .right _ | .ran _ | .claim .. => True
  | _ => False

/-- Tokens about actions. -/
def Stake.IsAction : Stake → Prop
  | .offered _ | .taken _ | .did _ => True
  | _ => False

variable {l : Ledger} {jobs : List Job} {all few : Multiset Stake} {s : FrameStack} {next : Nat}
  {actions : List (Option Json.Value)} {a : Stake}

theorem mem_of_count_le (le : few.count a ≤ all.count a) (ha : a ∈ few) : a ∈ all :=
  Multiset.count_pos.mp ((Multiset.count_pos.mpr ha).trans_le le)

theorem Pledged.less (b : Pledged h l jobs all)
    (le : ∀ a : Stake, a.IsPledge → few.count a ≤ all.count a) : Pledged h l jobs few where
  length := b.length
  claim ha := b.claim (mem_of_count_le (le _ trivial) ha)
  owed ha := b.owed (mem_of_count_le (le _ trivial) ha)
  task := b.task
  claims p j := (le (.claim p j) trivial).trans (b.claims p j)
  keepers p j := (Nat.add_le_add_right (le (.owed p j) trivial) _).trans (b.keepers p j)
  kept := b.kept

theorem Mailed.less (b : Mailed h s next all)
    (le : ∀ a : Stake, a.IsMail → few.count a ≤ all.count a) : Mailed h s next few where
  box := b.box
  fresh ha := b.fresh (mem_of_count_le (le _ trivial) ha)
  deposit ha := b.deposit (mem_of_count_le (le _ trivial) ha)
  duty ha := b.duty (mem_of_count_le (le _ trivial) ha)
  deposits i t q := (le (.deposit i t q) trivial).trans (b.deposits i t q)
  duties i t q := (le (.duty i t q) trivial).trans (b.duties i t q)

theorem countP_isRight_le {promises : List Promise} {k : Nat}
    (le : ∀ a : Stake, a.IsCount → few.count a ≤ all.count a) :
    few.countP (fun a => isRight promises k a) ≤ all.countP fun a => isRight promises k a := by
  rw [Multiset.countP_eq_card_filter, Multiset.countP_eq_card_filter]
  refine Multiset.card_le_card (Multiset.le_iff_count.mpr fun a => ?_)
  simp only [Multiset.count_filter]
  split
  · next right =>
    refine le a ?_
    cases a <;> trivial
  · exact Nat.zero_le _

theorem uses_le {k : Nat} (le : ∀ a : Stake, a.IsCount → few.count a ≤ all.count a) :
    uses h l few k ≤ uses h l all k :=
  Nat.add_le_add_left (countP_isRight_le le) _

theorem Counted.less (b : Counted h l all)
    (le : ∀ a : Stake, a.IsCount → few.count a ≤ all.count a) : Counted h l few where
  once k := (uses_le le).trans (b.once k)
  asked k := (Nat.add_le_add_left (le (.fresh k) trivial) _).trans (b.asked k)
  next k hk := ⟨Nat.le_zero.mp ((uses_le le).trans (b.next k hk).1.le), (b.next k hk).2⟩
  ran ha := b.ran (mem_of_count_le (le _ trivial) ha)
  ends := b.ends

theorem Computed.less (b : Computed h actions all)
    (le : ∀ a : Stake, a.IsAction → few.count a ≤ all.count a) : Computed h actions few where
  once n := (Nat.add_le_add_left (le (.taken n) trivial) _).trans (b.once n)
  asked n := (Nat.add_le_add_left (le (.offered n) trivial) _).trans (b.asked n)
  next n hn := by
    have before := b.next n hn
    have taken := le (.taken n) trivial
    have offered := le (.offered n) trivial
    omega
  did ha := b.did (mem_of_count_le (le _ trivial) ha)
  ends := b.ends

theorem Balanced.less (b : Balanced h l all) (le : ∀ a, few.count a ≤ all.count a) :
    Balanced h l few where
  pledged := b.pledged.imp fun _ pledged => pledged.less fun a _ => le a
  mailed := b.mailed.less fun a _ => le a
  counted := b.counted.less fun a _ => le a
  computed := b.computed.less fun a _ => le a

/-! ### More events -/

theorem Fits.cons {j : Job} {payload : Payload} (fits : Fits h j payload) : Fits (e :: h) j payload := by
  cases j with
  | command q =>
    obtain ⟨r, rfl, run, ran⟩ := fits
    exact ⟨r, rfl, run, ran.cons⟩
  | action n =>
    obtain ⟨v, rfl, did⟩ := fits
    exact ⟨v, rfl, fun some => (did some).cons⟩
  | other => trivial

theorem Pledged.cons (b : Pledged h l jobs all) : Pledged (e :: h) l jobs all :=
  { b with kept := fun hp _ hj => (b.kept hp hj).cons }

theorem Box.cons {m : Mailbox Request Response} (b : Box h next m) : Box (e :: h) next m :=
  { b with told := fun c hc r hr => (b.told c hc r hr).imp_left fun ⟨run, ran⟩ => ⟨run, ran.cons⟩ }

theorem Mailed.cons (b : Mailed h s next all) : Mailed (e :: h) s next all :=
  { b with box := fun hm => (b.box hm).cons }

end SessionBroker.Accounts
