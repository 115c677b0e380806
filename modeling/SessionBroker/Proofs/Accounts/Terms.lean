import SessionBroker.Proofs.Accounts.Mail
import SessionBroker.Proofs.Accounts.Steps
import SessionBroker.Proofs.Contract

/-!
# Terms of business

Which tokens each action takes and gives, and on which terms each procedure is called.
-/

namespace SessionBroker.Accounts

open Mailbox (Answer Next)

/-! ## Results -/

/-- A request ends: it has been run, or for one of some reasons it has not. -/
def Ends (unrun : Response → Prop) (q : Request) (r : Response) (own : Multiset Stake) : Prop :=
  hasRun r ∧ own = {.ran q} ∨ unrun r ∧ own = {.right q}

/-- The frame went away before the request was run. -/
def IsGone (r : Response) : Prop := r = .error .frameExited

/-- What an answer to a request in a mailbox means. -/
def Told (q : Request) : Answer Response → Multiset Stake → Prop
  | .served r, own => Ends IsGone q r own
  | .refused, own => own = {.right q}

/-- What one has to have who keeps a promise, and gets who has a claim. -/
def Gives : Job → Payload → Multiset Stake → Prop
  | .command q, .response r, own => hasRun r ∧ own = {.ran q}
  | .action n, .value v, own => own = if v.isSome then {.did n} else 0
  | .other, _, own => own = 0
  | _, _, _ => False

/-- What one gets for a claim once the promise is kept or broken. -/
def Redeems : Job → Option Payload → Multiset Stake → Prop
  | j, some payload, own => Gives j payload own
  | .command q, none, own => own = {.right q}
  | _, none, own => own = 0

/-- What one has to have who puts work down for the read loop. -/
def price : IdleWork → Multiset Stake
  | .command _ _ q => {.right q}
  | _ => 0

/-- What one gets who takes what is next in the mailbox of a frame. -/
def handed (i : Nat) : Next Request → Multiset Stake
  | .exit _ => 0
  | .request t q => {.duty i t q} + {.right q}

/-! ## Actions -/

/-- What the actions take and give. -/
def terms : (action : Action) → Set (Use brokerInterface Stake action)
  | .broker .ticket => { u | ∃ f : Nat → Stake,
      (f = .fresh ∨ ∃ c o, f = fun n => .right ⟨n, c, o⟩) ∧ u = ⟨0, fun (n : Nat) got => got = {f n}⟩ }
  | .broker .promise => { ⟨0, fun (p : Nat) got => got = {.owed p .other}⟩ }
  | .broker (.keep p payload) => { u | ∃ j own, Gives j payload own ∧
      u = ⟨{.owed p j} + own, fun _ got => got = 0⟩ }
  | .broker (.awaitPromise p) => { u | u = ⟨0, fun _ got => got = 0⟩ ∨
      ∃ j, u = ⟨{.claim p j}, fun (r : Option Payload) got => Redeems j r got⟩ }
  | .broker (.offer _) => { ⟨0, fun (n : Nat) got => got = {.offered n}⟩ }
  | .broker (.takeAction n) =>
    { ⟨0, fun (v : Option Json.Value) got => got = if v.isSome then {.taken n} else 0⟩ }
  | .idle (.schedule work) => { ⟨price work, fun (p : Option Nat) got =>
      got = match p with
        | none => price work
        | some p => {.claim p (jobOf work)}⟩ }
  | .idle .take => { ⟨0, fun (t : Option IdleTask) got =>
      got = match t with
        | none => 0
        | some t => {.owed t.promise (jobOf t.work)} + price t.work⟩ }
  | .frames (.look _ _ caller) => { ⟨0, fun (a : Gate.Answer) got =>
      (a = .cancelled → caller.token.isSome) ∧ got = 0⟩ }
  | .frames (.ask i t q) => { ⟨{.fresh t} + {.right q}, fun (a : Option (Answer Response)) got =>
      match a with
        | none => got = {.deposit i t q}
        | some a => a = .refused ∧ got = {.right q}⟩ }
  | .frames (.lookMail i t) => { u | ∃ q, u = ⟨{.deposit i t q},
      fun (a : Option (Answer Response)) got =>
        match a with
          | none => got = {.deposit i t q}
          | some a => Told q a got⟩ }
  | .frames (.take i) => { ⟨0, fun (next : Next Request) got => got = handed i next⟩ }
  | .frames (.answer i t a) => { u | ∃ q own, Told q a own ∧
      u = ⟨{.duty i t q} + own, fun _ got => got = 0⟩ }
  | _ => { ⟨0, fun _ got => got = 0⟩ }

/-! ## Procedures -/

/-- One who needs nothing. -/
def roams (proc : Proc) : Errand brokerInterface Stake proc := Errand.free (I := brokerInterface) proc

/-- One who gets some tokens and need not give any back. -/
def serves (proc : Proc) (own : Multiset Stake) : Errand brokerInterface Stake proc :=
  ⟨own, own, 0, fun _ _ => True, fun _ _ => 0⟩

/-- On which terms the procedures are called. A rehearsed thread serves no broker. -/
def errands : (proc : Proc) → Set (Errand brokerInterface Stake proc)
  | .execute q _ => { ⟨{.fresh q.call}, {.right q}, 0,
      fun (r : Response) own => Ends (isRest ·) q r own, fun _ _ => 0⟩ }
  | .route q _ => { ⟨{.right q}, {.right q}, 0,
      fun (r : Response) own => Ends (isRest ·) q r own, fun _ own => own⟩ }
  | .runCommand _ _ q _ => { ⟨{.right q}, 0, {.ran q},
      fun (r : Response) _ => hasRun r, fun _ _ => {.ran q}⟩ }
  | .awaitLease _ _ caller => { ⟨0, 0, 0, fun (r : Except Failure Unit) _ =>
      ∀ e, r = .error e → e = .frameExited ∨ e = .cancelled ∧ caller.token.isSome, fun _ _ => 0⟩ }
  | .awaitAnswer i t => { e | ∃ q, e = ⟨{.deposit i t q}, {.deposit i t q}, 0,
      fun (a : Answer Response) own => Told q a own, fun _ own => own⟩ }
  | .serve frame t q => { serves _ ({.duty frame.id t q} + {.right q}) }
  | .nestedPrompt _ p => { serves _ {.owed p .other} }
  | .onPipeline n => { ⟨{.offered n}, 0, 0, fun (r : Except Failure (Json.Value × Bool)) own =>
      r.isOk → own = {.did n}, fun _ _ => 0⟩ }
  | .compute n _ => { ⟨{.taken n}, 0, {.did n}, fun _ _ => True, fun _ _ => {.did n}⟩ }
  | .rehearsedLoop .. | .rehearsedNext _ => ∅
  | proc => { roams proc }

/-- Who owns and owes what. -/
def contract : Contract brokerInterface Stake := ⟨terms, errands⟩

end SessionBroker.Accounts
