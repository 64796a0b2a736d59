import BlockFeed.ForStd.Transition
import Mathlib.Logic.Function.Basic

/-!
# The transactions of checkout calls

Once a call of the create-checkout-session handler has a new Stripe session, it records it in a
transaction: the first statement depends on what the call resolved to, then comes the select
whose URL is returned. A `CheckoutState` holds the row of one user and the transactions of any
number of calls for that user; its actions are their single steps, in any order.

Of MySQL: a row that a transaction has selected for update, updated or inserted is locked until
the transaction ends, `skipLocked` leaves out rows that others have locked, an insert waits for
one it conflicts with, and a select reads the committed row or the own write. `customer_id` is
unique, so there is at most one row of a user.
-/

namespace BlockFeed.Native

/-- A row of `checkout_session`, with UUIDs in `κ`. -/
structure CheckoutSession (κ : Type) where
  id : κ
  clientReferenceId : κ
  sessionId : String
  customerId : String
  url : String
deriving DecidableEq, Repr

/-- What `resolveCheckoutSession` gives when it gives no URL. -/
structure Resolved (κ : Type) where
  clientReferenceId : Option κ
  stripeCustomerId : Option String
deriving DecidableEq, Repr

/-- A call at the start of its transaction: what it resolved to, a UUID for an inserted row, and
    the new session. -/
structure CheckoutCall (κ : Type) where
  result : Resolved κ
  userId : String
  id : κ
  clientReferenceId : κ
  sessionId : String
  url : String

/-- The first statement of a transaction. -/
inductive FirstStatement (κ : Type) where
  | selectForUpdate (clientReferenceId : Option κ)
  | insertIgnore
deriving DecidableEq, Repr

/-- A transaction by its next step. Once it has written or not, `own` is its own write. -/
inductive CheckoutTx (κ : Type) where
  | started
  /-- the locking select has returned the row -/
  | locked
  | written (own : Option (CheckoutSession κ))
  | found (own res : Option (CheckoutSession κ))
  | committed (own : Option (CheckoutSession κ)) (url : String)
  | returned (own : Option (CheckoutSession κ)) (url : String)
  /-- rolled back -/
  | failed
deriving DecidableEq, Repr

/-- The row of the user as committed, the transaction that has locked it, and all
    transactions. -/
structure CheckoutState (κ ι : Type) where
  row : Option (CheckoutSession κ)
  lock : Option ι
  txs : ι → CheckoutTx κ

/-- What happens to them. -/
inductive CheckoutAction (ι : Type) where
  /-- the next step of a call -/
  | run (i : ι)
  | rollback (i : ι)
deriving DecidableEq, Repr

namespace CheckoutCall

variable {κ : Type}

/-- The branches of the transaction. -/
def firstStatement (call : CheckoutCall κ) : FirstStatement κ :=
  if call.result.stripeCustomerId ≠ none then
    .selectForUpdate call.result.clientReferenceId
  else if call.result.clientReferenceId = none then
    .insertIgnore
  else
    .selectForUpdate call.result.clientReferenceId

/-- The values of the insert. -/
def values (call : CheckoutCall κ) : CheckoutSession κ :=
  ⟨call.id, call.clientReferenceId, call.sessionId, call.userId, call.url⟩

/-- The row after the update. -/
def set (call : CheckoutCall κ) (row : CheckoutSession κ) : CheckoutSession κ :=
  { row with
    customerId := call.userId
    sessionId := call.sessionId
    clientReferenceId := call.clientReferenceId
    url := call.url }

/-- A whole transaction that meets no other one: the row that it leaves and finds, `none` when it
    finds none and fails. -/
def transaction [DecidableEq κ] (call : CheckoutCall κ) (row : Option (CheckoutSession κ)) :
    Option (CheckoutSession κ) :=
  match call.firstStatement with
  | .selectForUpdate clientReferenceId =>
    row.map fun row =>
      if some row.clientReferenceId = clientReferenceId then call.set row else row
  | .insertIgnore => some (row.getD call.values)

end CheckoutCall

namespace CheckoutState

variable {κ ι : Type} [DecidableEq κ] [DecidableEq ι]

/-- The row with a `clientReferenceId`. -/
def withReference (s : CheckoutState κ ι) (clientReferenceId : Option κ) :
    Option (CheckoutSession κ) :=
  s.row.filter fun row => some row.clientReferenceId = clientReferenceId

/-- The row of a customer, which a transaction sees as it has written it. -/
def ofCustomer (s : CheckoutState κ ι) (own : Option (CheckoutSession κ)) (customerId : String) :
    Option (CheckoutSession κ) :=
  (own.or s.row).filter fun row => row.customerId = customerId

/-- Moves a transaction on. -/
def setTx (s : CheckoutState κ ι) (i : ι) (tx : CheckoutTx κ) : CheckoutState κ ι :=
  { s with txs := Function.update s.txs i tx }

/-- The end of a transaction. -/
def release (s : CheckoutState κ ι) (i : ι) : CheckoutState κ ι :=
  { s with lock := if s.lock = some i then none else s.lock }

/-- `select … for update skip locked`. -/
def selectForUpdate (s : CheckoutState κ ι) (i : ι) (clientReferenceId : Option κ) :
    CheckoutState κ ι :=
  if s.withReference clientReferenceId ≠ none ∧ s.lock = none then
    { s.setTx i .locked with lock := some i }
  else s.setTx i (.written none)

/-- `insert ignore`, `none` while it waits. -/
def insertIgnore (s : CheckoutState κ ι) (i : ι) (call : CheckoutCall κ) :
    Option (CheckoutState κ ι) :=
  if s.lock ≠ none then none
  else if s.ofCustomer none call.userId ≠ none then some (s.setTx i (.written none))
  else some { s.setTx i (.written (some call.values)) with lock := some i }

/-- The next step of a transaction. -/
def runTx (calls : ι → CheckoutCall κ) (s : CheckoutState κ ι) (i : ι) :
    Option (CheckoutState κ ι) :=
  match s.txs i with
  | .started =>
    match (calls i).firstStatement with
    | .selectForUpdate clientReferenceId => some (s.selectForUpdate i clientReferenceId)
    | .insertIgnore => s.insertIgnore i (calls i)
  | .locked =>
    let row := s.withReference (calls i).result.clientReferenceId
    some (s.setTx i (.written (row.map (calls i).set)))
  | .written own => some (s.setTx i (.found own (s.ofCustomer own (calls i).userId)))
  | .found _ none => some ((s.setTx i .failed).release i)
  | .found own (some res) =>
    some ({ s.setTx i (.committed own res.url) with row := own.or s.row }.release i)
  | .committed own url => some (s.setTx i (.returned own url))
  | .returned _ _ => none
  | .failed => none

/-- A transaction that is not committed fails. -/
def rollback (s : CheckoutState κ ι) (i : ι) : Option (CheckoutState κ ι) :=
  match s.txs i with
  | .started | .locked | .written _ | .found _ _ => some ((s.setTx i .failed).release i)
  | .committed _ _ | .returned _ _ | .failed => none

/-- Takes one action, `none` when it is not enabled. -/
def step (calls : ι → CheckoutCall κ) (s : CheckoutState κ ι) :
    CheckoutAction ι → Option (CheckoutState κ ι)
  | .run i => s.runTx calls i
  | .rollback i => s.rollback i

/-! ### One call alone -/

omit [DecidableEq κ] in
/-- The locking select is of the row the call resolved to. -/
theorem eq_of_firstStatement {call : CheckoutCall κ} {clientReferenceId : Option κ}
    (h : call.firstStatement = .selectForUpdate clientReferenceId) :
    clientReferenceId = call.result.clientReferenceId := by
  unfold CheckoutCall.firstStatement at h
  split at h
  · exact (FirstStatement.selectForUpdate.inj h).symm
  · split at h
    · cases h
    · exact (FirstStatement.selectForUpdate.inj h).symm

omit [DecidableEq κ] in
private theorem setTx_unit (s : CheckoutState κ Unit) (tx : CheckoutTx κ) :
    s.setTx () tx = { s with txs := fun _ => tx } := by
  rw [setTx, Function.update_eq_const_of_subsingleton]
  rfl

/-- The select and what follows it. -/
private theorem run_found {call : CheckoutCall κ} {row own : Option (CheckoutSession κ)}
    {lock : Option Unit} {res : CheckoutSession κ} (hres : own.or row = some res)
    (huser : res.customerId = call.userId) (hlock : own = none → lock = none) :
    Transition.run (step fun _ : Unit => call) ⟨row, lock, fun _ => .written own⟩
      [.run (), .run (), .run ()] = some ⟨some res, none, fun _ => .returned own res.url⟩ := by
  have hfree : (if lock = some () then none else lock) = none := by
    cases lock with
    | none => rfl
    | some u => rfl
  simp only [Transition.run, step, runTx, setTx_unit, ofCustomer, hres, Option.filter_some, huser,
    decide_true, ↓reduceIte, release, hfree]

/-- `CheckoutCall.transaction` is what the steps of one call come to when it is the only one. -/
theorem run_transaction {call : CheckoutCall κ} {row : Option (CheckoutSession κ)}
    {row' : CheckoutSession κ} (huser : ∀ r, row = some r → r.customerId = call.userId)
    (h : call.transaction row = some row') :
    ∃ as own, Transition.run (step fun _ : Unit => call) ⟨row, none, fun _ => .started⟩ as =
      some ⟨some row', none, fun _ => .returned own row'.url⟩ := by
  unfold CheckoutCall.transaction at h
  cases hfirst : call.firstStatement with
  | insertIgnore =>
    rw [hfirst] at h
    cases h
    cases row with
    | none =>
      have hinsert : step (fun _ : Unit => call) ⟨none, none, fun _ => .started⟩ (.run ()) =
          some ⟨none, some (), fun _ => .written (some call.values)⟩ := by
        simp [step, runTx, hfirst, insertIgnore, ofCustomer, setTx_unit]
      exact ⟨_, _, Transition.run_cons.2 ⟨_, hinsert, run_found rfl rfl nofun⟩⟩
    | some r =>
      have hr := huser r rfl
      have hignore : step (fun _ : Unit => call) ⟨some r, none, fun _ => .started⟩ (.run ()) =
          some ⟨some r, none, fun _ => .written none⟩ := by
        simp [step, runTx, hfirst, insertIgnore, ofCustomer, setTx_unit, hr]
      exact ⟨_, _, Transition.run_cons.2 ⟨_, hignore, run_found rfl hr fun _ => rfl⟩⟩
  | selectForUpdate clientReferenceId =>
    rw [hfirst] at h
    obtain ⟨r, rfl, hrow'⟩ := Option.map_eq_some_iff.1 h
    have hr := huser r rfl
    split at hrow'
    case isTrue href =>
      subst hrow'
      have hlock : step (fun _ : Unit => call) ⟨some r, none, fun _ => .started⟩ (.run ()) =
          some ⟨some r, some (), fun _ => .locked⟩ := by
        simp [step, runTx, hfirst, selectForUpdate, withReference, setTx_unit, href]
      have hupdate : step (fun _ : Unit => call) ⟨some r, some (), fun _ => .locked⟩ (.run ()) =
          some ⟨some r, some (), fun _ => .written (some (call.set r))⟩ := by
        have href' := href.trans (eq_of_firstStatement hfirst)
        simp only [step, runTx, withReference, setTx_unit, Option.filter_some, href', decide_true,
          ↓reduceIte, Option.map_some]
      have hrest := Transition.run_cons.2 ⟨_, hupdate, run_found rfl rfl nofun⟩
      exact ⟨_, _, Transition.run_cons.2 ⟨_, hlock, hrest⟩⟩
    case isFalse href =>
      subst hrow'
      have hskip : step (fun _ : Unit => call) ⟨some r, none, fun _ => .started⟩ (.run ()) =
          some ⟨some r, none, fun _ => .written none⟩ := by
        simp [step, runTx, hfirst, selectForUpdate, withReference, setTx_unit, href]
      exact ⟨_, _, Transition.run_cons.2 ⟨_, hskip, run_found rfl hr fun _ => rfl⟩⟩

end CheckoutState

end BlockFeed.Native
