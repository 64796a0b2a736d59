import BlockFeed.Native.CheckoutTransaction

/-!
# Checkout calls of one user

The create-checkout-session handler looks at the user's row, at the Stripe session of that row,
which it takes from the session cache where it can, and returns the URL of the row or makes a new
session and records it. The subscription middleware looks at the same row and fills the same
cache. The cache has one entry for the user, whatever session the row refers to.

A `LinkState` holds Stripe's sessions, the row, the cache entry, the call that is running and the
URLs that the handler has returned. The user makes one call after the other; everything else
happens at any time between two of its steps: a session changes in Stripe, the cache entry
expires, and an event invalidates it or, when a customer is deleted, removes the row.
-/

namespace BlockFeed.Native

/-! ## Stripe -/

/-- `Stripe.Checkout.Session.Status`. -/
inductive SessionStatus where
  | opened
  | complete
  | expired
deriving DecidableEq, Repr

/-- `Stripe.Subscription.Status`. -/
inductive SubscriptionStatus where
  | active
  | canceled
  | incomplete
  | incompleteExpired
  | pastDue
  | paused
  | trialing
  | unpaid
deriving DecidableEq, Repr

/-- A customer, deleted ones included. -/
structure StripeCustomer where
  id : String
  deleted : Bool
deriving DecidableEq, Repr

/-- A subscription and the ID of its customer. -/
structure StripeSubscription where
  status : SubscriptionStatus
  customer : String
deriving DecidableEq, Repr

/-- A checkout session with its customer and its subscription expanded. -/
structure StripeSession where
  id : String
  status : Option SessionStatus
  customer : Option StripeCustomer
  subscription : Option StripeSubscription
deriving DecidableEq, Repr

/-- The URLs: each session has its own, and none is that of the customer portal. -/
structure StripeUrls where
  checkout : String → String
  portal : String
  checkout_inj : ∀ {id id'}, checkout id = checkout id' → id = id'
  portal_ne : ∀ id, portal ≠ checkout id

/-! ## What a call does with a session -/

/-- The results of `resolveCheckoutSession` for an existing row. -/
inductive Resolution (κ : Type) where
  | url (url : String)
  /-- the row is removed, and the result is that of a user without one -/
  | deleteRow
  | resolved (result : Resolved κ)
  | invalidStatus

/-- `resolveCheckoutSession` once it has the session. -/
def resolveCheckoutSession {κ : Type} (portalUrl : String) (existing : CheckoutSession κ)
    (sess : StripeSession) : Resolution κ :=
  match sess.status with
  | some .opened => .url existing.url
  | some .expired =>
    .resolved ⟨some existing.clientReferenceId, sess.customer.map StripeCustomer.id⟩
  | some .complete =>
    if sess.customer.any StripeCustomer.deleted then
      .deleteRow
    else
      match sess.subscription.filter fun sub => sub.status = .canceled with
      | some sub => .resolved ⟨some existing.clientReferenceId, some sub.customer⟩
      | none => .url portalUrl
  | none => .invalidStatus

/-! ## Calls -/

inductive CheckoutCaller where
  | handler
  | middleware
deriving DecidableEq, Repr

/-- The next step of a call. -/
inductive CheckoutPhase (κ : Type) where
  /-- the select of the row -/
  | findFirst (caller : CheckoutCaller)
  /-- GET of `getOrSet` -/
  | get (caller : CheckoutCaller) (existing : CheckoutSession κ)
  /-- the callback of `getOrSet` -/
  | retrieve (caller : CheckoutCaller) (existing : CheckoutSession κ)
  /-- SET of `getOrSet` -/
  | set (caller : CheckoutCaller) (existing : CheckoutSession κ) (sess : StripeSession)
  | deleteRow (existing : CheckoutSession κ)
  /-- the creation of a Stripe session -/
  | create (result : Resolved κ)
  | transaction (call : CheckoutCall κ)
  | respond (url : String)

/-- Stripe, the row, the cache entry and the running call of one user. -/
structure LinkState (κ : Type) where
  stripe : String → Option StripeSession
  row : Option (CheckoutSession κ)
  cache : Option StripeSession
  call : Option (CheckoutPhase κ)
  returned : List String

/-- What happens to them. -/
inductive LinkAction (κ : Type) where
  | start (caller : CheckoutCaller)
  /-- the next step of the call, other than the creation of a session -/
  | run
  /-- Stripe creates a session, and the call has two new UUIDs -/
  | create (sessionId : String) (clientReferenceId id : κ)
  | fail
  /-- a session is from now on as given -/
  | change (sess : StripeSession)
  | expireCache
  | invalidate
  /-- the row is removed after a `customer.deleted` event -/
  | customerDeleted

namespace LinkState

variable {κ : Type} [DecidableEq κ]

/-- A user who has no row yet. -/
def init : LinkState κ := ⟨fun _ => none, none, none, none, []⟩

/-- How a call goes on with its session. -/
def proceed (urls : StripeUrls) (existing : CheckoutSession κ) (sess : StripeSession) :
    CheckoutCaller → Option (CheckoutPhase κ)
  | .middleware => none
  | .handler =>
    match resolveCheckoutSession urls.portal existing sess with
    | .url url => some (.respond url)
    | .deleteRow => some (.deleteRow existing)
    | .resolved result => some (.create result)
    | .invalidStatus => none

/-- The next step of a call. -/
def runCall (urls : StripeUrls) (s : LinkState κ) : CheckoutPhase κ → Option (LinkState κ)
  | .findFirst caller =>
    match s.row, caller with
    | some existing, _ => some { s with call := some (.get caller existing) }
    | none, .handler => some { s with call := some (.create ⟨none, none⟩) }
    | none, .middleware => some { s with call := none }
  | .get caller existing =>
    match s.cache with
    | some sess => some { s with call := proceed urls existing sess caller }
    | none => some { s with call := some (.retrieve caller existing) }
  | .retrieve caller existing =>
    match s.stripe existing.sessionId with
    | some sess => some { s with call := some (.set caller existing sess) }
    | none => some { s with call := none }
  | .set caller existing sess =>
    some { s with cache := some sess, call := proceed urls existing sess caller }
  | .deleteRow existing =>
    some { s with
      row := s.row.filter fun row => row.id ≠ existing.id
      call := some (.create ⟨none, none⟩) }
  | .create _ => none
  | .transaction call =>
    match call.transaction s.row with
    | some row => some { s with row := some row, call := some (.respond row.url) }
    | none => some { s with call := none }
  | .respond url => some { s with returned := url :: s.returned, call := none }

/-- Sets a session in Stripe. -/
def setSession (s : LinkState κ) (sess : StripeSession) : LinkState κ :=
  { s with stripe := Function.update s.stripe sess.id (some sess) }

/-- The creation of a session and the transaction it leads to. A call whose user has no primary
    email address fails before. -/
def create (urls : StripeUrls) (userId : String) (s : LinkState κ) (result : Resolved κ)
    (sessionId : String) (clientReferenceId id : κ) : LinkState κ :=
  let customer := result.stripeCustomerId.map fun id => ⟨id, false⟩
  let call := ⟨result, userId, id, clientReferenceId, sessionId, urls.checkout sessionId⟩
  { s.setSession ⟨sessionId, some .opened, customer, none⟩ with call := some (.transaction call) }

/-- Takes one action, `none` when it is not enabled. A session that is not open does not become
    open again, and a new one has a new ID. -/
def step (urls : StripeUrls) (userId : String) (s : LinkState κ) :
    LinkAction κ → Option (LinkState κ)
  | .start caller =>
    match s.call with
    | none => some { s with call := some (.findFirst caller) }
    | some _ => none
  | .run =>
    match s.call with
    | none => none
    | some phase => s.runCall urls phase
  | .create sessionId clientReferenceId id =>
    match s.call, s.stripe sessionId with
    | some (.create result), none =>
      some (s.create urls userId result sessionId clientReferenceId id)
    | _, _ => none
  | .fail => some { s with call := none }
  | .change sess =>
    match s.stripe sess.id with
    | none => none
    | some old =>
      if old.status = some .opened ∨ sess.status ≠ some .opened then some (s.setSession sess)
      else none
  | .expireCache => some { s with cache := none }
  | .invalidate => some { s with cache := none }
  | .customerDeleted => some { s with row := none }

end LinkState

end BlockFeed.Native
