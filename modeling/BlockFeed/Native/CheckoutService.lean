import BlockFeed.Native.CheckoutSession
import BlockFeed.Native.RedisCache
import Mathlib.Data.List.Nodup

/-!
# Checkout calls of all users

A `LinkState` has one user. A `CheckoutService` has what all users share: Stripe, where the metadata
of a session names its user, the table `checkout_session`, and the session cache with a key for each
user. A user makes one call after the other; the calls of different users run at the same time, and
their statements find rows by the columns that the handlers name.

A transaction is one step. It meets none of the same user, and it locks no rows of another.
-/

namespace BlockFeed.Native

/-! ## The table -/

/-- The table `checkout_session`, with its primary key and its unique columns. -/
structure CheckoutSessions (κ : Type) where
  rows : List (CheckoutSession κ)
  ids : (rows.map CheckoutSession.id).Nodup
  references : (rows.map CheckoutSession.clientReferenceId).Nodup
  customers : (rows.map CheckoutSession.customerId).Nodup

namespace CheckoutSessions

variable {κ : Type}

def empty : CheckoutSessions κ where
  rows := []
  ids := by simp
  references := by simp
  customers := by simp

/-- The row of a customer. -/
def findFirst (table : CheckoutSessions κ) (customerId : String) : Option (CheckoutSession κ) :=
  table.rows.find? fun row => row.customerId = customerId

/-- DELETE of the rows that satisfy `p`. -/
def delete (table : CheckoutSessions κ) (p : CheckoutSession κ → Bool) : CheckoutSessions κ where
  rows := table.rows.filter fun row => !p row
  ids := (List.filter_sublist.map _).nodup table.ids
  references := (List.filter_sublist.map _).nodup table.references
  customers := (List.filter_sublist.map _).nodup table.customers

variable [DecidableEq κ]

/-- UPDATE of the rows that satisfy `p`, `none` when a key would not be unique any more. -/
def update (table : CheckoutSessions κ) (p : CheckoutSession κ → Bool)
    (set : CheckoutSession κ → CheckoutSession κ) : Option (CheckoutSessions κ) :=
  let rows := table.rows.map fun row => if p row then set row else row
  if h : (rows.map CheckoutSession.id).Nodup ∧
      (rows.map CheckoutSession.clientReferenceId).Nodup ∧
      (rows.map CheckoutSession.customerId).Nodup then
    some ⟨rows, h.1, h.2.1, h.2.2⟩
  else none

/-- `INSERT IGNORE`: a row with a key that is there is left out. -/
def insertIgnore (table : CheckoutSessions κ) (row : CheckoutSession κ) : CheckoutSessions κ :=
  if h : row.id ∉ table.rows.map CheckoutSession.id ∧
      row.clientReferenceId ∉ table.rows.map CheckoutSession.clientReferenceId ∧
      row.customerId ∉ table.rows.map CheckoutSession.customerId then
    ⟨row :: table.rows, List.nodup_cons.2 ⟨h.1, table.ids⟩,
      List.nodup_cons.2 ⟨h.2.1, table.references⟩, List.nodup_cons.2 ⟨h.2.2, table.customers⟩⟩
  else table

omit [DecidableEq κ] in
theorem findFirst_eq_some {table : CheckoutSessions κ} {customerId : String}
    {row : CheckoutSession κ} : table.findFirst customerId = some row ↔
      row ∈ table.rows ∧ row.customerId = customerId := by
  constructor
  · intro h
    have hcustomer := List.find?_some h
    exact ⟨List.mem_of_find?_eq_some h, of_decide_eq_true hcustomer⟩
  · rintro ⟨hrow, hcustomer⟩
    cases hfound : table.findFirst customerId with
    | none => exact absurd (decide_eq_true hcustomer) (List.find?_eq_none.1 hfound row hrow)
    | some other =>
      -- a customer has one row
      have hother := List.find?_some hfound
      rw [List.inj_on_of_nodup_map table.customers (List.mem_of_find?_eq_some hfound) hrow
        ((of_decide_eq_true hother).trans hcustomer.symm)]

omit [DecidableEq κ] in
theorem findFirst_delete (table : CheckoutSessions κ) (p : CheckoutSession κ → Bool)
    (customerId : String) : (table.delete p).findFirst customerId =
      (table.findFirst customerId).filter fun row => !p row := by
  apply Option.ext
  intro row
  simp only [Option.filter_eq_some_iff, findFirst_eq_some, delete, List.mem_filter]
  exact and_right_comm

omit [DecidableEq κ] in
/-- Rows of other customers are deleted. -/
theorem findFirst_delete_of_forall {table : CheckoutSessions κ} {p : CheckoutSession κ → Bool}
    {customerId : String} (h : ∀ row ∈ table.rows, row.customerId = customerId → p row = false) :
    (table.delete p).findFirst customerId = table.findFirst customerId := by
  rw [findFirst_delete]
  cases hfound : table.findFirst customerId with
  | none => rfl
  | some row =>
    obtain ⟨hrow, hcustomer⟩ := findFirst_eq_some.1 hfound
    rw [Option.filter_some, h row hrow hcustomer]
    rfl

/-- A row with new UUIDs is inserted, unless its customer has one. -/
theorem findFirst_insertIgnore {table : CheckoutSessions κ} {row : CheckoutSession κ}
    (hid : row.id ∉ table.rows.map CheckoutSession.id)
    (hreference : row.clientReferenceId ∉ table.rows.map CheckoutSession.clientReferenceId)
    (customerId : String) : (table.insertIgnore row).findFirst customerId =
      if row.customerId = customerId then some ((table.findFirst customerId).getD row)
      else table.findFirst customerId := by
  unfold insertIgnore
  split
  · next h =>
    have hnone : table.findFirst row.customerId = none := by
      apply List.find?_eq_none.2
      intro r hr hcustomer
      exact h.2.2 (List.mem_map.2 ⟨r, hr, of_decide_eq_true hcustomer⟩)
    rw [findFirst, List.find?_cons]
    split
    · next hcustomer =>
      rw [if_pos (of_decide_eq_true hcustomer), ← of_decide_eq_true hcustomer, hnone]
      rfl
    · next hcustomer =>
      rw [if_neg (of_decide_eq_false hcustomer)]
      rfl
  · next h =>
    split
    · next hcustomer =>
      -- only the customer can be there
      have hthere : row.customerId ∈ table.rows.map CheckoutSession.customerId := by
        by_contra hnot
        exact h ⟨hid, hreference, hnot⟩
      obtain ⟨r, hr, hsame⟩ := List.mem_map.1 hthere
      rw [findFirst_eq_some.2 ⟨hr, hsame.trans hcustomer⟩]
      rfl
    · rfl

/-- An update that leaves the primary key and the customer alone, and keeps the references apart. -/
theorem exists_update {table : CheckoutSessions κ} {p : CheckoutSession κ → Bool}
    {set : CheckoutSession κ → CheckoutSession κ}
    (hset : ∀ row ∈ table.rows, p row → (set row).id = row.id ∧
      (set row).customerId = row.customerId)
    (hreferences : (table.rows.map fun row =>
      (if p row then set row else row).clientReferenceId).Nodup) :
    ∃ table', table.update p set = some table' ∧
      table'.rows = table.rows.map (fun row => if p row then set row else row) ∧
      ∀ customerId, table'.findFirst customerId =
        (table.findFirst customerId).map fun row => if p row then set row else row := by
  have hkeys : ∀ row ∈ table.rows, (if p row then set row else row).id = row.id ∧
      (if p row then set row else row).customerId = row.customerId := by
    intro row hrow
    split
    · next hp => exact hset row hrow hp
    · exact ⟨rfl, rfl⟩
  have hids : ((table.rows.map fun row => if p row then set row else row).map
      CheckoutSession.id).Nodup := by
    rw [List.map_map, Function.comp_def, List.map_congr_left fun row hrow => (hkeys row hrow).1]
    exact table.ids
  have hcustomers : ((table.rows.map fun row => if p row then set row else row).map
      CheckoutSession.customerId).Nodup := by
    rw [List.map_map, Function.comp_def, List.map_congr_left fun row hrow => (hkeys row hrow).2]
    exact table.customers
  have hkept := hreferences
  rw [← Function.comp_def CheckoutSession.clientReferenceId, ← List.map_map] at hkept
  refine ⟨⟨_, hids, hkept, hcustomers⟩, dif_pos ⟨hids, hkept, hcustomers⟩, rfl, ?_⟩
  intro customerId
  apply Option.ext
  intro row
  rw [findFirst_eq_some, Option.map_eq_some_iff]
  simp only [List.mem_map, findFirst_eq_some]
  constructor
  · rintro ⟨⟨r, hr, rfl⟩, hcustomer⟩
    exact ⟨r, ⟨hr, (hkeys r hr).2.symm.trans hcustomer⟩, rfl⟩
  · rintro ⟨r, ⟨hr, hcustomer⟩, rfl⟩
    exact ⟨⟨r, hr, rfl⟩, (hkeys r hr).2.trans hcustomer⟩

end CheckoutSessions

/-- The table after the statements of a transaction that write, `none` when one fails. -/
def CheckoutCall.write {κ : Type} [DecidableEq κ] (call : CheckoutCall κ)
    (table : CheckoutSessions κ) : Option (CheckoutSessions κ) :=
  match call.firstStatement with
  | .selectForUpdate clientReferenceId =>
    -- where the select finds no row, there is none to update
    table.update (fun row => some row.clientReferenceId = clientReferenceId) call.set
  | .insertIgnore => some (table.insertIgnore call.values)

/-! ## All users -/

/-- A session in Stripe with the user that its metadata has. -/
structure UserSession where
  userId : String
  sess : StripeSession

/-- What the users share, and the call and the returned URLs of each of them. -/
structure CheckoutService (κ : Type) where
  stripe : String → Option UserSession
  table : CheckoutSessions κ
  /-- the session cache, by Redis key -/
  cache : String → Option StripeSession
  call : String → Option (CheckoutPhase κ)
  returned : String → List String

/-- The key of a user's session in the cache. -/
def sessionKey (userId : String) : String := prefixWithNamespace "stripe:checkout:session" userId

namespace CheckoutService

variable {κ : Type}

def init : CheckoutService κ :=
  ⟨fun _ => none, .empty, fun _ => none, fun _ => none, fun _ => []⟩

/-- Sets the next step of a user's call. -/
def setCall (s : CheckoutService κ) (userId : String) (call : Option (CheckoutPhase κ)) :
    CheckoutService κ := { s with call := Function.update s.call userId call }

/-- Sets or removes the cached session of a user. -/
def setCache (s : CheckoutService κ) (userId : String) (cached : Option StripeSession) :
    CheckoutService κ := { s with cache := Function.update s.cache (sessionKey userId) cached }

/-- Sets a session in Stripe. -/
def setSession (s : CheckoutService κ) (userId : String) (sess : StripeSession) :
    CheckoutService κ :=
  { s with stripe := Function.update s.stripe sess.id (some ⟨userId, sess⟩) }

/-- The creation of a session for a user. -/
def create (urls : StripeUrls) (userId : String) (s : CheckoutService κ) (result : Resolved κ)
    (sessionId : String) (clientReferenceId id : κ) : CheckoutService κ :=
  let customer := result.stripeCustomerId.map fun id => ⟨id, false⟩
  let call := ⟨result, userId, id, clientReferenceId, sessionId, urls.checkout sessionId⟩
  (s.setSession userId ⟨sessionId, some .opened, customer, none⟩).setCall userId
    (some (.transaction call))

variable [DecidableEq κ]

/-- The transaction of a call. It is rolled back when a statement fails or the last select finds
    nothing. -/
def transaction (userId : String) (s : CheckoutService κ) (call : CheckoutCall κ) :
    CheckoutService κ :=
  match call.write s.table with
  | none => s.setCall userId none
  | some table =>
    match table.findFirst call.userId with
    | none => s.setCall userId none
    | some row => { s with table := table }.setCall userId (some (.respond row.url))

/-- The next step of a user's call. -/
def runCall (urls : StripeUrls) (userId : String) (s : CheckoutService κ) :
    CheckoutPhase κ → Option (CheckoutService κ)
  | .findFirst caller =>
    match s.table.findFirst userId, caller with
    | some existing, _ => some (s.setCall userId (some (.get caller existing)))
    | none, .handler => some (s.setCall userId (some (.create ⟨none, none⟩)))
    | none, .middleware => some (s.setCall userId none)
  | .get caller existing =>
    match s.cache (sessionKey userId) with
    | some sess => some (s.setCall userId (LinkState.proceed urls existing sess caller))
    | none => some (s.setCall userId (some (.retrieve caller existing)))
  | .retrieve caller existing =>
    match s.stripe existing.sessionId with
    | some session => some (s.setCall userId (some (.set caller existing session.sess)))
    | none => some (s.setCall userId none)
  | .set caller existing sess =>
    some ((s.setCache userId (some sess)).setCall userId
      (LinkState.proceed urls existing sess caller))
  | .deleteRow existing =>
    some ({ s with table := s.table.delete fun row => row.id = existing.id }.setCall userId
      (some (.create ⟨none, none⟩)))
  | .create _ => none
  | .transaction call => some (s.transaction userId call)
  | .respond url =>
    let returned := Function.update s.returned userId (url :: s.returned userId)
    some ({ s with returned := returned }.setCall userId none)

/-- Takes one action of a user's call, of the user's session in Stripe or of an event for the user,
    `none` when it is not enabled. -/
def step (urls : StripeUrls) (s : CheckoutService κ) :
    String × LinkAction κ → Option (CheckoutService κ)
  | (userId, .start caller) =>
    match s.call userId with
    | none => some (s.setCall userId (some (.findFirst caller)))
    | some _ => none
  | (userId, .run) =>
    match s.call userId with
    | none => none
    | some phase => s.runCall urls userId phase
  | (userId, .create sessionId clientReferenceId id) =>
    match s.call userId, s.stripe sessionId with
    | some (.create result), none =>
      some (s.create urls userId result sessionId clientReferenceId id)
    | _, _ => none
  | (userId, .fail) => some (s.setCall userId none)
  | (userId, .change sess) =>
    match s.stripe sess.id with
    | none => none
    | some old =>
      -- the metadata stays
      if old.userId = userId ∧ (old.sess.status = some .opened ∨ sess.status ≠ some .opened) then
        some (s.setSession userId sess)
      else none
  | (userId, .expireCache) => some (s.setCache userId none)
  | (userId, .invalidate) => some (s.setCache userId none)
  | (userId, .customerDeleted) =>
    some { s with table := s.table.delete fun row => row.customerId = userId }

end CheckoutService

end BlockFeed.Native
