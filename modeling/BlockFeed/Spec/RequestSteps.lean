import BlockFeed.Native.WebhookApi

/-!
# The statements of an API call

`request_along` goes through all handlers once: what holds of each statement that a call may send
holds of every operation of the call, and the call goes the same way where its reads agree. The
results about runs of many calls start from it.
-/

namespace BlockFeed.Spec

open Native Native.ApiState

variable {κ ι τ : Type}

/-- MySQL compares texts by classes. -/
structure LawfulCollation (db : Collation) : Prop where
  refl : ∀ a, db.eq a a = true
  symm : ∀ {a b}, db.eq a b = true → db.eq b a = true
  trans : ∀ {a b c}, db.eq a b = true → db.eq b c = true → db.eq a c = true

/-- The user that a call authenticates as. -/
def caller (verify : Text → JwtResult) (call : ApiCall ι) : Option String :=
  (authenticate verify call.authorization).toOption

/-- The call gets past `requireStripeSubscription`. -/
def Subscribed (call : ApiCall ι) : Prop :=
  ∃ stripeSub, requireStripeSubscription call.subscription = .ok stripeSub

/-! ### What a request does -/

/-- `U` holds of all statements of a call for the user `userId`, and where `R` holds they read the
    same. -/
structure CallStatements [DecidableEq ι] (db : Collation) (isUrl : String → Bool)
    (blockchains : List Blockchain) (inv : ApiState ι τ → Prop)
    (R : ApiState ι τ → ApiState ι τ → Prop) (U : (ApiState ι τ → ApiState ι τ) → Prop)
    (userId : String) (call : ApiCall ι) : Prop where
  id : U id
  insertCustomer : U (insertCustomer db userId)
  setClerkUser : U (setClerkUser userId)
  insertWebhook : Subscribed call → ∀ data draw blockchain,
    call.field = .webhookCreate data draw → data.valid isUrl = true →
    blockchains.find? (fun blockchain => db.eq blockchain.id data.blockchainId) =
      some blockchain → 0 < blockchain.shardCount →
    U (insertWebhook db blockchains fun createdAt =>
      data.row call.uuid createdAt userId ((draw : Int) % blockchain.shardCount))
  updateWebhook : Subscribed call → ∀ id data, call.field = .webhookUpdate id data →
    data.valid isUrl = true → U (updateWebhook db userId id data)
  activateWebhooks : Subscribed call → ∀ ids : List ι, U (activateWebhooks db userId ids)
  removeWebhooks : Subscribed call → ∀ ids : List ι, U (removeWebhooks db userId ids)
  clerkUser : ∀ s t, inv s → inv t → R s t → s.clerkUser userId = t.clerkUser userId
  rows : ∀ s t, inv s → inv t → R s t →
    s.webhooks.rows.filter (fun row => db.eq row.customerId userId) =
      t.webhooks.rows.filter fun row => db.eq row.customerId userId
  inserts : ∀ row : τ → WebhookRecord ι τ, (∀ now, (row now).id = call.uuid) →
    (∀ now, (row now).customerId = userId) → ∀ s t, inv s → inv t → R s t →
    (s.Inserts db blockchains (row s.now) ↔ t.Inserts db blockchains (row t.now))

section Along

variable {db : Collation} {isUrl : String → Bool} {blockchains : List Blockchain}
  {inv : ApiState ι τ → Prop} {R : ApiState ι τ → ApiState ι τ → Prop}
  {U : (ApiState ι τ → ApiState ι τ) → Prop} {userId : String} {call : ApiCall ι}

theorem operation_along {α : Type} {f : ApiState ι τ → α} {update : ApiState ι τ → ApiState ι τ}
    (hupdate : U update) (hf : ∀ s t, inv s → inv t → R s t → f s = f t) :
    (operation f update).run.Along inv R U :=
  .lift (.op hupdate hf)

/-- A selection of the user's rows. -/
theorem filter_eq {rows rows' : List (WebhookRecord ι τ)}
    (h : rows.filter (fun row => db.eq row.customerId userId) =
      rows'.filter fun row => db.eq row.customerId userId) {p : WebhookRecord ι τ → Bool}
    (hp : ∀ row, p row = true → db.eq row.customerId userId = true) :
    rows.filter p = rows'.filter p := by
  have hboth : ∀ l : List (WebhookRecord ι τ),
      (l.filter fun row => db.eq row.customerId userId).filter p = l.filter p := by
    intro l
    rw [List.filter_filter]
    refine List.filter_congr fun row _ => ?_
    cases hrow : p row with
    | true => simp [hp row hrow]
    | false => simp
  rw [← hboth, h, hboth]

/-- The first of them. -/
theorem find_eq {rows rows' : List (WebhookRecord ι τ)}
    (h : rows.filter (fun row => db.eq row.customerId userId) =
      rows'.filter fun row => db.eq row.customerId userId) {p : WebhookRecord ι τ → Bool}
    (hp : ∀ row, p row = true → db.eq row.customerId userId = true) :
    rows.find? p = rows'.find? p := by
  rw [← List.head?_filter, filter_eq h hp, List.head?_filter]

section Statements

variable [DecidableEq ι] (h : CallStatements db isUrl blockchains inv R U userId call)

include h

theorem findOne_along [ToString ι] (id : ι) :
    (findOne db userId id : Api ι τ _).run.Along inv R U := by
  refine .bindExcept (operation_along h.id fun s t hs ht hst => ?_) fun result => ?_
  · exact find_eq (h.rows s t hs ht hst) fun row hrow => (Bool.and_eq_true_iff.1 hrow).1
  · cases result with
    | none => exact .done _
    | some row => exact .done _

theorem create_along (hsub : Subscribed call) {data : CreateInput} {draw : Nat}
    (hfield : call.field = .webhookCreate data draw) (hvalid : data.valid isUrl = true) :
    (create db blockchains userId data call.uuid draw : Api ι τ _).run.Along inv R U := by
  unfold create
  split
  · exact .done _
  · next blockchain hfind =>
    split
    · exact .done _
    · next hshards =>
      refine .bindExcept (operation_along ?_ ?_) fun inserted => ?_
      · exact h.insertWebhook hsub data draw blockchain hfield hvalid hfind (not_le.1 hshards)
      · intro s t hs ht hst
        exact decide_eq_decide.2 (h.inserts (fun createdAt => data.row call.uuid createdAt userId _)
          (fun _ => rfl) (fun _ => rfl) s t hs ht hst)
      · split
        · exact .done _
        · exact .done _

/-- The count of an update or a delete. -/
private theorem length_eq (ids : List ι) (s t : ApiState ι τ) (hs : inv s) (ht : inv t)
    (hst : R s t) : (s.webhooks.rows.filter (ofUser db userId ids)).length =
      (t.webhooks.rows.filter (ofUser db userId ids)).length := by
  have hrows : s.webhooks.rows.filter (ofUser db userId ids) =
      t.webhooks.rows.filter (ofUser db userId ids) :=
    filter_eq (h.rows s t hs ht hst) fun row hrow => (Bool.and_eq_true_iff.1 hrow).1
  rw [hrows]

theorem update_along (hsub : Subscribed call) {id : ι} {data : UpdateInput}
    (hfield : call.field = .webhookUpdate id data) (hvalid : data.valid isUrl = true) :
    (Native.update db userId id data : Api ι τ _).run.Along inv R U := by
  unfold Native.update
  split
  · exact .done _
  · exact operation_along (h.updateWebhook hsub id data hfield hvalid) (length_eq h [id])

theorem remove_along (hsub : Subscribed call) (ids : List ι) :
    (remove db userId ids : Api ι τ _).run.Along inv R U := by
  unfold remove
  split
  · exact .done _
  · exact operation_along (h.removeWebhooks hsub ids) (length_eq h ids)

theorem sendUpdates_along (hsub : Subscribed call) (groups : List (ShardGroup ι))
    (updates : List (Nat × CallOutcome)) :
    (sendUpdates db userId groups updates : Api ι τ _).run.Along inv R U := by
  induction updates with
  | nil => exact .done _
  | cons update updates ih =>
    obtain ⟨i, outcome⟩ := update
    refine .bindExcept ?_ fun _ => ih
    cases groups[i]? with
    | none => exact .done _
    | some group =>
      refine operation_along ?_ fun _ _ _ _ _ => rfl
      cases outcome.executes with
      | true => exact h.activateWebhooks hsub group.webhookIds
      | false => exact h.id

theorem activate_along (hsub : Subscribed call) (ids : List ι) (settling : Settling) :
    (activate db blockchains userId ids settling : Api ι τ _).run.Along inv R U := by
  unfold activate
  split
  · exact .done _
  · refine .bindExcept (operation_along h.id fun s t hs ht hst => ?_) fun results => ?_
    · refine filter_eq (h.rows s t hs ht hst) fun row hrow => ?_
      exact (Bool.and_eq_true_iff.1 (Bool.and_eq_true_iff.1 hrow).1).1
    · split
      · exact .done _
      · split
        · exact .done _
        · refine .bindExcept (sendUpdates_along h hsub _ _) fun _ => ?_
          split
          · exact .done _
          · exact .done _

theorem createCheckoutSession_along (run : CheckoutRun) :
    (createCheckoutSession userId run : Api ι τ _).run.Along inv R U := by
  unfold createCheckoutSession
  split
  · exact .done _
  · exact .done _
  · refine .bindExcept ?_ fun _ => ?_
    · refine .bindExcept (operation_along h.id h.clerkUser) fun cached => ?_
      split
      · exact .done _
      · split
        · exact operation_along h.setClerkUser fun _ _ _ _ _ => rfl
        · exact .done _
    · split
      · exact .done _
      · exact .done _

end Statements

section Request

variable [LinearOrder ι] [LinearOrder τ]
  (h : CallStatements db isUrl blockchains inv R U userId call)

include h

theorem findManySteps_along (args : FindManyInput ι) :
    (findManySteps db userId args : Api ι τ _).run.Along inv R U := by
  unfold findManySteps
  refine .bindExcept ?_ fun cursor => operation_along h.id fun s t hs ht hst => ?_
  · unfold selectCursor
    split
    · exact .done _
    · refine operation_along h.id fun s t hs ht hst => ?_
      simp only [findCursor]
      split
      · rfl
      · rw [find_eq (h.rows s t hs ht hst) fun row hrow => (Bool.and_eq_true_iff.1 hrow).1]
  · have hrows : s.webhooks.rows.filter (fun row =>
          whereFilters db userId args.filters row && whereCursor cursor row) =
        t.webhooks.rows.filter fun row =>
          whereFilters db userId args.filters row && whereCursor cursor row := by
      refine filter_eq (h.rows s t hs ht hst) fun row hrow => ?_
      simp only [whereFilters, Bool.and_eq_true] at hrow
      exact hrow.1.1.1.1
    simp only [findPage, hrows]

theorem resolve_along [ToString ι] :
    (call.resolve db isUrl blockchains userId : Api ι τ _).run.Along inv R U := by
  unfold ApiCall.resolve
  split
  · exact .done _
  · next hvalid =>
    simp only [Bool.not_eq_eq_eq_not, Bool.not_true, Bool.not_eq_false] at hvalid
    split
    · exact .done _
    · next hgate =>
      have hsub : call.field.gated = true → Subscribed call := by
        intro hgated
        cases hcase : requireStripeSubscription call.subscription with
        | error e => exact absurd hcase (hgate e hgated)
        | ok stripeSub => exact ⟨stripeSub, hcase⟩
      cases hfield : call.field with
      | webhook id => exact .mapExcept _ (findOne_along h id)
      | webhooks args => exact .mapExcept _ (findManySteps_along h args)
      | webhookCreate data draw =>
        rw [hfield] at hvalid
        exact .mapExcept _ (create_along h (hsub (by rw [hfield]; rfl)) hfield hvalid)
      | webhookUpdate id data =>
        rw [hfield] at hvalid
        exact .mapExcept _ (update_along h (hsub (by rw [hfield]; rfl)) hfield hvalid)
      | webhookRemove ids => exact .mapExcept _ (remove_along h (hsub (by rw [hfield]; rfl)) ids)
      | webhookActivate ids settling =>
        exact .mapExcept _ (activate_along h (hsub (by rw [hfield]; rfl)) ids settling)
      | createCheckoutSession run => exact .mapExcept _ (createCheckoutSession_along h run)

end Request

theorem requireAuth_along [DecidableEq ι]
    (h : CallStatements db isUrl blockchains inv R U userId call) :
    (requireAuth db userId : Api ι τ _).run.Along inv R U := by
  refine .bindExcept (operation_along h.id h.clerkUser) fun user => ?_
  split
  · exact .done _
  · exact operation_along h.insertCustomer fun _ _ _ _ _ => rfl

/-- All operations of a request. -/
theorem request_along [LinearOrder ι] [LinearOrder τ] [ToString ι] {verify : Text → JwtResult}
    (h : ∀ userId, caller verify call = some userId →
      CallStatements db isUrl blockchains inv R U userId call) :
    (call.request db verify isUrl blockchains : Api ι τ _).run.Along inv R U := by
  unfold ApiCall.request
  cases hauth : authenticate verify call.authorization with
  | error e => exact .done _
  | ok userId =>
    have hstatements := h userId (by rw [caller, hauth]; rfl)
    exact .bindExcept (requireAuth_along hstatements) fun _ => resolve_along hstatements

end Along

end BlockFeed.Spec
