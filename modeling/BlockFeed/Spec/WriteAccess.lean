import BlockFeed.Spec.TenantIsolation

/-!
# Who may write webhooks

However the calls of all users are interleaved, the table of webhooks changes only by operations of
calls that have sent `bearer` and a valid token, and whose Stripe session is complete and has a
subscription that is active or trialing. Such a call changes rows of the token's user only.

The main result is `writes_authorized`.
-/

namespace BlockFeed.Spec

open Native Native.ApiState

/-! ### The token -/

/-- A header that the regular expression matches: a space character between `bearer` and a token. -/
theorem isBearer_iff {text : Text} : isBearer text = true ↔ ∃ c token, isSpace c = true ∧
    token ≠ [] ∧ (∀ c ∈ token, isSpace c = false) ∧ text = "bearer".toList ++ c :: token := by
  have hbearer : "bearer".toList = ['b', 'e', 'a', 'r', 'e', 'r'] := rfl
  rw [hbearer]
  constructor
  · intro h
    unfold isBearer at h
    split at h
    · next c token =>
      simp only [Bool.and_eq_true, Bool.not_eq_eq_eq_not, Bool.not_true, List.isEmpty_eq_false_iff,
        List.all_eq_true] at h
      exact ⟨c, token, h.1.1, h.1.2, h.2, rfl⟩
    · cases h
  · rintro ⟨c, token, hc, hne, htoken, rfl⟩
    simpa [isBearer, hc] using ⟨hne, htoken⟩

/-- Neither end of such a header is trimmed. -/
theorem trim_bearer {c : Char} {token : Text} (hne : token ≠ [])
    (htoken : ∀ c ∈ token, isSpace c = false) :
    trim ("bearer".toList ++ c :: token) = "bearer".toList ++ c :: token := by
  have hstart : ("bearer".toList ++ c :: token).dropWhile isSpace =
      "bearer".toList ++ c :: token := rfl
  rw [trim, hstart, List.rdropWhile_eq_self_iff]
  intro hne'
  have hlast : ("bearer".toList ++ c :: token).getLast hne' = token.getLast hne := by
    rw [List.getLast_append_of_ne_nil _ (List.cons_ne_nil _ _), List.getLast_cons hne]
  rw [hlast, htoken _ (List.getLast_mem hne)]
  exact Bool.false_ne_true

/-- Which headers have a token. A tab matches the regular expression, but it does not split. -/
theorem bearerToken_eq_ok {authorization : Option Text} {token : Text} :
    bearerToken authorization = .ok token ↔ token ≠ [] ∧ (∀ c ∈ token, isSpace c = false) ∧
      authorization = some ("bearer ".toList ++ token) := by
  have hbearer : "bearer ".toList = "bearer".toList ++ [' '] := rfl
  have hspace : isSpace ' ' = true := rfl
  have hfirst : ' ' ∉ "bearer".toList := by decide
  constructor
  · intro h
    unfold bearerToken at h
    split at h
    · cases h
    · next text =>
      split at h
      · next hmatch =>
        obtain ⟨c, token', hc, hne, htoken, rfl⟩ := isBearer_iff.1 hmatch
        have hnone : ' ' ∉ token' := fun hmem => by simp [htoken _ hmem] at hspace
        rw [trim_bearer hne htoken] at h
        by_cases hcspace : c = ' '
        · subst hcspace
          rw [List.splitOn_append_cons_self_of_not_mem hfirst,
            List.splitOn_eq_singleton hnone] at h
          cases h
          exact ⟨hne, htoken, by rw [hbearer, List.append_assoc]; rfl⟩
        · have hwhole : ' ' ∉ "bearer".toList ++ c :: token' := by
            simp only [List.mem_append, List.mem_cons, not_or]
            exact ⟨hfirst, fun heq => hcspace heq.symm, hnone⟩
          rw [List.splitOn_eq_singleton hwhole] at h
          cases h
      · cases h
  · rintro ⟨hne, htoken, rfl⟩
    have hnone : ' ' ∉ token := fun hmem => by simp [htoken _ hmem] at hspace
    have htext : "bearer ".toList ++ token = "bearer".toList ++ ' ' :: token := by
      rw [hbearer, List.append_assoc]
      rfl
    have hmatch : isBearer ("bearer".toList ++ ' ' :: token) = true :=
      isBearer_iff.2 ⟨' ', token, hspace, hne, htoken, rfl⟩
    rw [htext, bearerToken, if_pos hmatch, trim_bearer hne htoken,
      List.splitOn_append_cons_self_of_not_mem hfirst, List.splitOn_eq_singleton hnone]
    rfl

/-- Who a request is from. -/
theorem authenticate_eq_ok {verify : Text → JwtResult} {authorization : Option Text}
    {userId : String} : authenticate verify authorization = .ok userId ↔
      ∃ token, token ≠ [] ∧ (∀ c ∈ token, isSpace c = false) ∧
        authorization = some ("bearer ".toList ++ token) ∧
          verify token = .payload (some userId) := by
  have htoken : authenticate verify authorization = .ok userId ↔
      ∃ token, bearerToken authorization = .ok token ∧ verify token = .payload (some userId) := by
    constructor
    · intro h
      unfold authenticate at h
      cases hbearer : bearerToken authorization with
      | error e =>
        rw [hbearer] at h
        cases h
      | ok token =>
        rw [hbearer] at h
        refine ⟨token, rfl, ?_⟩
        cases hverify : verify token with
        | error =>
          simp only [bind, Except.bind, hverify] at h
          cases h
        | text result =>
          simp only [bind, Except.bind, hverify] at h
          cases h
        | payload sub =>
          cases sub with
          | none =>
            simp only [bind, Except.bind, hverify] at h
            cases h
          | some user =>
            simp only [bind, Except.bind, hverify] at h
            cases h
            rfl
    · rintro ⟨token, hbearer, hverify⟩
      simp only [authenticate, hbearer, bind, Except.bind, hverify]
      rfl
  rw [htoken]
  simp only [bearerToken_eq_ok, and_assoc]

/-! ### The subscription -/

/-- A session that lets its user in. -/
structure Subscription (sess : StripeSession) (stripeSub : StripeSubscription) : Prop where
  complete : sess.status = some .complete
  customer : ∃ customer, sess.customer = some customer ∧ customer.deleted = false
  subscription : sess.subscription = some stripeSub
  status : stripeSub.status = .trialing ∨ stripeSub.status = .active

theorem requireStripeSubscription_eq_ok {read : SubscriptionRead} {stripeSub : StripeSubscription} :
    requireStripeSubscription read = .ok stripeSub ↔
      ∃ sess, read = .session sess ∧ Subscription sess stripeSub := by
  constructor
  · intro h
    unfold requireStripeSubscription at h
    split at h
    · cases h
    · cases h
    · next sess =>
      split at h
      · cases h
      · next hstatus =>
        split at h
        · cases h
        · next customer hcustomer =>
          split at h
          · cases h
          · next hdeleted =>
            split at h
            · cases h
            · next sub hsub =>
              split at h
              · cases h
              · split at h
                · cases h
                · next hactive =>
                  cases h
                  refine ⟨sess, rfl, not_not.1 hstatus, ⟨customer, hcustomer, ?_⟩, hsub, ?_⟩
                  · simpa using hdeleted
                  · tauto
  · rintro ⟨sess, rfl, hcomplete, ⟨customer, hcustomer, hdeleted⟩, hsub, hstatus⟩
    have hcanceled : stripeSub.status ≠ .canceled := by
      rcases hstatus with h | h <;> simp [h]
    have hactive : ¬(stripeSub.status ≠ .trialing ∧ stripeSub.status ≠ .active) := by tauto
    simp [requireStripeSubscription, hcomplete, hcustomer, hdeleted, hsub, hcanceled, hactive]

/-! ### Operations that write -/

variable {κ ι τ : Type}

/-- The call may write the rows of the user. -/
structure MayWrite (verify : Text → JwtResult) (call : ApiCall ι) (userId : String) : Prop where
  token : ∃ token, token ≠ [] ∧ (∀ c ∈ token, isSpace c = false) ∧
    call.authorization = some ("bearer ".toList ++ token) ∧ verify token = .payload (some userId)
  subscription : ∃ sess stripeSub, call.subscription = .session sess ∧ Subscription sess stripeSub

/-- The rows of all other users. -/
def rowsOfOthers (db : Collation) (userId : String) (s : ApiState ι τ) :
    List (WebhookRecord ι τ) := s.webhooks.rows.filter fun row => !db.eq row.customerId userId

/-- An operation of a call leaves the rows alone, or the call may write rows and it writes those
    of its user. -/
def Writes (db : Collation) (verify : Text → JwtResult) (call : ApiCall ι)
    (update : ApiState ι τ → ApiState ι τ) : Prop :=
  ∀ s, (update s).webhooks.rows = s.webhooks.rows ∨ ∃ userId, MayWrite verify call userId ∧
    rowsOfOthers db userId (update s) = rowsOfOthers db userId s

section Statements

variable [DecidableEq ι] {db : Collation} {verify : Text → JwtResult} {userId : String}

theorem rowsOfOthers_update {ids : List ι} (s : ApiState ι τ)
    (set : WebhookRecord ι τ → WebhookRecord ι τ) (hset : ∀ row, (set row).id = row.id)
    (hcustomer : ∀ row, (set row).customerId = row.customerId) :
    rowsOfOthers db userId
        { s with webhooks := s.webhooks.update (ofUser db userId ids) set hset } =
      rowsOfOthers db userId s := by
  have hsame : ∀ row : WebhookRecord ι τ,
      (if ofUser db userId ids row then set row else row).customerId = row.customerId := by
    intro row
    split
    · exact hcustomer row
    · rfl
  simp only [rowsOfOthers, WebhookRecords.update, List.filter_map, Function.comp_def, hsame]
  refine (List.map_congr_left fun row hrow => ?_).trans (List.map_id _)
  have hother : db.eq row.customerId userId = false := by simpa using (List.mem_filter.1 hrow).2
  simp [ofUser, hother]

theorem rowsOfOthers_remove (s : ApiState ι τ) (ids : List ι) :
    rowsOfOthers db userId (removeWebhooks db userId ids s) = rowsOfOthers db userId s := by
  simp only [rowsOfOthers, removeWebhooks, WebhookRecords.remove]
  split
  · rfl
  · rw [List.filter_filter]
    refine List.filter_congr fun row _ => ?_
    cases hrow : db.eq row.customerId userId with
    | true => simp
    | false => simp

theorem rowsOfOthers_insert (hdb : LawfulCollation db) {blockchains : List Blockchain}
    (s : ApiState ι τ) {row : τ → WebhookRecord ι τ}
    (hcustomer : ∀ now, (row now).customerId = userId) :
    rowsOfOthers db userId (insertWebhook db blockchains row s) = rowsOfOthers db userId s := by
  unfold insertWebhook
  split
  · have hmine : (!db.eq (row s.now).customerId userId) = false := by
      rw [hcustomer, hdb.refl userId]
      rfl
    exact List.filter_cons_of_neg (by simp [hmine])
  · rfl

/-- All statements of a call. -/
theorem statements_write (hdb : LawfulCollation db) {isUrl : String → Bool}
    {blockchains : List Blockchain} {call : ApiCall ι}
    (hcaller : caller verify call = some userId) :
    CallStatements db isUrl blockchains (fun _ : ApiState ι τ => True) Eq (Writes db verify call)
      userId call := by
  have hmay : Subscribed call → MayWrite verify call userId := by
    rintro ⟨stripeSub, hsub⟩
    have hauth : authenticate verify call.authorization = .ok userId := by
      unfold caller at hcaller
      cases hcase : authenticate verify call.authorization with
      | error e => rw [hcase] at hcaller; cases hcaller
      | ok user => rw [hcase] at hcaller; cases hcaller; rfl
    obtain ⟨sess, hread, hsession⟩ := requireStripeSubscription_eq_ok.1 hsub
    exact ⟨authenticate_eq_ok.1 hauth, sess, stripeSub, hread, hsession⟩
  exact {
    id := fun _ => .inl rfl
    insertCustomer := fun s => by
      unfold insertCustomer
      split
      · exact .inl rfl
      · exact .inl rfl
    setClerkUser := fun _ => .inl rfl
    insertWebhook := fun hsub _ _ _ _ _ _ _ s =>
      .inr ⟨userId, hmay hsub, rowsOfOthers_insert hdb s fun _ => rfl⟩
    updateWebhook := fun hsub _ data _ _ s =>
      .inr ⟨userId, hmay hsub, rowsOfOthers_update s data.set (fun _ => rfl) fun _ => rfl⟩
    activateWebhooks := fun hsub _ s =>
      .inr ⟨userId, hmay hsub, rowsOfOthers_update s (fun row => { row with isActive := 1 })
        (fun _ => rfl) fun _ => rfl⟩
    removeWebhooks := fun hsub ids s => .inr ⟨userId, hmay hsub, rowsOfOthers_remove s ids⟩
    clerkUser := fun _ _ _ _ h => by rw [h]
    rows := fun _ _ _ _ h => by rw [h]
    inserts := fun _ _ _ _ _ _ _ h => by rw [h] }

end Statements

/-! ### Runs -/

section Runs

variable [DecidableEq κ] [LinearOrder ι] [ToString ι] [LinearOrder τ] {db : Collation}
  {verify : Text → JwtResult} {isUrl : String → Bool} {blockchains : List Blockchain}
  {calls : κ → ApiCall ι} {s₀ : ApiState ι τ} {as : List (PoolAction κ (ApiEvent τ))}
  {p p' : Pool κ (ApiState ι τ) (Except GraphQLError (ApiResult ι τ))}

/-- An action that changes the table is that of a call that may write, and the rows of all other
    users stay as they are. -/
theorem writes_authorized (hdb : LawfulCollation db)
    (hrun : Transition.run (Pool.step ApiState.event)
      (apiPool db verify isUrl blockchains calls s₀) as = some p) {a : PoolAction κ (ApiEvent τ)}
    (hstep : Pool.step ApiState.event p a = some p')
    (hchange : p'.shared.webhooks.rows ≠ p.shared.webhooks.rows) :
    ∃ k userId, a = .step k ∧ MayWrite verify (calls k) userId ∧
      rowsOfOthers db userId p'.shared = rowsOfOthers db userId p.shared := by
  have halong : True ∧ ∀ k, (p.tasks k).Along (fun _ => True) Eq (Writes db verify (calls k)) :=
    Pool.along (fun _ _ _ _ _ => trivial) (fun _ _ _ => trivial) trivial
      (fun k => request_along fun _ hcaller => statements_write hdb hcaller) hrun
  obtain ⟨k, update, rest, rfl, htask, rfl⟩ | ⟨e, rfl, rfl⟩ := Pool.step_cases hstep
  · have hk := halong.2 k
    rw [htask] at hk
    cases hk with
    | next hupdate _ _ =>
      rcases hupdate p.shared with hsame | ⟨userId, hmay, hothers⟩
      · exact absurd hsame hchange
      · exact ⟨k, userId, rfl, hmay, hothers⟩
  · cases e with
    | tick now => exact absurd rfl hchange
    | expire userId => exact absurd rfl hchange

end Runs

/-- The third operation of the first of two calls is its INSERT. -/
theorem writes_authorized_create : ∃ p p' k userId,
    Transition.run (Pool.step ApiState.event) twoUsersPool [.step true, .step false, .step true] =
      some p ∧
    Pool.step ApiState.event p (.step true) = some p' ∧
    MayWrite (fun token => .payload (some (String.ofList token))) (twoUsers k) userId := by
  have hrun : (Transition.run (Pool.step ApiState.event) twoUsersPool
      [.step true, .step false, .step true]).any (fun p =>
        (Pool.step ApiState.event p (.step true)).any fun p' =>
          p.shared.webhooks.rows.length = 0 ∧ p'.shared.webhooks.rows.length = 1) = true := rfl
  obtain ⟨p, hp, hnext⟩ := (Option.any_eq_true ..).1 hrun
  obtain ⟨p', hp', hlength⟩ := (Option.any_eq_true ..).1 hnext
  obtain ⟨hbefore, hafter⟩ := of_decide_eq_true hlength
  have hchange : p'.shared.webhooks.rows ≠ p.shared.webhooks.rows := by
    intro heq
    rw [heq, hbefore] at hafter
    cases hafter
  obtain ⟨k, userId, -, hmay, -⟩ :=
    writes_authorized ⟨by simp, by simp, by simp⟩ hp hp' hchange
  exact ⟨p, p', k, userId, hp, hp', hmay⟩

end BlockFeed.Spec
