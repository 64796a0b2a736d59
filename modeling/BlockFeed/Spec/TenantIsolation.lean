import BlockFeed.Spec.RequestSteps

/-!
# Users of the API do not see each other

Whatever the calls of all users do at the same time, the calls of one user have the results that
they would have if nobody else used the API, and the user's rows are the same.

A user is whoever MySQL takes for the same: its texts are compared by a `Collation`, which may
ignore more than the authentication does.

The main result is `tenant_isolated`.
-/

namespace BlockFeed.Spec

open Native Native.ApiState

variable {κ ι τ : Type}

/-! ### What a user sees -/

/-- A row whose ID a call draws is of the user of that call. -/
def Owned (verify : Text → JwtResult) (calls : κ → ApiCall ι) (s : ApiState ι τ) : Prop :=
  ∀ row ∈ s.webhooks.rows, ∀ k, row.id = (calls k).uuid →
    caller verify (calls k) = some row.customerId

/-- The user `me` sees the same in both states. -/
structure SameTenant (db : Collation) (me : String) (s t : ApiState ι τ) : Prop where
  customers : s.customers.filter (fun id => db.eq id me) =
    t.customers.filter fun id => db.eq id me
  clerkUser : ∀ userId, db.eq userId me = true → s.clerkUser userId = t.clerkUser userId
  rows : s.webhooks.rows.filter (fun row => db.eq row.customerId me) =
    t.webhooks.rows.filter fun row => db.eq row.customerId me
  now : s.now = t.now

theorem SameTenant.rfl {db : Collation} {me : String} {s : ApiState ι τ} : SameTenant db me s s :=
  ⟨.refl _, fun _ _ => .refl _, .refl _, .refl _⟩

theorem SameTenant.trans {db : Collation} {me : String} {s t u : ApiState ι τ}
    (h : SameTenant db me s t) (h' : SameTenant db me t u) : SameTenant db me s u :=
  ⟨h.customers.trans h'.customers,
    fun userId hme => (h.clerkUser userId hme).trans (h'.clerkUser userId hme),
    h.rows.trans h'.rows, h.now.trans h'.now⟩

section Owned

variable [DecidableEq ι] {db : Collation} {verify : Text → JwtResult}
  {blockchains : List Blockchain} {calls : κ → ApiCall ι} {s : ApiState ι τ} {k : κ}
  {userId : String}

omit [DecidableEq ι] in
theorem Owned.insertCustomer (h : Owned verify calls s) :
    Owned verify calls (s.insertCustomer db userId) := by
  unfold ApiState.insertCustomer
  split
  · exact h
  · exact h

theorem Owned.insertWebhook (huuid : Function.Injective fun k => (calls k).uuid)
    (hcaller : caller verify (calls k) = some userId) {row : τ → WebhookRecord ι τ}
    (hid : ∀ now, (row now).id = (calls k).uuid) (huser : ∀ now, (row now).customerId = userId)
    (h : Owned verify calls s) : Owned verify calls (s.insertWebhook db blockchains row) := by
  unfold ApiState.insertWebhook
  split
  · intro r hr k' hk'
    rcases List.mem_cons.1 hr with rfl | hr
    · have hsame : k = k' := huuid ((hid s.now).symm.trans hk')
      rw [← hsame, hcaller, huser]
    · exact h r hr k' hk'
  · exact h

theorem Owned.update {ids : List ι} (set : WebhookRecord ι τ → WebhookRecord ι τ)
    (hset : ∀ row, (set row).id = row.id) (huser : ∀ row, (set row).customerId = row.customerId)
    (h : Owned verify calls s) : Owned verify calls
      { s with webhooks := s.webhooks.update (ofUser db userId ids) set hset } := by
  intro r hr k' hk'
  obtain ⟨row, hrow, rfl⟩ := List.mem_map.1 hr
  by_cases hp : ofUser db userId ids row = true
  · rw [if_pos hp] at hk' ⊢
    rw [huser]
    exact h row hrow k' ((hset row).symm.trans hk')
  · rw [if_neg hp] at hk' ⊢
    exact h row hrow k' hk'

theorem Owned.remove {ids : List ι} (h : Owned verify calls s) : Owned verify calls
    { s with webhooks := s.webhooks.remove db userId ids } :=
  fun r hr => h r (WebhookRecords.mem_of_mem_remove hr)

end Owned

section Tenants

variable [DecidableEq ι] {db : Collation} {verify : Text → JwtResult}
  {blockchains : List Blockchain} {calls : κ → ApiCall ι} {me userId : String} {s t : ApiState ι τ}

/-! #### Statements of the user -/

section Mine

variable (hdb : LawfulCollation db) (hme : db.eq userId me = true)

include hdb hme

omit [DecidableEq ι] in
/-- The customer of a user of this tenant. -/
private theorem any_customer (h : SameTenant db me s t) :
    (s.customers.any fun id => db.eq id userId) = t.customers.any fun id => db.eq id userId := by
  have hclass : ∀ l : List String, (l.any fun id => db.eq id userId) =
      (l.filter fun id => db.eq id me).any fun id => db.eq id userId := by
    intro l
    rw [List.any_filter]
    refine congrArg l.any (funext fun id => ?_)
    cases hid : db.eq id userId with
    | true => simp [hdb.trans hid hme]
    | false => simp
  rw [hclass, h.customers, ← hclass]

omit [DecidableEq ι] in
/-- The rows of a user of this tenant. -/
private theorem rows_eq (h : SameTenant db me s t) :
    s.webhooks.rows.filter (fun row => db.eq row.customerId userId) =
      t.webhooks.rows.filter fun row => db.eq row.customerId userId :=
  filter_eq h.rows fun _ hrow => hdb.trans hrow hme

omit [DecidableEq ι] in
private theorem SameTenant.insertCustomer (h : SameTenant db me s t) :
    SameTenant db me (s.insertCustomer db userId) (t.insertCustomer db userId) := by
  unfold ApiState.insertCustomer
  rw [any_customer hdb hme h]
  split
  · exact h
  · refine ⟨?_, h.clerkUser, h.rows, h.now⟩
    simp only [List.filter_cons, hme, h.customers]

omit [DecidableEq ι] hdb hme in
private theorem SameTenant.setClerkUser (h : SameTenant db me s t) :
    SameTenant db me (s.setClerkUser userId) (t.setClerkUser userId) := by
  refine ⟨h.customers, fun u hu => ?_, h.rows, h.now⟩
  simp only [ApiState.setClerkUser, Function.update_apply, h.clerkUser u hu]

omit [DecidableEq ι] in
/-- An INSERT has the same result. -/
private theorem SameTenant.inserts_iff (h : SameTenant db me s t) {k : κ}
    (hcaller : caller verify (calls k) = some userId) {row : τ → WebhookRecord ι τ}
    (hid : ∀ now, (row now).id = (calls k).uuid) (huser : ∀ now, (row now).customerId = userId)
    (hs : Owned verify calls s) (ht : Owned verify calls t) :
    s.Inserts db blockchains (row s.now) ↔ t.Inserts db blockchains (row t.now) := by
  -- a row with this ID would be the user's
  have hids : ∀ u : ApiState ι τ, Owned verify calls u →
      ((row t.now).id ∈ u.webhooks.rows.map WebhookRecord.id ↔ (row t.now).id ∈
        (u.webhooks.rows.filter fun r => db.eq r.customerId me).map WebhookRecord.id) := by
    intro u hu
    simp only [List.mem_map, List.mem_filter]
    refine exists_congr fun r =>
      ⟨fun ⟨hr, hrid⟩ => ⟨⟨hr, ?_⟩, hrid⟩, fun ⟨⟨hr, _⟩, hrid⟩ => ⟨hr, hrid⟩⟩
    have hcustomer := hu r hr k (hrid.trans (hid _))
    rw [hcaller, Option.some.injEq] at hcustomer
    rwa [← hcustomer]
  have hany := any_customer hdb hme h
  rw [Bool.eq_iff_iff] at hany
  simp only [List.any_eq_true] at hany
  unfold ApiState.Inserts
  rw [h.now, hids s hs, hids t ht, h.rows, huser, hany]

private theorem SameTenant.insertWebhook (h : SameTenant db me s t) {k : κ}
    (hcaller : caller verify (calls k) = some userId) {row : τ → WebhookRecord ι τ}
    (hid : ∀ now, (row now).id = (calls k).uuid) (huser : ∀ now, (row now).customerId = userId)
    (hs : Owned verify calls s) (ht : Owned verify calls t) :
    SameTenant db me (s.insertWebhook db blockchains row) (t.insertWebhook db blockchains row) := by
  have hiff : s.Inserts db blockchains (row s.now) ↔ t.Inserts db blockchains (row t.now) :=
    h.inserts_iff hdb hme hcaller hid huser hs ht
  unfold ApiState.insertWebhook
  by_cases hins : t.Inserts db blockchains (row t.now)
  · rw [dif_pos (hiff.2 hins), dif_pos hins]
    refine ⟨h.customers, h.clerkUser, ?_, h.now⟩
    simp only [WebhookRecords.insert, List.filter_cons, h.rows, h.now]
  · rw [dif_neg (mt hiff.1 hins), dif_neg hins]
    exact h

omit hdb hme in
private theorem SameTenant.update (h : SameTenant db me s t) {ids : List ι}
    (set : WebhookRecord ι τ → WebhookRecord ι τ) (hset : ∀ row, (set row).id = row.id)
    (huser : ∀ row, (set row).customerId = row.customerId) : SameTenant db me
      { s with webhooks := s.webhooks.update (ofUser db userId ids) set hset }
      { t with webhooks := t.webhooks.update (ofUser db userId ids) set hset } := by
  have hcustomer : ∀ row : WebhookRecord ι τ,
      (if ofUser db userId ids row then set row else row).customerId = row.customerId := by
    intro row
    split
    · exact huser row
    · rfl
  refine ⟨h.customers, h.clerkUser, ?_, h.now⟩
  simp only [WebhookRecords.update, List.filter_map, Function.comp_def, hcustomer, h.rows]

omit hdb hme in
private theorem SameTenant.remove (h : SameTenant db me s t) {ids : List ι} : SameTenant db me
    { s with webhooks := s.webhooks.remove db userId ids }
    { t with webhooks := t.webhooks.remove db userId ids } := by
  refine ⟨h.customers, h.clerkUser, ?_, h.now⟩
  simp only [WebhookRecords.remove]
  split
  · exact h.rows
  · rw [List.filter_comm, h.rows, List.filter_comm]

end Mine

/-! #### Statements of another -/

section Others

variable (hdb : LawfulCollation db) (hme : db.eq userId me = false)

include hme

omit [DecidableEq ι] in
private theorem insertCustomer_unseen : SameTenant db me (s.insertCustomer db userId) s := by
  unfold ApiState.insertCustomer
  split
  · exact .rfl
  · refine ⟨?_, fun _ _ => rfl, rfl, rfl⟩
    simp only [List.filter_cons, hme, Bool.false_eq_true, if_false]

omit [DecidableEq ι] in
private theorem setClerkUser_unseen : SameTenant db me (s.setClerkUser userId) s := by
  refine ⟨rfl, fun u hu => ?_, rfl, rfl⟩
  have hne : u ≠ userId := by
    rintro rfl
    simp [hme] at hu
  simp only [ApiState.setClerkUser, Function.update_of_ne hne]

private theorem insertWebhook_unseen {row : τ → WebhookRecord ι τ}
    (huser : ∀ now, (row now).customerId = userId) :
    SameTenant db me (s.insertWebhook db blockchains row) s := by
  unfold ApiState.insertWebhook
  split
  · refine ⟨rfl, fun _ _ => rfl, ?_, rfl⟩
    simp only [WebhookRecords.insert, List.filter_cons, huser, hme, Bool.false_eq_true, if_false]
  · exact .rfl

include hdb

/-- The statement does not find a row of `me`. -/
private theorem ofUser_eq_false {ids : List ι} {row : WebhookRecord ι τ}
    (hrow : db.eq row.customerId me = true) : ofUser db userId ids row = false := by
  cases huser : db.eq row.customerId userId with
  | true =>
    have hclass := hdb.trans (hdb.symm huser) hrow
    simp [hme] at hclass
  | false => simp [ofUser, huser]

private theorem update_unseen {ids : List ι} (set : WebhookRecord ι τ → WebhookRecord ι τ)
    (hset : ∀ row, (set row).id = row.id) (huser : ∀ row, (set row).customerId = row.customerId) :
    SameTenant db me
      { s with webhooks := s.webhooks.update (ofUser db userId ids) set hset } s := by
  refine ⟨rfl, fun _ _ => rfl, ?_, rfl⟩
  have hcustomer : ∀ row : WebhookRecord ι τ,
      (if ofUser db userId ids row then set row else row).customerId = row.customerId := by
    intro row
    split
    · exact huser row
    · rfl
  simp only [WebhookRecords.update, List.filter_map, Function.comp_def, hcustomer]
  refine (List.map_congr_left fun row hrow => ?_).trans (List.map_id _)
  rw [ofUser_eq_false hdb hme (List.mem_filter.1 hrow).2]
  rfl

private theorem remove_unseen {ids : List ι} : SameTenant db me
    { s with webhooks := s.webhooks.remove db userId ids } s := by
  refine ⟨rfl, fun _ _ => rfl, ?_, rfl⟩
  simp only [WebhookRecords.remove]
  split
  · rfl
  · rw [List.filter_filter]
    refine List.filter_congr fun row _ => ?_
    cases hrow : db.eq row.customerId me with
    | true =>
      have hnot : ofUser db userId ids row = false := ofUser_eq_false hdb hme hrow
      rw [ofUser] at hnot
      simp [hnot]
    | false => simp

end Others

/-! ### All statements -/

variable {isUrl : String → Bool} (hdb : LawfulCollation db)
  (huuid : Function.Injective fun k => (calls k).uuid) {k : κ}
  (hcaller : caller verify (calls k) = some userId)

include hdb huuid hcaller

theorem statements_own (hme : db.eq userId me = true) :
    CallStatements db isUrl blockchains (Owned verify calls : ApiState ι τ → Prop)
      (SameTenant db me) (Pool.Own (Owned verify calls) (SameTenant db me)) userId (calls k) where
  id := ⟨fun _ h => h, fun _ _ _ _ h => h⟩
  insertCustomer := ⟨fun _ h => h.insertCustomer, fun _ _ _ _ h => h.insertCustomer hdb hme⟩
  setClerkUser := ⟨fun _ h => h, fun _ _ _ _ h => h.setClerkUser⟩
  insertWebhook _ _ _ _ _ _ _ _ :=
    ⟨fun _ h => h.insertWebhook huuid hcaller (fun _ => rfl) fun _ => rfl,
      fun _ _ hs ht h => h.insertWebhook hdb hme hcaller (fun _ => rfl) (fun _ => rfl) hs ht⟩
  updateWebhook _ _ data _ _ :=
    ⟨fun _ h => h.update data.set (fun _ => rfl) fun _ => rfl,
      fun _ _ _ _ h => h.update data.set (fun _ => rfl) fun _ => rfl⟩
  activateWebhooks _ _ :=
    ⟨fun _ h => h.update (fun row => { row with isActive := 1 }) (fun _ => rfl) fun _ => rfl,
      fun _ _ _ _ h =>
        h.update (fun row => { row with isActive := 1 }) (fun _ => rfl) fun _ => rfl⟩
  removeWebhooks _ _ := ⟨fun _ h => h.remove, fun _ _ _ _ h => h.remove⟩
  clerkUser _ _ _ _ h := h.clerkUser userId hme
  rows _ _ _ _ h := rows_eq hdb hme h
  inserts _ hid huser _ _ hs ht h := h.inserts_iff hdb hme hcaller hid huser hs ht

theorem statements_other (hme : db.eq userId me = false) :
    CallStatements db isUrl blockchains (Owned verify calls : ApiState ι τ → Prop) Eq
      (Pool.Unseen (Owned verify calls) (SameTenant db me)) userId (calls k) where
  id := ⟨fun _ h => h, fun _ _ _ _ h => h⟩
  insertCustomer :=
    ⟨fun _ h => h.insertCustomer, fun _ _ _ _ h => (insertCustomer_unseen hme).trans h⟩
  setClerkUser := ⟨fun _ h => h, fun _ _ _ _ h => (setClerkUser_unseen hme).trans h⟩
  insertWebhook _ _ _ _ _ _ _ _ :=
    ⟨fun _ h => h.insertWebhook huuid hcaller (fun _ => rfl) fun _ => rfl,
      fun _ _ _ _ h => (insertWebhook_unseen hme fun _ => rfl).trans h⟩
  updateWebhook _ _ data _ _ :=
    ⟨fun _ h => h.update data.set (fun _ => rfl) fun _ => rfl,
      fun _ _ _ _ h => (update_unseen hdb hme data.set (fun _ => rfl) fun _ => rfl).trans h⟩
  activateWebhooks _ _ :=
    ⟨fun _ h => h.update (fun row => { row with isActive := 1 }) (fun _ => rfl) fun _ => rfl,
      fun _ _ _ _ h => (update_unseen hdb hme (fun row => { row with isActive := 1 })
        (fun _ => rfl) fun _ => rfl).trans h⟩
  removeWebhooks _ _ := ⟨fun _ h => h.remove, fun _ _ _ _ h => (remove_unseen hdb hme).trans h⟩
  clerkUser _ _ _ _ h := by rw [h]
  rows _ _ _ _ h := by rw [h]
  inserts _ _ _ _ _ _ _ h := by rw [h]

end Tenants

/-! ### Runs -/

/-- A call of the user `me`. -/
def ofTenant (db : Collation) (verify : Text → JwtResult) (calls : κ → ApiCall ι) (me : String)
    (k : κ) : Bool := (caller verify (calls k)).any fun userId => db.eq userId me

/-- An event that `me` sees: time passes for all, and cache entries are each user's own. -/
def tenantEvent (db : Collation) (me : String) : ApiEvent τ → Bool
  | .tick _ => true
  | .expire userId => db.eq userId me

section Runs

variable {db : Collation} {verify : Text → JwtResult} {calls : κ → ApiCall ι}

private theorem event_own {me : String} {e : ApiEvent τ} (he : tenantEvent db me e = true) :
    Pool.Own (Owned verify calls) (SameTenant db me) (ApiState.event e : ApiState ι τ → _) := by
  cases e with
  | tick now => exact ⟨fun _ h => h, fun _ _ _ _ h => ⟨h.customers, h.clerkUser, h.rows, rfl⟩⟩
  | expire userId =>
    refine ⟨fun _ h => h, fun _ _ _ _ h => ⟨h.customers, fun u hu => ?_, h.rows, h.now⟩⟩
    simp only [ApiState.event, Function.update_apply, h.clerkUser u hu]

private theorem event_unseen {me : String} {e : ApiEvent τ} (he : tenantEvent db me e = false) :
    Pool.Unseen (Owned verify calls) (SameTenant db me) (ApiState.event e : ApiState ι τ → _) := by
  cases e with
  | tick now => cases he
  | expire userId =>
    refine ⟨fun _ h => h, fun _ _ _ _ h => ⟨h.customers, fun u hu => ?_, h.rows, h.now⟩⟩
    have hne : u ≠ userId := by
      rintro rfl
      rw [tenantEvent, hu] at he
      cases he
    simp only [ApiState.event, Function.update_of_ne hne, h.clerkUser u hu]

variable [DecidableEq κ] [LinearOrder ι] [ToString ι] [LinearOrder τ] {isUrl : String → Bool}
  {blockchains : List Blockchain}

/-- For every run of the calls of all users there is one with only those of `me`, on a database
    with only the rows of `me`, in which they return the same and the rows of `me` are the same. -/
theorem tenant_isolated (hdb : LawfulCollation db)
    (huuid : Function.Injective fun k => (calls k).uuid) (me : String) {s₀ t₀ : ApiState ι τ}
    (hs₀ : ∀ row ∈ s₀.webhooks.rows, ∀ k, row.id ≠ (calls k).uuid)
    (ht₀ : ∀ row ∈ t₀.webhooks.rows, ∀ k, row.id ≠ (calls k).uuid)
    (hsame : SameTenant db me s₀ t₀) {as : List (PoolAction κ (ApiEvent τ))}
    {p : Pool κ (ApiState ι τ) (Except GraphQLError (ApiResult ι τ))}
    (hrun : Transition.run (Pool.step ApiState.event)
      (apiPool db verify isUrl blockchains calls s₀) as = some p) :
    ∃ q, Transition.run (Pool.step ApiState.event)
        (apiPool db verify isUrl blockchains calls t₀)
        (as.filter (Pool.ofOwner (ofTenant db verify calls me) (tenantEvent db me))) = some q ∧
      (∀ k, ofTenant db verify calls me k = true → q.tasks k = p.tasks k) ∧
      SameTenant db me p.shared q.shared := by
  have halike : Pool.Alike (Owned verify calls) (SameTenant db me) (ofTenant db verify calls me)
      (apiPool db verify isUrl blockchains calls s₀)
      (apiPool db verify isUrl blockchains calls t₀) := by
    refine ⟨fun row hrow k hk => absurd hk (hs₀ row hrow k),
      fun row hrow k hk => absurd hk (ht₀ row hrow k), hsame, fun _ _ => rfl, fun k hk => ?_,
      fun k hk => ?_⟩
    · refine request_along fun userId hcaller => statements_own hdb huuid hcaller ?_
      simpa [ofTenant, hcaller] using hk
    · refine request_along fun userId hcaller => statements_other hdb huuid hcaller ?_
      simpa [ofTenant, hcaller] using hk
  obtain ⟨q, hq, hend⟩ := Pool.isolated (fun _ => event_own) (fun _ => event_unseen) halike hrun
  exact ⟨q, hq, hend.tasks, hend.shared⟩

end Runs

/-- Two users: one creates a webhook, and the other tries to remove it. -/
def twoUsers : Bool → ApiCall Nat
  | true => ⟨some "bearer u".toList, .webhookCreate ⟨"http://u", 1, 0, 5, "flow"⟩ 3, "",
      .session ⟨"", some .complete, some ⟨"", false⟩, some ⟨.active, ""⟩⟩, 1⟩
  | false => ⟨some "bearer v".toList, .webhookRemove [1], "",
      .session ⟨"", some .complete, some ⟨"", false⟩, some ⟨.active, ""⟩⟩, 2⟩

/-- Both calls at their start, on an empty database. -/
def twoUsersPool : Pool Bool (ApiState Nat Nat) (Except GraphQLError (ApiResult Nat Nat)) :=
  apiPool ⟨fun a b => a == b, fun _ _ => false⟩
    (fun token => .payload (some (String.ofList token))) (fun _ => true) [⟨"flow", 2, ""⟩]
    twoUsers (.empty 0)

theorem tenant_isolated_remove : ∃ p q,
    Transition.run (Pool.step ApiState.event) twoUsersPool
      [.step true, .step false, .step true, .step false, .step true, .step false] = some p ∧
    Transition.run (Pool.step ApiState.event) twoUsersPool
      [.step true, .step true, .step true] = some q ∧ q.tasks true = p.tasks true := by
  have hrun : (Transition.run (Pool.step ApiState.event) twoUsersPool
      [.step true, .step false, .step true, .step false, .step true, .step false]).isSome =
        true := rfl
  obtain ⟨p, hp⟩ := Option.isSome_iff_exists.1 hrun
  have huuid : Function.Injective fun k => (twoUsers k).uuid := by
    intro a b h
    cases a <;> cases b <;> simp [twoUsers] at h ⊢
  obtain ⟨q, hq, htasks, -⟩ := tenant_isolated ⟨by simp, by simp, by simp⟩ huuid "u"
    (by simp) (by simp) .rfl hp
  exact ⟨p, q, hp, hq, htasks true rfl⟩

end BlockFeed.Spec
