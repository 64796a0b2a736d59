import BlockFeed.Spec.RequestSteps
import Mathlib.Data.List.Pairwise

/-!
# What the tables of the API always satisfy

Whatever the calls of all users do at the same time, every webhook is within the limits, has a
shard of its blockchain and a customer, and is still as it was created up to what an update may
change (`tables_ok`). A call that creates a webhook does not fail in the database: what it returns
depends on the call alone (`create_returns`).

`requireAuth` does not ask for the customer of a user that is cached. This is right because a user
is cached only by a call that has passed `requireAuth` before, and customers are never removed.
-/

namespace BlockFeed.Spec

open Native Native.ApiState

variable {κ ι τ : Type}

/-! ### The invariant -/

/-- A row is within the limits. -/
structure RowOk (db : Collation) (isUrl : String → Bool) (blockchains : List Blockchain)
    (row : WebhookRecord ι τ) : Prop where
  isActive : row.isActive = 0 ∨ row.isActive = 1
  url : isUrl row.url = true ∧ limits.urlLen.admits (textLength row.url) = true
  maxBlocks : limits.maxBlocks.admits row.maxBlocks = true
  maxRetries : limits.maxRetries.admits row.maxRetries = true
  timeoutMs : limits.timeoutMs.admits row.timeoutMs = true
  shardId : ∃ blockchain,
    blockchains.find? (fun blockchain => db.eq blockchain.id row.blockchainId) = some blockchain ∧
      0 ≤ row.shardId ∧ row.shardId < blockchain.shardCount

/-- The user has a row in `customer`. -/
def HasCustomer (db : Collation) (userId : String) (s : ApiState ι τ) : Prop :=
  ∃ id ∈ s.customers, db.eq id userId = true

/-- The tables and the cache fit together. -/
structure TablesOk (db : Collation) (isUrl : String → Bool) (blockchains : List Blockchain)
    (s : ApiState ι τ) : Prop where
  rows : ∀ row ∈ s.webhooks.rows, RowOk db isUrl blockchains row
  customer : ∀ row ∈ s.webhooks.rows, HasCustomer db row.customerId s
  cached : ∀ userId, s.clerkUser userId = true → HasCustomer db userId s
  unique : s.customers.Pairwise fun a b => db.eq a b = false

/-- A row is as the call that drew its ID has created it, up to what an update may change. -/
structure CreatedBy (db : Collation) (verify : Text → JwtResult) (blockchains : List Blockchain)
    (call : ApiCall ι) (row : WebhookRecord ι τ) : Prop where
  customerId : caller verify call = some row.customerId
  data : ∃ data draw blockchain, call.field = .webhookCreate data draw ∧
    row.blockchainId = data.blockchainId ∧
    blockchains.find? (fun blockchain => db.eq blockchain.id data.blockchainId) =
      some blockchain ∧ row.shardId = (draw : Int) % blockchain.shardCount

def Created (db : Collation) (verify : Text → JwtResult) (blockchains : List Blockchain)
    (calls : κ → ApiCall ι) (s : ApiState ι τ) : Prop :=
  ∀ row ∈ s.webhooks.rows, ∀ k, row.id = (calls k).uuid →
    CreatedBy db verify blockchains (calls k) row

/-- What a call does to the tables: customers stay, and no ID is new but its own. -/
structure OwnId (uuid : ι) (s s' : ApiState ι τ) : Prop where
  customers : ∀ id ∈ s.customers, id ∈ s'.customers
  ids : ∀ row ∈ s'.webhooks.rows, row.id ∈ s.webhooks.rows.map WebhookRecord.id ∨ row.id = uuid

/-- What a call relies on: customers stay, and no other call makes a row with its ID. -/
structure OtherIds (uuid : ι) (s s' : ApiState ι τ) : Prop where
  customers : ∀ id ∈ s.customers, id ∈ s'.customers
  fresh : (∀ row ∈ s.webhooks.rows, row.id ≠ uuid) → ∀ row ∈ s'.webhooks.rows, row.id ≠ uuid

theorem HasCustomer.later {db : Collation} {userId : String} {s s' : ApiState ι τ}
    (h : HasCustomer db userId s) (hs : ∀ id ∈ s.customers, id ∈ s'.customers) :
    HasCustomer db userId s' := by
  obtain ⟨id, hid, heq⟩ := h
  exact ⟨id, hs id hid, heq⟩

theorem OwnId.refl (uuid : ι) (s : ApiState ι τ) : OwnId uuid s s :=
  ⟨fun _ h => h, fun _ h => .inl (List.mem_map_of_mem h)⟩

/-- A call does to another what that relies on. -/
theorem OwnId.otherIds {uuid uuid' : ι} {s s' : ApiState ι τ} (h : OwnId uuid s s')
    (hne : uuid' ≠ uuid) : OtherIds uuid' s s' := by
  refine ⟨h.customers, fun hfresh row hrow heq => ?_⟩
  rcases h.ids row hrow with hold | hnew
  · obtain ⟨r, hr, hid⟩ := List.mem_map.1 hold
    exact hfresh r hr (hid.trans heq)
  · exact hne (heq.symm.trans hnew)

/-! ### One statement -/

section Statements

variable {db : Collation} {verify : Text → JwtResult} {isUrl : String → Bool}
  {blockchains : List Blockchain} {calls : κ → ApiCall ι} {s : ApiState ι τ} {userId : String}

/-- A new row is within the limits. -/
theorem rowOk_create {data : CreateInput} (hvalid : data.valid isUrl = true)
    {blockchain : Blockchain}
    (hfind : blockchains.find? (fun blockchain => db.eq blockchain.id data.blockchainId) =
      some blockchain) (hshards : 0 < blockchain.shardCount) (uuid : ι) (createdAt : τ)
    (draw : Nat) : RowOk db isUrl blockchains
      (data.row uuid createdAt userId ((draw : Int) % blockchain.shardCount)) := by
  simp only [CreateInput.valid, Bool.and_eq_true] at hvalid
  obtain ⟨⟨⟨⟨⟨hurl, hlen⟩, hblocks⟩, hretries⟩, htimeout⟩, -⟩ := hvalid
  refine ⟨.inl rfl, ⟨hurl, hlen⟩, hblocks, hretries, htimeout, blockchain, hfind, ?_, ?_⟩
  · exact Int.emod_nonneg _ hshards.ne'
  · exact Int.emod_lt_of_pos _ hshards

/-- A value that is set or left as it was. -/
private theorem admits_getD {p : Int → Bool} {x : Nullish Int} {old : Int}
    (hx : x.notNull.all p = true) (hold : p old = true) : p (x.notNull.getD old) = true := by
  cases hcase : x.notNull with
  | none => exact hold
  | some new =>
    rw [hcase] at hx
    exact hx

/-- An update leaves a row within the limits. -/
theorem RowOk.set {row : WebhookRecord ι τ} (h : RowOk db isUrl blockchains row)
    {data : UpdateInput} (hvalid : data.valid isUrl = true) :
    RowOk db isUrl blockchains (data.set row) := by
  simp only [UpdateInput.valid, Bool.and_eq_true] at hvalid
  obtain ⟨⟨⟨hurl, hblocks⟩, hretries⟩, htimeout⟩ := hvalid
  refine ⟨h.isActive, ?_, admits_getD hblocks h.maxBlocks, admits_getD hretries h.maxRetries,
    admits_getD htimeout h.timeoutMs, h.shardId⟩
  show isUrl (data.url.notNull.getD row.url) = true ∧
    limits.urlLen.admits (textLength (data.url.notNull.getD row.url)) = true
  cases hcase : data.url.notNull with
  | none => exact h.url
  | some url =>
    rw [hcase] at hurl
    exact Bool.and_eq_true_iff.1 hurl

/-- Both invariants. -/
def ApiInv (db : Collation) (verify : Text → JwtResult) (isUrl : String → Bool)
    (blockchains : List Blockchain) (calls : κ → ApiCall ι) (s : ApiState ι τ) : Prop :=
  TablesOk db isUrl blockchains s ∧ Created db verify blockchains calls s

section Updates

variable {call : ApiCall ι}

/-- A customer is only added. -/
theorem insertCustomer_customers {id : String} (h : id ∈ s.customers) :
    id ∈ (insertCustomer db userId s).customers := by
  unfold insertCustomer
  split
  · exact h
  · exact List.mem_cons_of_mem _ h

@[simp] theorem insertCustomer_webhooks :
    (insertCustomer db userId s).webhooks = s.webhooks := by
  unfold insertCustomer
  split
  · rfl
  · rfl

@[simp] theorem insertCustomer_clerkUser :
    (insertCustomer db userId s).clerkUser = s.clerkUser := by
  unfold insertCustomer
  split
  · rfl
  · rfl

/-- Afterwards the user has a row. -/
theorem hasCustomer_insertCustomer (hdb : LawfulCollation db) :
    HasCustomer db userId (insertCustomer db userId s) := by
  unfold insertCustomer
  split
  · next h =>
    obtain ⟨id, hid, heq⟩ := List.any_eq_true.1 h
    exact ⟨id, hid, heq⟩
  · exact ⟨userId, List.mem_cons_self, hdb.refl userId⟩

theorem ApiInv.insertCustomer (hdb : LawfulCollation db)
    (h : ApiInv db verify isUrl blockchains calls s) :
    ApiInv db verify isUrl blockchains calls (insertCustomer db userId s) := by
  refine ⟨⟨?_, ?_, ?_, ?_⟩, ?_⟩
  · simpa using h.1.rows
  · intro row hrow
    rw [insertCustomer_webhooks] at hrow
    exact (h.1.customer row hrow).later fun _ => insertCustomer_customers
  · intro u hu
    rw [insertCustomer_clerkUser] at hu
    exact (h.1.cached u hu).later fun _ => insertCustomer_customers
  · unfold ApiState.insertCustomer
    split
    · exact h.1.unique
    · next hnone =>
      -- the new customer is none of the others
      refine List.pairwise_cons.2 ⟨fun id hid => ?_, h.1.unique⟩
      cases heq : db.eq userId id with
      | true =>
        refine absurd ?_ hnone
        exact List.any_eq_true.2 ⟨id, hid, hdb.symm heq⟩
      | false => rfl
  · simpa [Created] using h.2

theorem ApiInv.setClerkUser (h : ApiInv db verify isUrl blockchains calls s)
    (huser : HasCustomer db userId s) :
    ApiInv db verify isUrl blockchains calls (setClerkUser userId s) := by
  refine ⟨⟨h.1.rows, h.1.customer, fun u hu => ?_, h.1.unique⟩, h.2⟩
  by_cases hsame : u = userId
  · exact hsame ▸ huser
  · simp only [ApiState.setClerkUser, Function.update_of_ne hsame] at hu
    exact h.1.cached u hu

/-- A statement on the rows that keeps their IDs, their customers, their blockchains and their
    shards. -/
theorem ApiInv.update (h : ApiInv db verify isUrl blockchains calls s)
    {p : WebhookRecord ι τ → Bool} (set : WebhookRecord ι τ → WebhookRecord ι τ)
    (hset : ∀ row, (set row).id = row.id)
    (hok : ∀ row, RowOk db isUrl blockchains row → RowOk db isUrl blockchains (set row))
    (hcustomer : ∀ row, (set row).customerId = row.customerId)
    (hchain : ∀ row, (set row).blockchainId = row.blockchainId)
    (hshard : ∀ row, (set row).shardId = row.shardId) :
    ApiInv db verify isUrl blockchains calls
      { s with webhooks := s.webhooks.update p set hset } := by
  have hrows : ∀ row ∈ (s.webhooks.update p set hset).rows, ∃ old ∈ s.webhooks.rows,
      row = old ∨ row = set old := by
    intro row hrow
    obtain ⟨old, hold, rfl⟩ := List.mem_map.1 hrow
    refine ⟨old, hold, ?_⟩
    split
    · exact .inr rfl
    · exact .inl rfl
  refine ⟨⟨fun row hrow => ?_, fun row hrow => ?_, h.1.cached, h.1.unique⟩,
    fun row hrow k hk => ?_⟩
  · obtain ⟨old, hold, rfl | rfl⟩ := hrows row hrow
    · exact h.1.rows _ hold
    · exact hok old (h.1.rows old hold)
  · obtain ⟨old, hold, rfl | rfl⟩ := hrows row hrow
    · exact h.1.customer _ hold
    · rw [hcustomer]
      exact h.1.customer old hold
  · obtain ⟨old, hold, rfl | rfl⟩ := hrows row hrow
    · exact h.2 _ hold k hk
    · have hcreated := h.2 old hold k ((hset old).symm.trans hk)
      exact ⟨by rw [hcustomer]; exact hcreated.customerId,
        by rw [hchain, hshard]; exact hcreated.data⟩

theorem ApiInv.removeWebhooks [DecidableEq ι] (h : ApiInv db verify isUrl blockchains calls s)
    (ids : List ι) :
    ApiInv db verify isUrl blockchains calls (removeWebhooks db userId ids s) := by
  have hrows : ∀ row ∈ (s.webhooks.remove db userId ids).rows, row ∈ s.webhooks.rows :=
    fun row hrow => WebhookRecords.mem_of_mem_remove hrow
  exact ⟨⟨fun row hrow => h.1.rows row (hrows row hrow),
    fun row hrow => h.1.customer row (hrows row hrow), h.1.cached, h.1.unique⟩,
    fun row hrow => h.2 row (hrows row hrow)⟩

theorem ApiInv.insertWebhook [DecidableEq ι] (h : ApiInv db verify isUrl blockchains calls s)
    (huuid : Function.Injective fun k => (calls k).uuid) {k : κ}
    {row : τ → WebhookRecord ι τ} (hid : ∀ now, (row now).id = (calls k).uuid)
    (hok : ∀ now, RowOk db isUrl blockchains (row now))
    (hcreated : ∀ now, CreatedBy db verify blockchains (calls k) (row now)) :
    ApiInv db verify isUrl blockchains calls (insertWebhook db blockchains row s) := by
  unfold ApiState.insertWebhook
  split
  · next hins =>
    refine ⟨⟨fun r hr => ?_, fun r hr => ?_, h.1.cached, h.1.unique⟩, fun r hr k' hk' => ?_⟩
    · rcases List.mem_cons.1 hr with rfl | hr
      · exact hok s.now
      · exact h.1.rows r hr
    · rcases List.mem_cons.1 hr with rfl | hr
      · exact hins.2.1
      · exact h.1.customer r hr
    · rcases List.mem_cons.1 hr with rfl | hr
      · have hsame : k = k' := huuid ((hid s.now).symm.trans hk')
        exact hsame ▸ hcreated s.now
      · exact h.2 r hr k' hk'
  · exact h

/-! #### IDs and customers -/

theorem ownId_insertCustomer {uuid : ι} : OwnId uuid s (insertCustomer db userId s) :=
  ⟨fun _ => insertCustomer_customers,
    fun row hrow => .inl (List.mem_map_of_mem (by simpa using hrow))⟩

theorem ownId_update {uuid : ι} {p : WebhookRecord ι τ → Bool}
    (set : WebhookRecord ι τ → WebhookRecord ι τ) (hset : ∀ row, (set row).id = row.id) :
    OwnId uuid s { s with webhooks := s.webhooks.update p set hset } := by
  refine ⟨fun _ h => h, fun row hrow => .inl ?_⟩
  obtain ⟨old, hold, rfl⟩ := List.mem_map.1 hrow
  refine List.mem_map.2 ⟨old, hold, ?_⟩
  split
  · exact (hset old).symm
  · rfl

theorem ownId_removeWebhooks [DecidableEq ι] {uuid : ι} (ids : List ι) :
    OwnId uuid s (removeWebhooks db userId ids s) :=
  ⟨fun _ h => h, fun _ hrow => .inl (List.mem_map_of_mem (WebhookRecords.mem_of_mem_remove hrow))⟩

theorem ownId_insertWebhook [DecidableEq ι] {uuid : ι} {row : τ → WebhookRecord ι τ}
    (hid : ∀ now, (row now).id = uuid) : OwnId uuid s (insertWebhook db blockchains row s) := by
  unfold ApiState.insertWebhook
  split
  · refine ⟨fun _ h => h, fun r hr => ?_⟩
    rcases List.mem_cons.1 hr with rfl | hr
    · exact .inr (hid s.now)
    · exact .inl (List.mem_map_of_mem hr)
  · exact .refl _ _

end Updates

/-- All statements of a call whose user has a customer. -/
theorem statements_keep [DecidableEq ι] (hdb : LawfulCollation db)
    (huuid : Function.Injective fun k => (calls k).uuid) {k : κ}
    (hcaller : caller verify (calls k) = some userId) :
    CallStatements db isUrl blockchains
      (fun s : ApiState ι τ =>
        ApiInv db verify isUrl blockchains calls s ∧ HasCustomer db userId s) Eq
      (fun update => ∀ s, ApiInv db verify isUrl blockchains calls s → HasCustomer db userId s →
        ApiInv db verify isUrl blockchains calls (update s) ∧ HasCustomer db userId (update s) ∧
          OwnId (calls k).uuid s (update s))
      userId (calls k) where
  id := fun _ h huser => ⟨h, huser, .refl _ _⟩
  insertCustomer := fun _ h _ =>
    ⟨h.insertCustomer hdb, hasCustomer_insertCustomer hdb, ownId_insertCustomer⟩
  setClerkUser := fun s h huser =>
    ⟨h.setClerkUser huser, huser, ⟨fun _ h => h, (OwnId.refl _ s).ids⟩⟩
  insertWebhook _ data draw blockchain hfield hvalid hfind hshards := by
    intro s h huser
    have hown : OwnId (calls k).uuid s (insertWebhook db blockchains (fun createdAt =>
        data.row (calls k).uuid createdAt userId ((draw : Int) % blockchain.shardCount)) s) :=
      ownId_insertWebhook fun _ => rfl
    refine ⟨h.insertWebhook huuid (fun _ => rfl) (fun now => ?_) fun now => ?_,
      huser.later hown.customers, hown⟩
    · exact rowOk_create hvalid hfind hshards _ now draw
    · exact ⟨hcaller, data, draw, blockchain, hfield, rfl, hfind, rfl⟩
  updateWebhook _ id data hfield hvalid := by
    intro s h huser
    exact ⟨h.update data.set (fun _ => rfl) (fun _ hrow => hrow.set hvalid) (fun _ => rfl)
      (fun _ => rfl) fun _ => rfl, huser, ownId_update data.set fun _ => rfl⟩
  activateWebhooks _ ids := by
    intro s h huser
    refine ⟨h.update (fun row => { row with isActive := 1 }) (fun _ => rfl) (fun _ hrow => ?_)
      (fun _ => rfl) (fun _ => rfl) fun _ => rfl, huser,
      ownId_update (fun row => { row with isActive := 1 }) fun _ => rfl⟩
    exact ⟨.inr rfl, hrow.url, hrow.maxBlocks, hrow.maxRetries, hrow.timeoutMs, hrow.shardId⟩
  removeWebhooks _ ids := fun s h huser => ⟨h.removeWebhooks ids, huser, ownId_removeWebhooks ids⟩
  clerkUser _ _ _ _ h := by rw [h]
  rows _ _ _ _ h := by rw [h]
  inserts _ _ _ _ _ _ _ h := by rw [h]

end Statements

/-! ### One call -/

/-- What a call that creates a webhook returns. -/
def createReturns (db : Collation) (verify : Text → JwtResult) (isUrl : String → Bool)
    (blockchains : List Blockchain) (call : ApiCall ι) (data : CreateInput) :
    Except GraphQLError ι := do
  let _ ← authenticate verify call.authorization
  if data.valid isUrl then
    let _ ← requireStripeSubscription call.subscription
    match blockchains.find? fun blockchain => db.eq blockchain.id data.blockchainId with
    | none => throw (gqlBadRequestError s!"invalid blockchain ID \"{data.blockchainId}\"")
    | some blockchain =>
      if blockchain.shardCount ≤ 0 then throw unexpectedError else return call.uuid
  else throw (gqlBadRequestError call.issue)

section Calls

variable {db : Collation} {verify : Text → JwtResult} {isUrl : String → Bool}
  {blockchains : List Blockchain} {calls : κ → ApiCall ι} {s : ApiState ι τ} {userId : String}
  {k : κ}

section Create

variable [DecidableEq ι] (hdb : LawfulCollation db)
  (huuid : Function.Injective fun k => (calls k).uuid)
  (hcaller : caller verify (calls k) = some userId)

include hdb huuid hcaller

/-- The INSERT of `create` does not fail. -/
theorem create_keeps (hsub : Subscribed (calls k)) {data : CreateInput} {draw : Nat}
    (hfield : (calls k).field = .webhookCreate data draw) (hvalid : data.valid isUrl = true)
    (huser : HasCustomer db userId s) (hfresh : ∀ row ∈ s.webhooks.rows, row.id ≠ (calls k).uuid) :
    (create db blockchains userId data (calls k).uuid draw : Api ι τ ι).run.Keeps
      (ApiInv db verify isUrl blockchains calls) (OtherIds (calls k).uuid)
      (OwnId (calls k).uuid)
      (fun r _ => r =
        match blockchains.find? fun blockchain => db.eq blockchain.id data.blockchainId with
        | none => .error (gqlBadRequestError s!"invalid blockchain ID \"{data.blockchainId}\"")
        | some blockchain =>
          if blockchain.shardCount ≤ 0 then .error unexpectedError else .ok (calls k).uuid) s := by
  unfold create
  cases hfind : blockchains.find? fun blockchain => db.eq blockchain.id data.blockchainId with
  | none => exact .done rfl
  | some blockchain =>
    by_cases hshards : blockchain.shardCount ≤ 0
    · simp only [if_pos hshards]
      exact .done rfl
    · simp only [if_neg hshards]
      refine .bindExcept (Q := fun inserted _ => inserted = .ok true) ?_ (fun _ _ h => by cases h)
        ?_
      · refine .lift (.op fun s' hs' hinv => ?_)
        have huser' := huser.later hs'.customers
        obtain ⟨hnext, -, hown⟩ := (statements_keep hdb huuid hcaller).insertWebhook hsub data
          draw blockchain hfield hvalid hfind (not_le.1 hshards) s' hinv huser'
        have hchain := List.find?_some hfind
        refine ⟨hnext, hown, congrArg Except.ok (decide_eq_true ⟨?_, huser', ?_⟩)⟩
        · intro hmem
          obtain ⟨row, hrow, hid⟩ := List.mem_map.1 hmem
          exact hs'.fresh hfresh row hrow hid
        · exact ⟨blockchain, List.mem_of_find?_eq_some hfind, hchain⟩
      · intro inserted s' h
        cases h
        exact .done rfl

end Create

/-- After `requireAuth` the user has a customer. -/
theorem requireAuth_keeps (hdb : LawfulCollation db)
    (hfresh : ∀ row ∈ s.webhooks.rows, row.id ≠ (calls k).uuid) :
    (requireAuth db userId : Api ι τ Unit).run.Keeps (ApiInv db verify isUrl blockchains calls)
      (OtherIds (calls k).uuid) (OwnId (calls k).uuid)
      (fun r s => r = .ok () ∧ HasCustomer db userId s ∧
        ∀ row ∈ s.webhooks.rows, row.id ≠ (calls k).uuid) s := by
  refine .bindExcept (Q := fun user s => ∃ cached, user = .ok cached ∧
    (cached = true → HasCustomer db userId s) ∧ ∀ row ∈ s.webhooks.rows, row.id ≠ (calls k).uuid)
    ?_ (fun _ _ ⟨_, h, _⟩ => by cases h) ?_
  · refine .lift (.op fun s' hs' hinv => ?_)
    exact ⟨hinv, .refl _ _, _, rfl, hinv.1.cached userId, hs'.fresh hfresh⟩
  · rintro cached s' ⟨_, h, hcached, hfresh'⟩
    cases h
    split
    · next htrue => exact .done ⟨rfl, hcached htrue, hfresh'⟩
    · refine .lift (.op fun s'' hs'' hinv => ?_)
      refine ⟨hinv.insertCustomer hdb, ownId_insertCustomer, rfl, hasCustomer_insertCustomer hdb,
        ?_⟩
      simpa using hs''.fresh hfresh'

variable [LinearOrder ι] [ToString ι] [LinearOrder τ]

/-- What is said of the result of a call. -/
def Returns (db : Collation) (verify : Text → JwtResult) (isUrl : String → Bool)
    (blockchains : List Blockchain) (call : ApiCall ι)
    (r : Except GraphQLError (ApiResult ι τ)) : Prop :=
  ∀ data draw, call.field = .webhookCreate data draw →
    r = (createReturns db verify isUrl blockchains call data).map .uuid

/-- A call that creates a webhook, once it has its user. -/
private theorem resolve_keeps (hdb : LawfulCollation db)
    (huuid : Function.Injective fun k => (calls k).uuid)
    (hauth : authenticate verify (calls k).authorization = .ok userId) {data : CreateInput}
    {draw : Nat} (hfield : (calls k).field = .webhookCreate data draw)
    (huser : HasCustomer db userId s) (hfresh : ∀ row ∈ s.webhooks.rows, row.id ≠ (calls k).uuid) :
    ((calls k).resolve db isUrl blockchains userId : Api ι τ _).run.Keeps
      (ApiInv db verify isUrl blockchains calls) (OtherIds (calls k).uuid) (OwnId (calls k).uuid)
      (fun r _ => r = (createReturns db verify isUrl blockchains (calls k) data).map .uuid) s := by
  have hcaller : caller verify (calls k) = some userId := by rw [caller, hauth]; rfl
  unfold ApiCall.resolve createReturns
  simp only [hfield, hauth, ApiField.valid, ApiField.gated]
  cases hvalid : data.valid isUrl with
  | false => exact .done rfl
  | true =>
    cases hsub : requireStripeSubscription (calls k).subscription with
    | error e => exact .done rfl
    | ok sub =>
      refine .mapExcept
        (create_keeps hdb huuid hcaller ⟨sub, hsub⟩ hfield hvalid huser hfresh) ?_ ?_
      · exact fun e _ h => congrArg (Except.map ApiResult.uuid) h
      · exact fun uuid _ h => congrArg (Except.map ApiResult.uuid) h

theorem request_keeps (hdb : LawfulCollation db)
    (huuid : Function.Injective fun k => (calls k).uuid)
    (hfresh : ∀ row ∈ s.webhooks.rows, row.id ≠ (calls k).uuid) :
    ((calls k).request db verify isUrl blockchains : Api ι τ _).run.Keeps
      (ApiInv db verify isUrl blockchains calls) (OtherIds (calls k).uuid)
      (OwnId (calls k).uuid) (fun r _ => Returns db verify isUrl blockchains (calls k) r) s := by
  unfold ApiCall.request
  cases hauth : authenticate verify (calls k).authorization with
  | error e =>
    refine .done fun data draw _ => ?_
    simp only [createReturns, hauth]
    rfl
  | ok userId =>
    have hcaller : caller verify (calls k) = some userId := by rw [caller, hauth]; rfl
    refine .bindExcept (requireAuth_keeps hdb hfresh) (fun _ _ h => by cases h.1) ?_
    rintro _ s' ⟨-, huser, hfresh'⟩
    by_cases hcreate : ∃ data draw, (calls k).field = .webhookCreate data draw
    · obtain ⟨data, draw, hfield⟩ := hcreate
      refine (resolve_keeps hdb huuid hauth hfield huser hfresh').imp fun r _ h data' draw' h' => ?_
      rw [hfield, ApiField.webhookCreate.injEq] at h'
      exact h'.1 ▸ h
    · refine ((resolve_along (statements_keep hdb huuid hcaller)).keeps
        (fun _ _ hs h => h.later hs.customers) huser).imp fun _ _ _ data draw hfield => ?_
      exact absurd ⟨data, draw, hfield⟩ hcreate

end Calls

/-! ### Runs -/

section Runs

variable [DecidableEq κ] [LinearOrder ι] [ToString ι] [LinearOrder τ] {db : Collation}
  {verify : Text → JwtResult} {isUrl : String → Bool} {blockchains : List Blockchain}
  {calls : κ → ApiCall ι} {s₀ : ApiState ι τ} {as : List (PoolAction κ (ApiEvent τ))}
  {p : Pool κ (ApiState ι τ) (Except GraphQLError (ApiResult ι τ))}

/-- Both invariants, and what every call still keeps. -/
theorem run_keeps (hdb : LawfulCollation db)
    (huuid : Function.Injective fun k => (calls k).uuid)
    (hinit : TablesOk db isUrl blockchains s₀)
    (hfresh : ∀ row ∈ s₀.webhooks.rows, ∀ k, row.id ≠ (calls k).uuid)
    (hrun : Transition.run (Pool.step ApiState.event)
      (apiPool db verify isUrl blockchains calls s₀) as = some p) :
    ApiInv db verify isUrl blockchains calls p.shared ∧ ∀ k, (p.tasks k).Keeps
      (ApiInv db verify isUrl blockchains calls) (OtherIds (calls k).uuid) (OwnId (calls k).uuid)
      (fun r _ => Returns db verify isUrl blockchains (calls k) r) p.shared := by
  refine Pool.kept (Q := fun k r _ => Returns db verify isUrl blockchains (calls k) r)
    ?_ ?_ ?_ ?_ ?_ ?_ ?_ hrun
  · exact fun k s => ⟨fun _ h => h, fun h => h⟩
  · exact fun k a b c hab hbc =>
      ⟨fun id h => hbc.customers id (hab.customers id h), fun h => hbc.fresh (hab.fresh h)⟩
  · exact fun k k' s s' hne h => h.otherIds fun heq => hne (huuid heq)
  · exact fun k r s s' _ h => h
  · intro e s h
    cases e with
    | tick now =>
      exact ⟨⟨⟨h.1.rows, h.1.customer, h.1.cached, h.1.unique⟩, h.2⟩,
        fun k => ⟨fun _ h => h, fun h => h⟩⟩
    | expire userId =>
      refine ⟨⟨⟨h.1.rows, h.1.customer, fun u hu => ?_, h.1.unique⟩, h.2⟩,
        fun k => ⟨fun _ h => h, fun h => h⟩⟩
      simp only [ApiState.event, Function.update_apply] at hu
      split at hu
      · cases hu
      · exact h.1.cached u hu
  · exact ⟨hinit, fun row hrow k hk => absurd hk (hfresh row hrow k)⟩
  · exact fun k => request_keeps hdb huuid fun row hrow => hfresh row hrow k

/-- In every state that the calls of all users reach. -/
theorem tables_ok (hdb : LawfulCollation db) (huuid : Function.Injective fun k => (calls k).uuid)
    (hinit : TablesOk db isUrl blockchains s₀)
    (hfresh : ∀ row ∈ s₀.webhooks.rows, ∀ k, row.id ≠ (calls k).uuid)
    (hrun : Transition.run (Pool.step ApiState.event)
      (apiPool db verify isUrl blockchains calls s₀) as = some p) :
    TablesOk db isUrl blockchains p.shared ∧ Created db verify blockchains calls p.shared :=
  (run_keeps hdb huuid hinit hfresh hrun).1

/-- What the others do at the same time does not matter. -/
theorem create_returns (hdb : LawfulCollation db)
    (huuid : Function.Injective fun k => (calls k).uuid)
    (hinit : TablesOk db isUrl blockchains s₀)
    (hfresh : ∀ row ∈ s₀.webhooks.rows, ∀ k, row.id ≠ (calls k).uuid)
    (hrun : Transition.run (Pool.step ApiState.event)
      (apiPool db verify isUrl blockchains calls s₀) as = some p) {k : κ} {data : CreateInput}
    {draw : Nat} (hfield : (calls k).field = .webhookCreate data draw)
    {r : Except GraphQLError (ApiResult ι τ)} (hdone : p.tasks k = .done r) :
    r = (createReturns db verify isUrl blockchains (calls k) data).map .uuid := by
  have hkeeps := (run_keeps hdb huuid hinit hfresh hrun).2 k
  rw [hdone] at hkeeps
  exact hkeeps.result data draw hfield

end Runs

/-! ### Two calls of a new user -/

/-- Two calls of one user at the same time, neither of which finds the user in the cache. -/
def twoCreates (second : Bool) : ApiCall Nat :=
  ⟨some "bearer u".toList, .webhookCreate ⟨"http://u", 1, 0, 5, "flow"⟩ 3, "",
    .session ⟨"", some .complete, some ⟨"", false⟩, some ⟨.active, ""⟩⟩, if second then 2 else 1⟩

/-- Both at their start, on an empty database. -/
def twoCreatesPool : Pool Bool (ApiState Nat Nat) (Except GraphQLError (ApiResult Nat Nat)) :=
  apiPool ⟨fun a b => a == b, fun _ _ => false⟩
    (fun token => .payload (some (String.ofList token))) (fun _ => true) [⟨"flow", 2, ""⟩]
    twoCreates (.empty 0)

/-- Their operations take turns. -/
def takeTurns : List (PoolAction Bool (ApiEvent Nat)) :=
  [.step false, .step true, .step false, .step true, .step false, .step true]

theorem twoCreates_uuid : Function.Injective fun k => (twoCreates k).uuid := by
  intro a b h
  cases a <;> cases b <;> simp [twoCreates] at h ⊢

theorem twoCreates_init :
    TablesOk ⟨fun a b => a == b, fun _ _ => false⟩ (fun _ => true) [⟨"flow", 2, ""⟩]
      (.empty 0 : ApiState Nat Nat) :=
  ⟨by simp, by simp, by simp, .nil⟩

theorem tables_ok_twoCreates :
    ∃ p, Transition.run (Pool.step ApiState.event) twoCreatesPool takeTurns = some p ∧
      p.shared.webhooks.rows.length = 2 ∧
      TablesOk ⟨fun a b => a == b, fun _ _ => false⟩ (fun _ => true) [⟨"flow", 2, ""⟩]
        p.shared := by
  have hrun : (Transition.run (Pool.step ApiState.event) twoCreatesPool takeTurns).any
      (fun p => p.shared.webhooks.rows.length = 2) = true := rfl
  obtain ⟨p, hp, hlength⟩ := (Option.any_eq_true ..).1 hrun
  exact ⟨p, hp, of_decide_eq_true hlength,
    (tables_ok ⟨by simp, by simp, by simp⟩ twoCreates_uuid twoCreates_init
      (by simp) hp).1⟩

theorem create_returns_twoCreates :
    ∃ p, Transition.run (Pool.step ApiState.event) twoCreatesPool takeTurns = some p ∧
      p.tasks true = .done (.ok (.uuid 2)) := by
  have hrun : (Transition.run (Pool.step ApiState.event) twoCreatesPool takeTurns).any
      (fun p => match p.tasks true with | .done _ => true | .next _ _ => false) = true := rfl
  obtain ⟨p, hp, hdone⟩ := (Option.any_eq_true ..).1 hrun
  refine ⟨p, hp, ?_⟩
  cases htask : p.tasks true with
  | next update rest => simp [htask] at hdone
  | done r =>
    exact congrArg Routine.done (create_returns ⟨by simp, by simp, by simp⟩ twoCreates_uuid
      twoCreates_init (by simp) hp rfl htask)

end BlockFeed.Spec
