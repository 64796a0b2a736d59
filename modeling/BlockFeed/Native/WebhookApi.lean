import BlockFeed.ForStd.Routine
import BlockFeed.Native.Activation
import BlockFeed.Native.DashboardAuth
import BlockFeed.Native.FindMany

/-!
# The webhook API of the dashboard

A GraphQL call authenticates its user, checks its input against the limits, checks the user's
subscription and runs a handler. `ApiState` holds what the calls of all users share: the tables
`customer` and `webhook` and the cache of Clerk's users. Each call is a routine on it whose
operations are its SQL statements and cache accesses.

A call that stops between two operations is one that takes no further step.
-/

namespace BlockFeed.Native

/-! ## Limits -/

/-- A limit of `constants.webhooks.limits`. -/
structure Limit where
  min : Int
  max : Int

def Limit.admits (limit : Limit) (n : Int) : Bool := limit.min ≤ n && n ≤ limit.max

namespace limits

def maxUuids : Limit := ⟨0, 50⟩

def maxBlocks : Limit := ⟨1, 10⟩

def maxRetries : Limit := ⟨0, 10⟩

def timeoutMs : Limit := ⟨0, 10000⟩

def blockchainIdLen : Limit := ⟨0, 1024⟩

def urlLen : Limit := ⟨1, 2048⟩

end limits

/-- The length of a text in UTF-16 code units. -/
def textLength (s : String) : Nat :=
  s.toList.foldl (fun n c => n + if c.toNat < 0x10000 then 1 else 2) 0

/-- `zInput` of `create.ts`. -/
def CreateInput.valid (isUrl : String → Bool) (data : CreateInput) : Bool :=
  isUrl data.url && limits.urlLen.admits (textLength data.url) &&
    limits.maxBlocks.admits data.maxBlocks && limits.maxRetries.admits data.maxRetries &&
    limits.timeoutMs.admits data.timeoutMs &&
    limits.blockchainIdLen.admits (textLength data.blockchainId)

/-- `data` of `update.ts`. -/
structure UpdateInput where
  url : Nullish String
  maxBlocks : Nullish Int
  maxRetries : Nullish Int
  timeoutMs : Nullish Int

/-- `zInput` of `update.ts`. -/
def UpdateInput.valid (isUrl : String → Bool) (data : UpdateInput) : Bool :=
  data.url.notNull.all (fun url => isUrl url && limits.urlLen.admits (textLength url)) &&
    data.maxBlocks.notNull.all limits.maxBlocks.admits &&
    data.maxRetries.notNull.all limits.maxRetries.admits &&
    data.timeoutMs.notNull.all limits.timeoutMs.admits

/-- All values are null or undefined. -/
def UpdateInput.isEmpty (data : UpdateInput) : Bool :=
  data.url.notNull.isNone && data.maxBlocks.notNull.isNone && data.maxRetries.notNull.isNone &&
    data.timeoutMs.notNull.isNone

/-- `set`: a value that is undefined leaves the column as it is. -/
def UpdateInput.set {ι τ : Type} (data : UpdateInput) (row : WebhookRecord ι τ) :
    WebhookRecord ι τ :=
  { row with
    maxRetries := data.maxRetries.notNull.getD row.maxRetries
    maxBlocks := data.maxBlocks.notNull.getD row.maxBlocks
    timeoutMs := data.timeoutMs.notNull.getD row.timeoutMs
    url := data.url.notNull.getD row.url }

/-! ## The tables -/

/-- A row of `blockchain`. -/
structure Blockchain where
  id : String
  shardCount : Int
  redisClusterUrl : String
deriving DecidableEq

namespace WebhookRecords

variable {ι τ : Type}

/-- UPDATE of the rows that satisfy `p`. -/
def update (table : WebhookRecords ι τ) (p : WebhookRecord ι τ → Bool)
    (set : WebhookRecord ι τ → WebhookRecord ι τ) (hset : ∀ row, (set row).id = row.id) :
    WebhookRecords ι τ where
  rows := table.rows.map fun row => if p row then set row else row
  unique := by
    have hid : (WebhookRecord.id ∘ fun row => if p row then set row else row) =
        (WebhookRecord.id : WebhookRecord ι τ → ι) := by
      funext row
      simp only [Function.comp_apply]
      split
      · exact hset row
      · rfl
    rw [List.map_map, hid]
    exact table.unique

end WebhookRecords

/-- What all calls share. -/
structure ApiState (ι τ : Type) where
  /-- the table `customer` -/
  customers : List String
  /-- the user is in the cache of Clerk's users -/
  clerkUser : String → Bool
  webhooks : WebhookRecords ι τ
  /-- `CURRENT_TIMESTAMP` -/
  now : τ

/-- A database without rows. -/
def ApiState.empty {ι τ : Type} (now : τ) : ApiState ι τ := ⟨[], fun _ => false, ⟨[], .nil⟩, now⟩

@[simp] theorem ApiState.rows_empty {ι τ : Type} (now : τ) :
    (empty now : ApiState ι τ).webhooks.rows = [] := rfl

@[simp] theorem ApiState.customers_empty {ι τ : Type} (now : τ) :
    (empty now : ApiState ι τ).customers = [] := rfl

@[simp] theorem ApiState.clerkUser_empty {ι τ : Type} (now : τ) (userId : String) :
    (empty now : ApiState ι τ).clerkUser userId = false := rfl

/-- What happens to the state besides the calls. -/
inductive ApiEvent (τ : Type) where
  | tick (now : τ)
  | expire (userId : String)

/-- A call of the API. -/
abbrev Api (ι τ α : Type) : Type := ExceptT GraphQLError (Routine (ApiState ι τ)) α

namespace ApiState

variable {ι τ : Type}

def event (e : ApiEvent τ) (s : ApiState ι τ) : ApiState ι τ :=
  match e with
  | .tick now => { s with now := now }
  | .expire userId => { s with clerkUser := Function.update s.clerkUser userId false }

/-- `INSERT IGNORE` of a customer. -/
def insertCustomer (db : Collation) (userId : String) (s : ApiState ι τ) : ApiState ι τ :=
  if s.customers.any fun id => db.eq id userId then s
  else { s with customers := userId :: s.customers }

/-- SET of a user in the cache. -/
def setClerkUser (userId : String) (s : ApiState ι τ) : ApiState ι τ :=
  { s with clerkUser := Function.update s.clerkUser userId true }

/-- INSERT of a webhook succeeds: its ID is new, and its customer and its blockchain exist. -/
def Inserts (db : Collation) (blockchains : List Blockchain) (s : ApiState ι τ)
    (row : WebhookRecord ι τ) : Prop :=
  row.id ∉ s.webhooks.rows.map WebhookRecord.id ∧
    (∃ id ∈ s.customers, db.eq id row.customerId = true) ∧
    ∃ blockchain ∈ blockchains, db.eq blockchain.id row.blockchainId = true

instance [DecidableEq ι] (db : Collation) (blockchains : List Blockchain) (s : ApiState ι τ)
    (row : WebhookRecord ι τ) : Decidable (Inserts db blockchains s row) := by
  unfold Inserts
  infer_instance

/-- INSERT of a webhook. The database sets the time. -/
def insertWebhook [DecidableEq ι] (db : Collation) (blockchains : List Blockchain)
    (row : τ → WebhookRecord ι τ) (s : ApiState ι τ) : ApiState ι τ :=
  if h : Inserts db blockchains s (row s.now) then
    { s with webhooks := s.webhooks.insert (row s.now) h.1 }
  else s

/-- The row of an update or a delete. -/
def ofUser [DecidableEq ι] (db : Collation) (userId : String) (ids : List ι)
    (row : WebhookRecord ι τ) : Bool := db.eq row.customerId userId && decide (row.id ∈ ids)

/-- UPDATE of a webhook. -/
def updateWebhook [DecidableEq ι] (db : Collation) (userId : String) (id : ι) (data : UpdateInput)
    (s : ApiState ι τ) : ApiState ι τ :=
  { s with webhooks := s.webhooks.update (ofUser db userId [id]) data.set fun _ => rfl }

/-- UPDATE of `is_active`. -/
def activateWebhooks [DecidableEq ι] (db : Collation) (userId : String) (ids : List ι)
    (s : ApiState ι τ) : ApiState ι τ :=
  { s with
    webhooks := s.webhooks.update (ofUser db userId ids) (fun row => { row with isActive := 1 })
      fun _ => rfl }

/-- DELETE of webhooks. -/
def removeWebhooks [DecidableEq ι] (db : Collation) (userId : String) (ids : List ι)
    (s : ApiState ι τ) : ApiState ι τ := { s with webhooks := s.webhooks.remove db userId ids }

end ApiState

/-! ## The handlers -/

section Handlers

open ApiState

variable {ι τ : Type}

/-- A statement or a cache access. -/
def operation {α : Type} (f : ApiState ι τ → α)
    (update : ApiState ι τ → ApiState ι τ) : Api ι τ α := ExceptT.lift (Routine.op f update)

/-- A select. -/
def select {α : Type} (f : ApiState ι τ → α) : Api ι τ α := operation f id

/-- `requireAuth` once it has the user. -/
def requireAuth (db : Collation) (userId : String) : Api ι τ Unit := do
  let user ← select fun s => s.clerkUser userId
  if user then return
  else operation (fun _ => ()) (insertCustomer db userId)

section FindOne

variable [DecidableEq ι] [ToString ι]

/-- `handler` of `find-one.ts`. -/
def findOne (db : Collation) (userId : String) (id : ι) : Api ι τ (WebhookRecord ι τ) := do
  let result ← select fun s =>
    s.webhooks.rows.find? fun row => db.eq row.customerId userId && decide (row.id = id)
  match result with
  | none => throw (gqlBadRequestError s!"record with id \"{id}\" does not exist")
  | some row => return row

end FindOne

section FindMany

variable [LinearOrder ι] [LinearOrder τ]

/-- The second select of `find-many.ts`, and the page, for a limit that is not negative. -/
def findPage (db : Collation) (table : WebhookRecords ι τ) (userId : String)
    (args : FindManyInput ι) (cursor : Option (WebhookCursor ι × WebhookRecord ι τ)) :
    WebhookPage ι τ :=
  let reverse := isReverse cursor
  let isFirstPage := cursor.isNone
  let rows := table.rows.filter fun row =>
    whereFilters db userId args.filters row && whereCursor cursor row
  let ordered :=
    if reverse then Keyset.ascending WebhookRecord.key rows
    else Keyset.descending WebhookRecord.key rows
  let result := ordered.take (args.pagination.limit + 1).toNat
  if (result.length : Int) > args.pagination.limit then
    let result := result.dropLast
    { payload := if reverse then result.reverse else result
      hasNext := true
      hasPrev := !isFirstPage }
  else
    { payload := if reverse then result.reverse else result
      hasNext := if isFirstPage then false else reverse
      hasPrev := if isFirstPage then false else !reverse }

/-- Without a change between the selects this is `findMany`. -/
theorem findPage_findCursor (db : Collation) (table : WebhookRecords ι τ) (userId : String)
    (args : FindManyInput ι) :
    findPage db table userId args (findCursor db table userId args.pagination.cursor) =
      findMany db table userId args := rfl

/-- The first select, if there is one. -/
def selectCursor (db : Collation) (userId : String) (cursor : Nullish (WebhookCursor ι)) :
    Api ι τ (Option (WebhookCursor ι × WebhookRecord ι τ)) :=
  match cursor.notNull with
  | none => return none
  | some _ => select fun s => findCursor db s.webhooks userId cursor

/-- `handler` of `find-many.ts`, a statement at a time. -/
def findManySteps (db : Collation) (userId : String) (args : FindManyInput ι) :
    Api ι τ (WebhookPage ι τ) := do
  let cursor ← selectCursor db userId args.pagination.cursor
  select fun s => findPage db s.webhooks userId args cursor

end FindMany

section Writes

variable [DecidableEq ι]

/-- `handler` of `create.ts`. `draw` is what `randomInt` takes its number from. -/
def create (db : Collation) (blockchains : List Blockchain) (userId : String) (data : CreateInput)
    (uuid : ι) (draw : Nat) : Api ι τ ι :=
  match blockchains.find? fun blockchain => db.eq blockchain.id data.blockchainId with
  | none => throw (gqlBadRequestError s!"invalid blockchain ID \"{data.blockchainId}\"")
  | some blockchain =>
    -- an empty range
    if blockchain.shardCount ≤ 0 then throw unexpectedError
    else do
      let shardId := (draw : Int) % blockchain.shardCount
      let row := fun createdAt => data.row uuid createdAt userId shardId
      let inserted ← operation (fun s => decide (s.Inserts db blockchains (row s.now)))
        (insertWebhook db blockchains row)
      if inserted then return uuid else throw unexpectedError

/-- `handler` of `update.ts`; the count is that of the rows found. -/
def update (db : Collation) (userId : String) (id : ι) (data : UpdateInput) : Api ι τ Nat :=
  if data.isEmpty then return 0
  else
    operation (fun s => (s.webhooks.rows.filter (ofUser db userId [id])).length)
      (updateWebhook db userId id data)

/-- `handler` of `remove.ts`. -/
def remove (db : Collation) (userId : String) (ids : List ι) : Api ι τ Nat :=
  if ids.length = 0 then return 0
  else
    operation (fun s => (s.webhooks.rows.filter (ofUser db userId ids)).length)
      (removeWebhooks db userId ids)

end Writes

section Activate

variable [DecidableEq ι]

/-- How the promises of `activate.ts` settle: the updates that are sent, in their order, each
    with the index of its promise, and the first error. A promise that sends no update has
    failed before. -/
structure Settling where
  updates : List (Nat × CallOutcome)
  nodup : (updates.map Prod.fst).Nodup
  reason : String

/-- The promise is fulfilled. -/
def Settling.fulfills (settling : Settling) (i : Nat) : Bool :=
  (i, CallOutcome.ok) ∈ settling.updates

/-- A row with the cluster of its blockchain. -/
def withBlockchain (db : Collation) (blockchains : List Blockchain) (row : WebhookRecord ι τ) :
    Option (WebhookRow ι) :=
  (blockchains.find? fun blockchain => db.eq blockchain.id row.blockchainId).map fun blockchain =>
    { id := row.id
      customerId := row.customerId
      isActive := row.isActive = 1
      shardId := row.shardId
      redisClusterUrl := blockchain.redisClusterUrl
      webhook := ⟨row.maxBlocks, row.maxRetries⟩ }

/-- The update of one promise of `activate.ts`. -/
def sendUpdate (db : Collation) (userId : String) (outcome : CallOutcome) :
    Option (ShardGroup ι) → Api ι τ Unit
  | none => return
  | some group =>
    operation (fun _ => ())
      (if outcome.executes then activateWebhooks db userId group.webhookIds else id)

/-- The updates of all promises. -/
def sendUpdates (db : Collation) (userId : String) (groups : List (ShardGroup ι)) :
    List (Nat × CallOutcome) → Api ι τ Unit
  | [] => return
  | (i, outcome) :: updates => do
    sendUpdate db userId outcome groups[i]?
    sendUpdates db userId groups updates

/-- `handler` of `activate.ts` once it has the rows. -/
def settle (db : Collation) (userId : String) (settling : Settling)
    (groups : List (ShardGroup ι)) : Api ι τ Nat := do
  sendUpdates db userId groups settling.updates
  if (List.range groups.length).all settling.fulfills then return 1
  else throw (gqlInternalServerError settling.reason)

/-- `handler` of `activate.ts`. -/
def activate (db : Collation) (blockchains : List Blockchain) (userId : String) (ids : List ι)
    (settling : Settling) : Api ι τ Nat :=
  if ids.length = 0 then return 0
  else do
    let results ← select fun s =>
      s.webhooks.rows.filter fun row => ofUser db userId ids row && row.isActive == 0
    if results.length = 0 then return 0
    else
      match results.mapM (withBlockchain db blockchains) with
      | none => throw unexpectedError
      | some rows => settle db userId settling (ClusterMap.ofResults rows).groups

end Activate

/-- What a checkout call finds outside: the result of `resolveCheckoutSession`, whether Clerk
    returns the user, and what is left of the handler after that. -/
structure CheckoutRun where
  prechecks : Except GraphQLError (Option String)
  getUser : Bool
  rest : Except GraphQLError String

/-- `clerkUser.getOrSet` -/
def getClerkUser (userId : String) (getUser : Bool) : Api ι τ Unit := do
  let cached ← select fun s => s.clerkUser userId
  if cached then return
  else if getUser then operation (fun _ => ()) (setClerkUser userId)
  else throw unexpectedError

/-- `handler` of `create-checkout-session.ts`, as far as the cache of Clerk's users goes. -/
def createCheckoutSession (userId : String) (run : CheckoutRun) : Api ι τ String :=
  match run.prechecks with
  | .error e => throw e
  | .ok (some url) => return url
  | .ok none => do
    getClerkUser userId run.getUser
    match run.rest with
    | .error e => throw e
    | .ok url => return url

end Handlers

/-! ## Calls -/

/-- A field of a request with its arguments and, where the handler draws or waits for something,
    how that comes out. -/
inductive ApiField (ι : Type) where
  | webhook (id : ι)
  | webhooks (args : FindManyInput ι)
  | webhookCreate (data : CreateInput) (draw : Nat)
  | webhookUpdate (id : ι) (data : UpdateInput)
  | webhookRemove (ids : List ι)
  | webhookActivate (ids : List ι) (settling : Settling)
  | createCheckoutSession (run : CheckoutRun)

/-- What a call is given. -/
structure ApiCall (ι : Type) where
  authorization : Option Text
  field : ApiField ι
  /-- the message of the first issue that the validation finds -/
  issue : String
  subscription : SubscriptionRead
  /-- what `randomUUID` returns -/
  uuid : ι

inductive ApiResult (ι τ : Type) where
  | webhook (row : WebhookRecord ι τ)
  | webhooks (page : WebhookPage ι τ)
  | uuid (id : ι)
  | count (count : Nat)
  | url (url : String)
deriving DecidableEq

section Calls

variable {ι τ : Type}

/-- The validation of a field. -/
def ApiField.valid (isUrl : String → Bool) : ApiField ι → Bool
  | .webhookCreate data _ => data.valid isUrl
  | .webhookUpdate _ data => data.valid isUrl
  | .webhookRemove ids => limits.maxUuids.admits ids.length
  | .webhookActivate ids _ => limits.maxUuids.admits ids.length
  | .webhook _ | .webhooks _ | .createCheckoutSession _ => true

/-- The resolver of the field asks for a subscription. -/
def ApiField.gated : ApiField ι → Bool
  | .createCheckoutSession _ => false
  | _ => true

variable [LinearOrder ι] [ToString ι] [LinearOrder τ]

/-- The handler of a field. -/
def ApiField.handler (db : Collation) (blockchains : List Blockchain) (userId : String) (uuid : ι) :
    ApiField ι → Api ι τ (ApiResult ι τ)
  | .webhook id => .webhook <$> findOne db userId id
  | .webhooks args => .webhooks <$> findManySteps db userId args
  | .webhookCreate data draw => .uuid <$> create db blockchains userId data uuid draw
  | .webhookUpdate id data => .count <$> update db userId id data
  | .webhookRemove ids => .count <$> remove db userId ids
  | .webhookActivate ids settling => .count <$> activate db blockchains userId ids settling
  | .createCheckoutSession run => .url <$> Native.createCheckoutSession userId run

/-- A field of an authenticated request. -/
def ApiCall.resolve (db : Collation) (isUrl : String → Bool) (blockchains : List Blockchain)
    (call : ApiCall ι) (userId : String) : Api ι τ (ApiResult ι τ) :=
  if !call.field.valid isUrl then throw (gqlBadRequestError call.issue)
  else
    match call.field.gated, requireStripeSubscription call.subscription with
    | true, .error e => throw e
    | _, _ => call.field.handler db blockchains userId call.uuid

/-- A request. -/
def ApiCall.request (db : Collation) (verify : Text → JwtResult) (isUrl : String → Bool)
    (blockchains : List Blockchain) (call : ApiCall ι) : Api ι τ (ApiResult ι τ) :=
  match authenticate verify call.authorization with
  | .error e => throw e
  | .ok userId => do
    requireAuth db userId
    call.resolve db isUrl blockchains userId

/-- The calls at their start. -/
def apiPool {κ : Type} (db : Collation) (verify : Text → JwtResult) (isUrl : String → Bool)
    (blockchains : List Blockchain) (calls : κ → ApiCall ι) (s : ApiState ι τ) :
    Pool κ (ApiState ι τ) (Except GraphQLError (ApiResult ι τ)) :=
  ⟨s, fun k => ((calls k).request db verify isUrl blockchains).run⟩

end Calls

end BlockFeed.Native
