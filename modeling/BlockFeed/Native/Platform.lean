import BlockFeed.Native.WebhookApi

/-!
# The dashboard and the relays on the same rows

While promises of the activate handler and relays are at work, the other handlers insert, update
and delete rows. A `Platform` adds their statements to `ActivationState`: each of these handlers
sends one statement that changes rows.

`created` is not part of the system: it records all webhooks that ever had a row, each with the
shard that it was drawn for. `randomUUID` returns an ID that is not among them.
-/

namespace BlockFeed.Native

namespace WebhookTable

variable {ι : Type} [DecidableEq ι]

/-- INSERT of a row whose ID is not there. -/
def insert (table : WebhookTable ι) (row : WebhookRow ι)
    (h : row.id ∉ table.rows.map WebhookRow.id) : WebhookTable ι where
  rows := row :: table.rows
  nodup := List.nodup_cons.2 ⟨h, table.nodup⟩

/-- `set` of `update.ts`, as far as the relay reads the row. -/
def setRow (customerId : String) (id : ι) (data : UpdateInput) (row : WebhookRow ι) :
    WebhookRow ι :=
  if row.customerId = customerId ∧ row.id = id then
    { row with
      webhook :=
        { maxRetries := data.maxRetries.notNull.getD row.webhook.maxRetries
          maxBlocks := data.maxBlocks.notNull.getD row.webhook.maxBlocks } }
  else row

@[simp] theorem setRow_id (customerId : String) (id : ι) (data : UpdateInput)
    (row : WebhookRow ι) : (setRow customerId id data row).id = row.id := by
  unfold setRow
  split <;> rfl

@[simp] theorem setRow_key (customerId : String) (id : ι) (data : UpdateInput)
    (row : WebhookRow ι) : (setRow customerId id data row).key = row.key := by
  unfold setRow
  split <;> rfl

@[simp] theorem setRow_isActive (customerId : String) (id : ι) (data : UpdateInput)
    (row : WebhookRow ι) : (setRow customerId id data row).isActive = row.isActive := by
  unfold setRow
  split <;> rfl

/-- UPDATE of `update.ts`. -/
def update (table : WebhookTable ι) (customerId : String) (id : ι) (data : UpdateInput) :
    WebhookTable ι where
  rows := table.rows.map (setRow customerId id data)
  nodup := by
    have hid : WebhookRow.id ∘ setRow customerId id data = WebhookRow.id := by
      funext row
      exact setRow_id customerId id data row
    rw [List.map_map, hid]
    exact table.nodup

/-- DELETE of `remove.ts`. -/
def remove (table : WebhookTable ι) (customerId : String) (ids : List ι) : WebhookTable ι where
  rows := table.rows.filter fun row => ¬(row.customerId = customerId ∧ row.id ∈ ids)
  nodup := table.nodup.sublist (List.filter_sublist.map _)

/-- The relay finds nothing when there is no row. -/
theorem findOne_eq_none {table : WebhookTable ι} {id : ι} :
    table.findOne id = none ↔ ∀ row ∈ table.rows, row.id ≠ id := by
  rw [findOne, Option.map_eq_none_iff, List.find?_eq_none]
  simp only [decide_eq_true_eq, ne_eq]

end WebhookTable

/-- The row of `create.ts` with its cluster, if there is a blockchain with shards to draw from. -/
def createRow {ι : Type} (db : Collation) (blockchains : List Blockchain) (userId : String)
    (data : CreateInput) (uuid : ι) (draw : Nat) : Option (WebhookRow ι) :=
  match blockchains.find? fun blockchain => db.eq blockchain.id data.blockchainId with
  | none => none
  | some blockchain =>
    if blockchain.shardCount ≤ 0 then none
    else
      let shardId := (draw : Int) % blockchain.shardCount
      withBlockchain db blockchains (data.row uuid () userId shardId)

theorem createRow_eq_some {ι : Type} {db : Collation} {blockchains : List Blockchain}
    {userId : String} {data : CreateInput} {uuid : ι} {draw : Nat} {row : WebhookRow ι}
    (h : createRow db blockchains userId data uuid draw = some row) :
    row.id = uuid ∧ row.isActive = false := by
  unfold createRow at h
  split at h
  · cases h
  · split at h
    · cases h
    · simp only [withBlockchain, Option.map_eq_some_iff] at h
      obtain ⟨blockchain, -, rfl⟩ := h
      exact ⟨rfl, rfl⟩

/-- The rows, the shards with their relays, the promises, and the history of the rows. -/
structure Platform (κ ι T β : Type) [LinearOrder T] where
  state : ActivationState κ ι T β
  created : List (ι × ShardKey)

/-- A statement of a handler, or an action of promises and relays. -/
inductive PlatformAction (κ ι β : Type) where
  | create (userId : String) (data : CreateInput) (uuid : ι) (draw : Nat)
  | update (userId : String) (id : ι) (data : UpdateInput)
  | remove (userId : String) (ids : List ι)
  | activation (action : ActivationAction κ ι β)

namespace Platform

variable {κ ι T β : Type} [DecidableEq κ] [DecidableEq ι] [LinearOrder T] [JobText ι T]

/-- No rows, no shard is in use. -/
def init : Platform κ ι T β := ⟨.init ⟨[], List.nodup_nil⟩, []⟩

/-- Takes one action, `none` when it is not enabled. -/
def step (db : Collation) (blockchains : List Blockchain) (p : Platform κ ι T β) :
    PlatformAction κ ι β → Option (Platform κ ι T β)
  | .create userId data uuid draw =>
    match createRow db blockchains userId data uuid draw with
    | none => none
    | some row =>
      if h : row.id ∉ p.state.table.rows.map WebhookRow.id ∧ row.id ∉ p.created.map Prod.fst then
        some
          { state := { p.state with table := p.state.table.insert row h.1 }
            created := (row.id, row.key) :: p.created }
      else none
  | .update userId id data =>
    some { p with state := { p.state with table := p.state.table.update userId id data } }
  | .remove userId ids =>
    some { p with state := { p.state with table := p.state.table.remove userId ids } }
  | .activation action =>
    match p.state.step action with
    | none => none
    | some state => some { p with state := state }

end Platform

end BlockFeed.Native
