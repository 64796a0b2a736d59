import BlockFeed.ForStd.Keyset
import Mathlib.Data.Prod.Lex

/-!
# Pages of webhooks

`find-many.ts`: the webhooks of a user that match the filters, a page at a time, the newest first.
The cursor is the ID of a webhook, and the row is looked up again at each fetch; where it is not
found the first page is returned. `remove.ts` and `create.ts` are the changes of the table, and
`getNextPageParam` and `getPreviousPageParam` what the dashboard asks for next.

IDs and times are whatever the database orders them by. How it compares texts is a `Collation`.
-/

namespace BlockFeed.Native

/-! ## The table -/

/-- A row of `webhook`. -/
structure WebhookRecord (ι τ : Type) where
  id : ι
  createdAt : τ
  isActive : Int
  url : String
  maxBlocks : Int
  maxRetries : Int
  timeoutMs : Int
  customerId : String
  blockchainId : String
  shardId : Int
deriving DecidableEq

/-- The table `webhook`; `id` is its primary key. -/
structure WebhookRecords (ι τ : Type) where
  rows : List (WebhookRecord ι τ)
  unique : (rows.map WebhookRecord.id).Nodup

/-- How MySQL compares texts. -/
structure Collation where
  eq : String → String → Bool
  /-- `LIKE` -/
  like : String → String → Bool

namespace WebhookRecords

variable {ι τ : Type}

/-- INSERT of a row whose ID is not there. -/
def insert (table : WebhookRecords ι τ) (row : WebhookRecord ι τ)
    (h : row.id ∉ table.rows.map WebhookRecord.id) : WebhookRecords ι τ where
  rows := row :: table.rows
  unique := List.nodup_cons.2 ⟨h, table.unique⟩

/-- `remove.ts`. -/
def remove [DecidableEq ι] (db : Collation) (table : WebhookRecords ι τ) (userId : String)
    (ids : List ι) : WebhookRecords ι τ where
  rows :=
    if ids.length = 0 then table.rows
    else table.rows.filter fun row => !(db.eq row.customerId userId && decide (row.id ∈ ids))
  unique := by
    split
    · exact table.unique
    · exact table.unique.sublist (List.filter_sublist.map _)

theorem mem_of_mem_remove [DecidableEq ι] {db : Collation} {table : WebhookRecords ι τ}
    {userId : String} {ids : List ι} {row : WebhookRecord ι τ}
    (h : row ∈ (table.remove db userId ids).rows) : row ∈ table.rows := by
  simp only [remove] at h
  split at h
  · exact h
  · exact List.mem_of_mem_filter h

/-- A row is known by its ID. -/
theorem eq_of_id_eq (table : WebhookRecords ι τ) {a b : WebhookRecord ι τ} (ha : a ∈ table.rows)
    (hb : b ∈ table.rows) (h : a.id = b.id) : a = b :=
  List.inj_on_of_nodup_map table.unique ha hb h

end WebhookRecords

/-- `data` of `create.ts`. -/
structure CreateInput where
  url : String
  maxBlocks : Int
  maxRetries : Int
  timeoutMs : Int
  blockchainId : String

/-- The row of `create.ts`. The database sets the time. -/
def CreateInput.row {ι τ : Type} (data : CreateInput) (uuid : ι) (createdAt : τ)
    (userId : String) (shardId : Int) : WebhookRecord ι τ where
  id := uuid
  createdAt := createdAt
  isActive := 0
  url := data.url
  maxBlocks := data.maxBlocks
  maxRetries := data.maxRetries
  timeoutMs := data.timeoutMs
  customerId := userId
  blockchainId := data.blockchainId
  shardId := shardId

/-! ## The input -/

/-- A value that may be missing. -/
inductive Nullish (α : Type) where
  | undefined
  | null
  | value (a : α)
deriving DecidableEq

namespace Nullish

variable {α β : Type}

/-- `x?.f` -/
def chain (x : Nullish α) (f : α → Nullish β) : Nullish β :=
  match x with
  | value a => f a
  | _ => undefined

/-- `x != null` -/
def notNull : Nullish α → Option α
  | value a => some a
  | _ => none

end Nullish

structure BlockchainFilter where
  eq : Nullish String

structure IsActiveFilter where
  eq : Nullish Bool

structure UrlFilter where
  like : Nullish String

structure AndFilters where
  blockchain : Nullish BlockchainFilter
  isActive : Nullish IsActiveFilter
  url : Nullish UrlFilter

structure WebhookFilters where
  and : Nullish AndFilters

/-- `pagination.cursor` -/
structure WebhookCursor (ι : Type) where
  id : ι
  reverse : Bool
deriving DecidableEq

structure PaginationInput (ι : Type) where
  limit : Int
  cursor : Nullish (WebhookCursor ι)

/-- `zInput` of `find-many.ts`. -/
structure FindManyInput (ι : Type) where
  filters : WebhookFilters
  pagination : PaginationInput ι

/-- What the handler returns. -/
structure WebhookPage (ι τ : Type) where
  payload : List (WebhookRecord ι τ)
  hasNext : Bool
  hasPrev : Bool
deriving DecidableEq

/-! ## The handler -/

section Handler

variable {ι τ : Type} [LinearOrder ι] [LinearOrder τ]

/-- What rows are ordered by. -/
def WebhookRecord.key (row : WebhookRecord ι τ) : τ ×ₗ ι := toLex (row.createdAt, row.id)

/-- The `cursor` of the handler: the input and the row. -/
def findCursor (db : Collation) (table : WebhookRecords ι τ) (userId : String)
    (cursor : Nullish (WebhookCursor ι)) : Option (WebhookCursor ι × WebhookRecord ι τ) :=
  match cursor.notNull with
  | none => none
  | some data =>
    -- no row, no cursor
    (table.rows.find? fun row => db.eq row.customerId userId && decide (row.id = data.id)).map
      fun webhook => (data, webhook)

namespace WebhookFilters

/-- The condition on `blockchainId`, if there is one. -/
def blockchainId (filters : WebhookFilters) : Option String :=
  match ((filters.and.chain AndFilters.blockchain).chain BlockchainFilter.eq).notNull with
  | some eq => if eq ≠ "" then some eq else none
  | none => none

/-- The pattern for `url`, if there is one. -/
def url (filters : WebhookFilters) : Option String :=
  match ((filters.and.chain AndFilters.url).chain UrlFilter.like).notNull with
  | some like => if like ≠ "" then some ("%" ++ like ++ "%") else none
  | none => none

/-- The value for `isActive`, if there is one. -/
def isActive (filters : WebhookFilters) : Option Int :=
  match ((filters.and.chain AndFilters.isActive).chain IsActiveFilter.eq).notNull with
  -- the guard is the value itself
  | some eq => if eq then some (if eq then 1 else 0) else none
  | none => none

end WebhookFilters

/-- The where-clause without the cursor. -/
def whereFilters (db : Collation) (userId : String) (filters : WebhookFilters)
    (row : WebhookRecord ι τ) : Bool :=
  db.eq row.customerId userId &&
    filters.blockchainId.all (fun eq => db.eq row.blockchainId eq) &&
    filters.url.all (fun pattern => db.like row.url pattern) &&
    filters.isActive.all (fun eq => row.isActive == eq)

/-- The condition on a row that the cursor adds. -/
def whereCursor (cursor : Option (WebhookCursor ι × WebhookRecord ι τ))
    (row : WebhookRecord ι τ) : Bool :=
  match cursor with
  | none => true
  | some (data, webhook) =>
    if data.reverse then
      webhook.createdAt < row.createdAt ||
        (row.createdAt == webhook.createdAt && webhook.id < row.id)
    else
      row.createdAt < webhook.createdAt ||
        (row.createdAt == webhook.createdAt && row.id < webhook.id)

/-- `cursor?.data.reverse ?? false` -/
def isReverse (cursor : Option (WebhookCursor ι × WebhookRecord ι τ)) : Bool :=
  match cursor with
  | some (data, _) => data.reverse
  | none => false

/-- `handler` of `find-many.ts`. The limit is not negative: what the query builder makes of a
    negative one is not modelled. -/
def findMany (db : Collation) (table : WebhookRecords ι τ) (userId : String)
    (args : FindManyInput ι) : WebhookPage ι τ :=
  let cursor := findCursor db table userId args.pagination.cursor
  let reverse := isReverse cursor
  let isFirstPage := cursor.isNone
  let rows := table.rows.filter fun row =>
    whereFilters db userId args.filters row && whereCursor cursor row
  let ordered :=
    if reverse then Keyset.ascending WebhookRecord.key rows
    else Keyset.descending WebhookRecord.key rows
  -- the +1 helps us determine if we have more data for pagination
  let result := ordered.take (args.pagination.limit + 1).toNat
  if (result.length : Int) > args.pagination.limit then
    let result := result.dropLast
    -- in reverse the extra row is before the page, and the cursor is after it
    { payload := if reverse then result.reverse else result
      hasNext := true
      hasPrev := !isFirstPage }
  else
    { payload := if reverse then result.reverse else result
      hasNext := if isFirstPage then false else reverse
      hasPrev := if isFirstPage then false else !reverse }

end Handler

/-! ## The dashboard -/

section Dashboard

variable {ι τ : Type}

/-- `getNextPageParam`: a cursor, or null. The ID of a missing row is the empty text, which is sent
    as no cursor at all. -/
def getNextPageParam (lastPage : WebhookPage ι τ) : Option (Nullish (WebhookCursor ι)) :=
  if lastPage.hasNext then
    match lastPage.payload.getLast? with
    | some row => some (.value ⟨row.id, false⟩)
    | none => some .null
  else none

/-- `getPreviousPageParam` -/
def getPreviousPageParam (firstPage : WebhookPage ι τ) : Option (Nullish (WebhookCursor ι)) :=
  if firstPage.hasPrev then
    match firstPage.payload.head? with
    | some row => some (.value ⟨row.id, true⟩)
    | none => some .null
  else none

end Dashboard

end BlockFeed.Native
