import BlockFeed.Native.BlockRelay
import BlockFeed.Native.BlockRouter
import Mathlib.Data.List.AList

/-!
# The activate handler of the dashboard

The handler reads the inactive rows of the IDs it is given, groups them by the shard they belong
to, and starts one promise for each group: first the activation script on the shard, then, if the
script returned no error, an update of the rows. `ActivationState` holds the rows, all shards with
the consumers of their relays, and the promises that are still running. Its actions are the calls
of the handler and the single steps of promises and relays, in any order.

`ActivationState.handler` is a call that runs by itself and in which no service fails.
-/

namespace BlockFeed.Native

/-- A shard of a cluster: the keys that start with `block-feed:{s${shardId}}`. -/
structure ShardKey where
  redisClusterUrl : String
  shardId : Int
deriving DecidableEq, Repr

/-- A row of `webhook`, with the cluster of its blockchain. -/
structure WebhookRow (ι : Type) where
  id : ι
  customerId : String
  isActive : Bool
  shardId : Int
  redisClusterUrl : String
  /-- what the relay reads of the row -/
  webhook : Webhook
deriving DecidableEq

/-- The shard of a webhook. -/
def WebhookRow.key {ι : Type} (row : WebhookRow ι) : ShardKey := ⟨row.redisClusterUrl, row.shardId⟩

/-- The table `webhook`; `id` is its primary key. -/
structure WebhookTable (ι : Type) where
  rows : List (WebhookRow ι)
  nodup : (rows.map WebhookRow.id).Nodup

namespace WebhookTable

variable {ι : Type} [DecidableEq ι]

/-- `webhook.findMany` of the inactive rows. -/
def findMany (table : WebhookTable ι) (customerId : String) (ids : List ι) :
    List (WebhookRow ι) :=
  table.rows.filter fun row => row.customerId = customerId ∧ row.isActive = false ∧ row.id ∈ ids

/-- One row of the update `isActive: 1`. -/
def activateRow (customerId : String) (webhookIds : List ι) (row : WebhookRow ι) : WebhookRow ι :=
  if row.customerId = customerId ∧ row.id ∈ webhookIds then { row with isActive := true } else row

/-- The update. -/
def activate (table : WebhookTable ι) (customerId : String) (webhookIds : List ι) :
    WebhookTable ι where
  rows := table.rows.map (activateRow customerId webhookIds)
  nodup := by
    have hid : WebhookRow.id ∘ activateRow customerId webhookIds = WebhookRow.id := by
      funext row
      simp only [Function.comp_apply, activateRow]
      split <;> rfl
    rw [List.map_map, hid]
    exact table.nodup

/-- `WebhooksFindOne` of the relay. -/
def findOne (table : WebhookTable ι) (id : ι) : Option Webhook :=
  (table.rows.find? fun row => row.id = id).map WebhookRow.webhook

@[simp] theorem activateRow_id (customerId : String) (webhookIds : List ι) (row : WebhookRow ι) :
    (activateRow customerId webhookIds row).id = row.id := by
  unfold activateRow
  split <;> rfl

@[simp] theorem activateRow_key (customerId : String) (webhookIds : List ι) (row : WebhookRow ι) :
    (activateRow customerId webhookIds row).key = row.key := by
  unfold activateRow
  split <;> rfl

@[simp] theorem activateRow_customerId (customerId : String) (webhookIds : List ι)
    (row : WebhookRow ι) : (activateRow customerId webhookIds row).customerId = row.customerId := by
  unfold activateRow
  split <;> rfl

theorem activateRow_isActive {customerId : String} {webhookIds : List ι} {row : WebhookRow ι} :
    (activateRow customerId webhookIds row).isActive = true ↔
      row.isActive = true ∨ row.customerId = customerId ∧ row.id ∈ webhookIds := by
  unfold activateRow
  split
  · next h => simp [h]
  · next h => simp [h]

theorem mem_findMany {table : WebhookTable ι} {customerId : String} {ids : List ι}
    {row : WebhookRow ι} : row ∈ table.findMany customerId ids ↔
      row ∈ table.rows ∧ row.customerId = customerId ∧ row.isActive = false ∧ row.id ∈ ids := by
  rw [findMany, List.mem_filter, decide_eq_true_eq]

/-- The relay does not see the update. -/
@[simp] theorem findOne_activate (table : WebhookTable ι) (customerId : String)
    (webhookIds : List ι) : (table.activate customerId webhookIds).findOne = table.findOne := by
  funext id
  have hsame : (fun row : WebhookRow ι => decide (row.id = id)) ∘ activateRow customerId webhookIds
      = fun row => decide (row.id = id) := by
    funext row
    simp only [Function.comp_apply, activateRow_id]
  simp only [findOne, activate, List.find?_map, hsame, Option.map_map]
  refine congrArg (Option.map · _) ?_
  funext row
  simp only [Function.comp_apply, activateRow]
  split <;> rfl

/-- The relay finds the webhook of every row. -/
theorem findOne_ne_none {table : WebhookTable ι} {row : WebhookRow ι} (h : row ∈ table.rows) :
    table.findOne row.id ≠ none := by
  rw [findOne, ne_eq, Option.map_eq_none_iff, List.find?_eq_none]
  exact fun hall => hall row h (decide_eq_true rfl)

omit [DecidableEq ι] in
/-- Rows have IDs of their own. -/
theorem row_unique (table : WebhookTable ι) {a b : WebhookRow ι} (ha : a ∈ table.rows)
    (hb : b ∈ table.rows) (h : a.id = b.id) : a = b :=
  List.inj_on_of_nodup_map table.nodup ha hb h

end WebhookTable

/-! ## Groups -/

/-- The webhooks of one promise. -/
structure ShardGroup (ι : Type) where
  key : ShardKey
  webhookIds : List ι
deriving DecidableEq

/-- `clusterMap`: Redis Cluster URL -> Shard ID -> Webhook IDs. The order of its entries is the
    order in which the promises start, and they run in any order. -/
abbrev ClusterMap (ι : Type) : Type := AList fun _ : String => AList fun _ : Int => List ι

namespace ClusterMap

variable {ι : Type}

/-- Adds one row to the map. -/
def add (clusterMap : ClusterMap ι) (result : WebhookRow ι) : ClusterMap ι :=
  match clusterMap.lookup result.redisClusterUrl with
  | none =>
    -- `new Map` with one entry
    clusterMap.insert result.redisClusterUrl (AList.insert result.shardId [result.id] ∅)
  | some shards =>
    let webhookIds :=
      match shards.lookup result.shardId with
      | none => [result.id]
      | some webhookIds => webhookIds ++ [result.id]
    clusterMap.insert result.redisClusterUrl (shards.insert result.shardId webhookIds)

/-- The map of all rows. -/
def ofResults (results : List (WebhookRow ι)) : ClusterMap ι := results.foldl add ∅

/-- The IDs of a shard. -/
def get (clusterMap : ClusterMap ι) (key : ShardKey) : Option (List ι) :=
  (clusterMap.lookup key.redisClusterUrl).bind fun shards => shards.lookup key.shardId

/-- One group for each shard. -/
def groups (clusterMap : ClusterMap ι) : List (ShardGroup ι) :=
  clusterMap.entries.flatMap fun cluster =>
    cluster.2.entries.map fun shard => ⟨⟨cluster.1, shard.1⟩, shard.2⟩

theorem mem_groups {clusterMap : ClusterMap ι} {group : ShardGroup ι} :
    group ∈ clusterMap.groups ↔ clusterMap.get group.key = some group.webhookIds := by
  obtain ⟨⟨url, shardId⟩, webhookIds⟩ := group
  have hget : clusterMap.get ⟨url, shardId⟩ = some webhookIds ↔
      ∃ shards, clusterMap.lookup url = some shards ∧ shards.lookup shardId = some webhookIds :=
    Option.bind_eq_some_iff
  rw [hget, groups, List.mem_flatMap]
  constructor
  · rintro ⟨cluster, hcluster, hmem⟩
    obtain ⟨shard, hshard, heq⟩ := List.mem_map.1 hmem
    cases heq
    exact ⟨cluster.2, AList.mem_lookup_iff.2 hcluster, AList.mem_lookup_iff.2 hshard⟩
  · rintro ⟨shards, hcluster, hshard⟩
    exact ⟨⟨url, shards⟩, AList.mem_lookup_iff.1 hcluster,
      List.mem_map.2 ⟨⟨shardId, webhookIds⟩, AList.mem_lookup_iff.1 hshard, rfl⟩⟩

private theorem lookup_insert {α ν : Type} [DecidableEq α] (m : AList fun _ : α => ν) (a b : α)
    (v : ν) : (m.insert a v).lookup b = if a = b then some v else m.lookup b := by
  by_cases h : a = b
  · rw [if_pos h, ← h, AList.lookup_insert]
  · rw [if_neg h, AList.lookup_insert_ne (Ne.symm h)]

/-- A row goes to the end of its shard. -/
theorem get_add (clusterMap : ClusterMap ι) (result : WebhookRow ι) (key : ShardKey) :
    (clusterMap.add result).get key =
      if result.key = key then some ((clusterMap.get key).getD [] ++ [result.id])
      else clusterMap.get key := by
  obtain ⟨url, shardId⟩ := key
  simp only [WebhookRow.key, ShardKey.mk.injEq, get]
  by_cases hurl : result.redisClusterUrl = url
  · subst hurl
    -- the cluster of the row, whether it has an entry yet or not
    have hcluster : (clusterMap.add result).lookup result.redisClusterUrl =
        some (((clusterMap.lookup result.redisClusterUrl).getD ∅).insert result.shardId
          ((((clusterMap.lookup result.redisClusterUrl).getD ∅).lookup result.shardId).getD []
            ++ [result.id])) := by
      unfold add
      cases clusterMap.lookup result.redisClusterUrl with
      | none => rw [AList.lookup_insert]; rfl
      | some shards =>
        simp only [AList.lookup_insert, Option.getD_some]
        cases shards.lookup result.shardId <;> rfl
    rw [hcluster, Option.bind_some, lookup_insert]
    simp only [true_and]
    by_cases hshard : result.shardId = shardId
    · subst hshard
      rw [if_pos rfl, if_pos rfl]
      cases clusterMap.lookup result.redisClusterUrl <;> rfl
    · rw [if_neg hshard, if_neg hshard]
      cases clusterMap.lookup result.redisClusterUrl <;> rfl
  · -- another cluster
    have hother : (clusterMap.add result).lookup url = clusterMap.lookup url := by
      unfold add
      cases clusterMap.lookup result.redisClusterUrl with
      | none => exact AList.lookup_insert_ne (Ne.symm hurl)
      | some shards => exact AList.lookup_insert_ne (Ne.symm hurl)
    rw [hother, if_neg (fun h => hurl h.1)]

/-- The map holds the IDs of each shard in the order of the rows. -/
theorem get_ofResults (results : List (WebhookRow ι)) (key : ShardKey) :
    (ofResults results).get key =
      if ∃ row ∈ results, row.key = key then
        some ((results.filter fun row => row.key = key).map WebhookRow.id)
      else none := by
  induction results using List.reverseRecOn with
  | nil => simp [ofResults, get]
  | append_singleton results row ih =>
    have hadd : ofResults (results ++ [row]) = (ofResults results).add row := by
      rw [ofResults, List.foldl_append]
      rfl
    rw [hadd, get_add, ih, List.filter_append, List.map_append]
    by_cases hrow : row.key = key
    · have hin : ∃ r ∈ results ++ [row], r.key = key :=
        ⟨row, List.mem_append_right _ (List.mem_singleton.2 rfl), hrow⟩
      have hfilter : [row].filter (fun row => row.key = key) = [row] := by
        rw [List.filter_eq_self]
        exact fun r hr => decide_eq_true (List.mem_singleton.1 hr ▸ hrow)
      rw [if_pos hrow, if_pos hin, hfilter]
      split
      · rfl
      · next hnone =>
        have hnil : results.filter (fun row => row.key = key) = [] :=
          List.filter_eq_nil_iff.2 fun r hr hkey => hnone ⟨r, hr, of_decide_eq_true hkey⟩
        rw [hnil]
        rfl
    · have hin : (∃ r ∈ results ++ [row], r.key = key) ↔ ∃ r ∈ results, r.key = key := by
        simp only [List.mem_append, List.mem_singleton, or_and_right, exists_or, exists_eq_left,
          hrow, or_false]
      have hfilter : [row].filter (fun row => row.key = key) = [] := by
        rw [List.filter_eq_nil_iff]
        exact fun r hr hkey => hrow (List.mem_singleton.1 hr ▸ of_decide_eq_true hkey)
      simp only [if_neg hrow, hin, hfilter, List.map_nil, List.append_nil]

/-- Each shard has one group only. -/
theorem groups_nodup (clusterMap : ClusterMap ι) :
    (clusterMap.groups.map ShardGroup.key).Nodup := by
  rw [groups, List.map_flatMap, List.nodup_flatMap]
  constructor
  · intro cluster _
    rw [List.map_map]
    have hkeys : (cluster.2.entries.map Sigma.fst).Nodup := cluster.2.keys_nodup
    have hinj : Function.Injective fun shardId => ShardKey.mk cluster.1 shardId := by
      intro a b hab
      exact (ShardKey.mk.injEq .. ▸ hab).2
    have hmap := hkeys.map hinj
    rw [List.map_map] at hmap
    exact hmap
  · -- the shards of two clusters differ in the URL
    have hkeys : (clusterMap.entries.map Sigma.fst).Nodup := clusterMap.keys_nodup
    refine (List.pairwise_map.1 hkeys).imp fun hne => ?_
    intro key hkey hkey'
    obtain ⟨group, hgroup, rfl⟩ := List.mem_map.1 hkey
    obtain ⟨shard, -, rfl⟩ := List.mem_map.1 hgroup
    obtain ⟨group', hgroup', heq⟩ := List.mem_map.1 hkey'
    obtain ⟨shard', -, rfl⟩ := List.mem_map.1 hgroup'
    exact hne (congrArg ShardKey.redisClusterUrl heq).symm

end ClusterMap

/-! ## Calls of the handler -/

/-- The next call of a promise. -/
inductive ActivateCall where
  | activate
  | update
deriving DecidableEq, Repr

/-- A promise that has not settled. -/
structure ActivateTask (ι : Type) where
  customerId : String
  group : ShardGroup ι
  call : ActivateCall
deriving DecidableEq

/-- The rows, the shards with the consumers of their relays, and the promises. -/
structure ActivationState (κ ι T β : Type) [LinearOrder T] where
  table : WebhookTable ι
  shards : ShardKey → Shard κ ι T
  consumers : ShardKey → κ → RelayConsumer ι β
  running : List (ActivateTask ι)

/-- What happens to them. -/
inductive ActivationAction (κ ι β : Type) where
  /-- a call of the handler starts its promises -/
  | start (customerId : String) (ids : List ι)
  | activate (task : ActivateTask ι) (outcome : CallOutcome)
  | update (task : ActivateTask ι) (outcome : CallOutcome)
  | flush (key : ShardKey) (height : UInt64)
  | consumer (key : ShardKey) (consumerName : κ) (action : ConsumerAction β)

section Handler

variable {κ ι T β : Type} [DecidableEq κ] [DecidableEq ι] [LinearOrder T] [JobText ι T]

/-- The activation script returns no error. It fails on no IDs and, when all of them are members,
    in ZADD, which gets no jobs. -/
def Shard.activateSucceeds (shard : Shard κ ι T) (ids : List ι) : Bool :=
  ids.any fun id => id ∉ shard.webhookSet

namespace ActivationState

/-- No row is active, no shard is in use. -/
def init (table : WebhookTable ι) : ActivationState κ ι T β :=
  ⟨table, fun _ => .empty, fun _ _ => .start, []⟩

/-- A shard as its relay sees it. -/
def relay (s : ActivationState κ ι T β) (key : ShardKey) : RelayState κ ι T β :=
  ⟨s.shards key, s.table.findOne, s.consumers key⟩

/-- The groups of a call. -/
def groups (s : ActivationState κ ι T β) (customerId : String) (ids : List ι) :
    List (ShardGroup ι) :=
  (ClusterMap.ofResults (s.table.findMany customerId ids)).groups

/-- `redisClusterProvider.client.activate`, and whether the promise goes on. -/
def activate (s : ActivationState κ ι T β) (group : ShardGroup ι) (outcome : CallOutcome) :
    ActivationState κ ι T β × Bool :=
  let shard := s.shards group.key
  let shards := Function.update s.shards group.key (shard.activate group.webhookIds)
  (if outcome.executes then { s with shards := shards } else s,
    outcome.succeeds && shard.activateSucceeds group.webhookIds)

/-- The update of the rows, and whether the promise is fulfilled. -/
def update (s : ActivationState κ ι T β) (customerId : String) (group : ShardGroup ι)
    (outcome : CallOutcome) : ActivationState κ ι T β × Bool :=
  let table := s.table.activate customerId group.webhookIds
  (if outcome.executes then { s with table := table } else s, outcome.succeeds)

/-- Takes one action, `none` when it is not enabled. -/
def step (s : ActivationState κ ι T β) :
    ActivationAction κ ι β → Option (ActivationState κ ι T β)
  | .start customerId ids =>
    let tasks := (s.groups customerId ids).map fun group => ⟨customerId, group, .activate⟩
    some { s with running := s.running ++ tasks }
  | .activate task outcome =>
    if task ∈ s.running ∧ task.call = .activate then
      let (s', continues) := s.activate task.group outcome
      let rest := s.running.erase task
      some { s' with running := if continues then { task with call := .update } :: rest else rest }
    else none
  | .update task outcome =>
    if task ∈ s.running ∧ task.call = .update then
      -- either way the promise has settled
      let (s', _) := s.update task.customerId task.group outcome
      some { s' with running := s.running.erase task }
    else none
  | .flush key height =>
    some { s with shards := Function.update s.shards key ((s.shards key).flush height) }
  | .consumer key c action =>
    match (s.relay key).step (.consumer c action) with
    | none => none
    | some relay =>
      some { s with
        shards := Function.update s.shards key relay.shard
        consumers := Function.update s.consumers key relay.consumers }

/-- A promise whose calls do not fail. -/
def settle (customerId : String) (s : ActivationState κ ι T β) (group : ShardGroup ι) :
    ActivationState κ ι T β × Bool :=
  match s.activate group .ok with
  | (s, false) => (s, false)
  | (s, true) => s.update customerId group .ok

/-- `Promise.allSettled`: whether all promises were fulfilled. -/
def allSettled (customerId : String) :
    ActivationState κ ι T β → List (ShardGroup ι) → ActivationState κ ι T β × Bool
  | s, [] => (s, true)
  | s, group :: groups =>
    let (s, fulfilled) := settle customerId s group
    let (s, rest) := allSettled customerId s groups
    (s, fulfilled && rest)

/-- The handler, with its count, or `none` when it throws. -/
def handler (s : ActivationState κ ι T β) (customerId : String) (ids : List ι) :
    ActivationState κ ι T β × Option Nat :=
  if ids.isEmpty then (s, some 0)
  else if (s.table.findMany customerId ids).isEmpty then (s, some 0)
  else
    match allSettled customerId s (s.groups customerId ids) with
    | (s, true) => (s, some 1)
    | (s, false) => (s, none)

omit [DecidableEq κ] [JobText ι T] in
/-- A group holds the inactive rows of its shard. -/
theorem mem_groups {s : ActivationState κ ι T β} {customerId : String} {ids : List ι}
    {group : ShardGroup ι} : group ∈ s.groups customerId ids ↔
      (∃ row ∈ s.table.findMany customerId ids, row.key = group.key) ∧
        group.webhookIds = ((s.table.findMany customerId ids).filter
          fun row => row.key = group.key).map WebhookRow.id := by
  rw [groups, ClusterMap.mem_groups, ClusterMap.get_ofResults]
  split
  · next h => rw [and_iff_right h, Option.some.injEq, eq_comm]
  · next h => simp [h]

end ActivationState

end Handler

end BlockFeed.Native
