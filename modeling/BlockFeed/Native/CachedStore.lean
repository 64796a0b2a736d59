import BlockFeed.Native.BlockStore
import Mathlib.Logic.Function.Basic

/-!
# The redis-optimized block store

`RedisOptimizedBlockStore` writes to Redis and reads from Redis first. A range read asks the
wrapped store for what the cache did not have, in a second call: `CacheRead` is what is left
to do between the two calls, and `CacheRead.finish` is the second call together with the code
that combines the answers.

`StartFlushing` moves the earliest blocks from Redis to the wrapped store in three calls. A
`StoreState` holds both stores and the position of every flusher in `flushCache`; its actions
are the calls of flushers and writers, in any order.
-/

namespace BlockFeed.Native

/-- `cachedstore.RedisOptimizedBlockStore`. -/
structure RedisOptimizedBlockStore (β : Type) [LinearOrder (BlockDocument β)] where
  wrappedStore : TimescaleBlockStore β
  redisStore : RedisBlockStore β

/-- A read between its two calls. -/
inductive CacheRead (β : Type) where
  /-- the cache decided the answer -/
  | done (blocks : List (BlockDocument β))
  /-- `append(wrappedStore.GetBlocks(startHeight, endHeight), dirtyBlocks...)` -/
  | getBlocks (startHeight endHeight : UInt64) (dirtyBlocks : List (BlockDocument β))
  /-- `wrappedStore.GetLatestBlocks(limit)` -/
  | getLatestBlocks (limit : Int)
  /-- `append(dirtyBlocks, wrappedStore.GetBlocks(startHeight, endHeight)...)`, sorted -/
  | mergeBlocks (startHeight endHeight : UInt64) (dirtyBlocks : List (BlockDocument β))

/-- The call to the wrapped store and the combination of both answers. -/
def CacheRead.finish {β : Type} (wrappedStore : TimescaleBlockStore β) :
    CacheRead β → List (BlockDocument β)
  | .done blocks => blocks
  | .getBlocks startHeight endHeight dirtyBlocks =>
    wrappedStore.getBlocks startHeight endHeight ++ dirtyBlocks
  | .getLatestBlocks limit => wrappedStore.getLatestBlocks limit
  | .mergeBlocks startHeight endHeight dirtyBlocks =>
    -- slices.SortFunc with cmp.Compare(b.Height, a.Height)
    (dirtyBlocks ++ wrappedStore.getBlocks startHeight endHeight).mergeSort
      (fun a b => b.height ≤ a.height)

/-- Whether the second call has an answer. -/
def CacheRead.Answerable {β : Type} : CacheRead β → Prop
  | .done _ => True
  | .getBlocks startHeight endHeight _ => TimescaleBlockStore.Encodes startHeight endHeight
  | .getLatestBlocks _ => True
  | .mergeBlocks startHeight endHeight _ => TimescaleBlockStore.Encodes startHeight endHeight

namespace RedisOptimizedBlockStore

variable {β : Type} [LinearOrder (BlockDocument β)]

/-- Both stores before the first block. -/
def empty : RedisOptimizedBlockStore β := ⟨.empty, .empty⟩

/-- `PutBlocks` writes to Redis only. -/
def putBlocks (store : RedisOptimizedBlockStore β) (blocks : List (BlockDocument β)) :
    RedisOptimizedBlockStore β :=
  { store with redisStore := store.redisStore.putBlocks blocks }

/-- The first call of `GetBlocks`. -/
def readBlocks (store : RedisOptimizedBlockStore β) (startHeight endHeight : UInt64) :
    CacheRead β :=
  if startHeight > endHeight then .done []
  else
    -- wraps around to 0 for the range of all heights
    let numBlocks := endHeight - startHeight + 1
    if numBlocks ≤ 0 then .done []
    else
      let dirtyBlocks := store.redisStore.getBlocks startHeight endHeight
      if UInt64.ofNat dirtyBlocks.length = numBlocks then .done dirtyBlocks
      else
        match dirtyBlocks with
        | [] => .getBlocks startHeight endHeight []
        -- "the cache will always have blocks that are newer than those in the database"
        | b :: bs => .getBlocks startHeight (b.height - 1) (b :: bs)

/-- The first call of `GetLatestBlocks`. -/
def readLatestBlocks (store : RedisOptimizedBlockStore β) (limit : Int) : CacheRead β :=
  if limit ≤ 0 then .done []
  else
    let dirtyBlocks := store.redisStore.getLatestBlocks limit
    if (dirtyBlocks.length : Int) = limit then .done dirtyBlocks
    else
      match dirtyBlocks.getLast? with
      | none => .getLatestBlocks limit
      | some b =>
        -- the blocks descend, so this is the lowest of them
        let endHeight := b.height - 1
        let missing := UInt64.ofInt (limit - dirtyBlocks.length)
        .mergeBlocks (max 0 (endHeight - missing + 1)) endHeight dirtyBlocks

/-- `GetBlocks` with nothing happening between its two calls. -/
def getBlocks (store : RedisOptimizedBlockStore β) (startHeight endHeight : UInt64) :
    List (BlockDocument β) :=
  (store.readBlocks startHeight endHeight).finish store.wrappedStore

/-- `GetLatestBlocks` with nothing happening between its two calls. -/
def getLatestBlocks (store : RedisOptimizedBlockStore β) (limit : Int) :
    List (BlockDocument β) :=
  (store.readLatestBlocks limit).finish store.wrappedStore

/-- `GetLatestBlock`. -/
def getLatestBlock (store : RedisOptimizedBlockStore β) : Option (BlockDocument β) :=
  match store.redisStore.getLatestBlock with
  | some block => some block
  | none => store.wrappedStore.getLatestBlock

/-- A block is in the cache or in the wrapped store. -/
def Stored (store : RedisOptimizedBlockStore β) (b : BlockDocument β) : Prop :=
  b ∈ store.redisStore.blocks ∨ b ∈ store.wrappedStore.rows

instance [DecidableEq β] (store : RedisOptimizedBlockStore β) (b : BlockDocument β) :
    Decidable (store.Stored b) :=
  inferInstanceAs (Decidable (_ ∨ _))

theorem not_stored_empty (b : BlockDocument β) :
    ¬ (empty : RedisOptimizedBlockStore β).Stored b := by
  simp [Stored, empty]

theorem stored_putBlocks {store : RedisOptimizedBlockStore β} {bs : List (BlockDocument β)}
    {b : BlockDocument β} : (store.putBlocks bs).Stored b ↔ store.Stored b ∨ b ∈ bs := by
  simp only [Stored, putBlocks, RedisBlockStore.mem_putBlocks]
  exact or_right_comm

end RedisOptimizedBlockStore

/-! ## Flushing -/

/-- Where a flusher stands in `flushCache`: the next call it makes. -/
inductive Flusher (β : Type) where
  | getEarliestBlocks
  | putBlocks (blocks : List (BlockDocument β))
  | deleteBlocks (blocks : List (BlockDocument β))
deriving DecidableEq

/-- `opts.Threshold` as `StartFlushing` sets it. -/
def flushThreshold (threshold : Int) : Int := if threshold ≤ 0 then 100 else threshold

/-- Both stores and the flushers that work on them. -/
structure StoreState (φ β : Type) [LinearOrder (BlockDocument β)] where
  store : RedisOptimizedBlockStore β
  flushers : φ → Flusher β

/-- One call on the stores. A call that fails before it executes is a crash of its flusher; a
    call that fails after it executed is the call followed by the crash. -/
inductive StoreAction (φ β : Type) where
  | putBlocks (blocks : List (BlockDocument β))
  | flushRead (f : φ) (threshold : Int)
  | flushInsert (f : φ)
  | flushDelete (f : φ)
  | flushCrash (f : φ)

namespace StoreState

variable {φ β : Type} [DecidableEq φ] [LinearOrder (BlockDocument β)]

/-- Empty stores, every flusher at its start. -/
def init : StoreState φ β := ⟨.empty, fun _ => .getEarliestBlocks⟩

/-- Moves one flusher. -/
def setFlusher (s : StoreState φ β) (f : φ) (pc : Flusher β) : StoreState φ β :=
  { s with flushers := Function.update s.flushers f pc }

/-- Takes one action, `none` when the flusher is not at that call. -/
def step (s : StoreState φ β) : StoreAction φ β → Option (StoreState φ β)
  | .putBlocks blocks => some { s with store := s.store.putBlocks blocks }
  | .flushRead f threshold =>
    match s.flushers f with
    | .getEarliestBlocks =>
      -- fewer blocks than the threshold stay where they are until the next round
      let threshold := flushThreshold threshold
      let blocks := s.store.redisStore.getEarliestBlocks threshold
      if (blocks.length : Int) ≥ threshold then some (s.setFlusher f (.putBlocks blocks))
      else some s
    | _ => none
  | .flushInsert f =>
    match s.flushers f with
    | .putBlocks blocks =>
      let wrappedStore := s.store.wrappedStore.putBlocks blocks
      some { s.setFlusher f (.deleteBlocks blocks) with
        store := { s.store with wrappedStore := wrappedStore } }
    | _ => none
  | .flushDelete f =>
    match s.flushers f with
    | .deleteBlocks blocks =>
      let redisStore := s.store.redisStore.deleteBlocks blocks
      some { s.setFlusher f .getEarliestBlocks with
        store := { s.store with redisStore := redisStore } }
    | _ => none
  -- what the flusher held is forgotten, and the next one reads again
  | .flushCrash f => some (s.setFlusher f .getEarliestBlocks)

@[simp] theorem flushers_setFlusher_self (s : StoreState φ β) (f : φ) (pc : Flusher β) :
    (s.setFlusher f pc).flushers f = pc := by
  simp only [setFlusher, Function.update_self]

theorem flushers_setFlusher_ne (s : StoreState φ β) {f g : φ} (h : g ≠ f) (pc : Flusher β) :
    (s.setFlusher f pc).flushers g = s.flushers g := by
  simp only [setFlusher, Function.update_of_ne h]

/-- The blocks a flusher holds between its calls. -/
def held (s : StoreState φ β) (f : φ) : List (BlockDocument β) :=
  match s.flushers f with
  | .getEarliestBlocks => []
  | .putBlocks blocks => blocks
  | .deleteBlocks blocks => blocks

/-! ### One lemma for each action -/

theorem step_putBlocks {s s' : StoreState φ β} {bs : List (BlockDocument β)} :
    s.step (.putBlocks bs) = some s' ↔ s' = { s with store := s.store.putBlocks bs } := by
  simp only [step, Option.some.injEq]
  exact eq_comm

/-- A read leaves the stores alone; the flusher either holds the earliest blocks now or goes
    back to its timer. -/
theorem step_flushRead {s s' : StoreState φ β} {f : φ} {t : Int}
    (h : s.step (.flushRead f t) = some s') :
    s.flushers f = .getEarliestBlocks ∧
      (s' = s.setFlusher f (.putBlocks (s.store.redisStore.getEarliestBlocks (flushThreshold t)))
        ∨ s' = s) := by
  cases hf : s.flushers f with
  | getEarliestBlocks =>
    simp only [step, hf] at h
    split at h
    · exact ⟨rfl, .inl (Option.some.inj h).symm⟩
    · exact ⟨rfl, .inr (Option.some.inj h).symm⟩
  | putBlocks bs => simp [step, hf] at h
  | deleteBlocks bs => simp [step, hf] at h

theorem step_flushInsert {s s' : StoreState φ β} {f : φ}
    (h : s.step (.flushInsert f) = some s') :
    ∃ bs, s.flushers f = .putBlocks bs ∧
      s' = { s.setFlusher f (.deleteBlocks bs) with
        store := { s.store with wrappedStore := s.store.wrappedStore.putBlocks bs } } := by
  cases hf : s.flushers f with
  | getEarliestBlocks => simp [step, hf] at h
  | putBlocks bs =>
    simp only [step, hf] at h
    exact ⟨bs, rfl, (Option.some.inj h).symm⟩
  | deleteBlocks bs => simp [step, hf] at h

theorem step_flushDelete {s s' : StoreState φ β} {f : φ}
    (h : s.step (.flushDelete f) = some s') :
    ∃ bs, s.flushers f = .deleteBlocks bs ∧
      s' = { s.setFlusher f .getEarliestBlocks with
        store := { s.store with redisStore := s.store.redisStore.deleteBlocks bs } } := by
  cases hf : s.flushers f with
  | getEarliestBlocks => simp [step, hf] at h
  | putBlocks bs => simp [step, hf] at h
  | deleteBlocks bs =>
    simp only [step, hf] at h
    exact ⟨bs, rfl, (Option.some.inj h).symm⟩

theorem step_flushCrash {s s' : StoreState φ β} {f : φ} :
    s.step (.flushCrash f) = some s' ↔ s' = s.setFlusher f .getEarliestBlocks := by
  simp only [step, Option.some.injEq]
  exact eq_comm

end StoreState

end BlockFeed.Native
