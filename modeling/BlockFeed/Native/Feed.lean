import BlockFeed.Native.BlockRelay
import BlockFeed.Native.BlockRouter

/-!
# The block feed of one chain

A `Feed` is everything that works on one chain: the forwarder, the block stream, the router, the
block store with its flusher, and the shards with their relays. Its actions are the single calls
of these processes in any order.

`FeedStep` lists what an action does, and `stores_step` says which action of the block store it
is, so that results about the block store apply to the feed.
-/

namespace BlockFeed.Native

open Redis

/-- Where a forwarder's `main` stands. -/
inductive Forwarder where
  /-- the next call is the first half of `GetLatestBlock` -/
  | stopped
  /-- the cache was empty; the next call asks the wrapped store -/
  | readWrapped
  /-- the source has subscribed and delivers this height next -/
  | subscribed (currHeight : UInt64)
deriving DecidableEq, Repr

/-- All processes of one chain. -/
structure Feed (δ κ ι T β : Type) [LinearOrder T] [LinearOrder (BlockDocument β)] where
  forwarder : Forwarder
  blockStream : GroupStream Unit (BlockStreamMsgData β)
  router : BlockRouter δ β
  stores : StoreState Unit β
  shards : δ → RelayState κ ι T β

/-- A call of one of the processes. -/
inductive FeedAction (δ κ ι β : Type) where
  | forwarderReadCache
  /-- `tip` is where the source starts when no block is stored -/
  | forwarderReadWrapped (tip : UInt64)
  /-- the source delivers its next block -/
  | forward (block : β)
  | forwarderCrash
  /-- some other source delivers a block -/
  | xAdd (msg : BlockStreamMsgData β)
  | router (action : RouterAction δ)
  | flusher (action : StoreAction Unit β)
  | shard (d : δ) (action : RelayAction κ ι β)
  /-- a consumer's read of the block store -/
  | consumerReadCache (d : δ) (consumerName : κ)
  | consumerReadWrapped (d : δ) (consumerName : κ)

namespace Feed

variable {δ κ ι T β : Type} [DecidableEq δ] [DecidableEq κ] [DecidableEq ι] [LinearOrder T]
  [JobText ι T] [LinearOrder (BlockDocument β)]

/-- Nothing posted, nothing stored, every process at its start. -/
def init : Feed δ κ ι T β := ⟨.stopped, .empty, .start, .init, fun _ => .init⟩

/-- Carries out an effect of the router. -/
def applyEffect (s : Feed δ κ ι T β) : Option (Effect δ β) → Feed δ κ ι T β
  | some (.putBlocks blocks) =>
    { s with stores := { s.stores with store := s.stores.store.putBlocks blocks } }
  | some (.flush d height) =>
    { s with
      shards := Function.update s.shards d
        { s.shards d with shard := (s.shards d).shard.flush height } }
  | _ => s

/-- Runs an action of a shard. -/
def shardStep (s : Feed δ κ ι T β) (d : δ) (action : RelayAction κ ι β) :
    Option (Feed δ κ ι T β) :=
  match (s.shards d).step action with
  | none => none
  | some shard => some { s with shards := Function.update s.shards d shard }

/-- Takes one action, `none` when it is not enabled. The router alone writes to the block store
    and flushes shards; what a consumer reads comes from the block store. -/
def step (batchSize : Nat) (webhookStreams : List δ) (s : Feed δ κ ι T β) :
    FeedAction δ κ ι β → Option (Feed δ κ ι T β)
  | .forwarderReadCache =>
    match s.forwarder with
    | .stopped =>
      -- `GetLatestBlock` trusts the cache whenever it holds a block
      match s.stores.store.redisStore.getLatestBlock with
      | some block => some { s with forwarder := .subscribed block.height }
      | none => some { s with forwarder := .readWrapped }
    | _ => none
  | .forwarderReadWrapped tip =>
    match s.forwarder with
    | .readWrapped =>
      match s.stores.store.wrappedStore.getLatestBlock with
      -- the height that is stored already is posted once more
      | some block => some { s with forwarder := .subscribed block.height }
      | none => some { s with forwarder := .subscribed tip }
    | _ => none
  | .forward block =>
    match s.forwarder with
    | .subscribed currHeight =>
      some { s with
        blockStream := s.blockStream.xadd ⟨block, currHeight⟩
        forwarder := .subscribed (currHeight + 1) }
    | _ => none
  | .forwarderCrash => some { s with forwarder := .stopped }
  | .xAdd msg => some { s with blockStream := s.blockStream.xadd msg }
  | .router action =>
    match s.router.step batchSize webhookStreams s.blockStream action with
    | none => none
    | some (blockStream, router, effect) =>
      some ({ s with blockStream := blockStream, router := router }.applyEffect effect)
  -- writes and flushes are the router's, and answers come from the block store below
  | .flusher (.putBlocks _) => none
  | .flusher action =>
    match s.stores.step action with
    | none => none
    | some stores => some { s with stores := stores }
  | .shard _ (.flush _) => none
  | .shard _ (.consumer _ (.readCache _)) => none
  | .shard _ (.consumer _ (.readWrapped _)) => none
  | .shard d action => s.shardStep d action
  | .consumerReadCache d c =>
    match (s.shards d).consumers c with
    | ⟨.handler (msg :: _) _, .readCache webhook⟩ =>
      s.shardStep d (.consumer c (.readCache (relayRead s.stores.store msg.data webhook)))
    | _ => none
  | .consumerReadWrapped d c =>
    match (s.shards d).consumers c with
    | ⟨_, .readWrapped read⟩ =>
      s.shardStep d (.consumer c (.readWrapped (read.finish s.stores.store.wrappedStore)))
    | _ => none

/-- The message that an action adds to the block stream. -/
def postOf (s : Feed δ κ ι T β) : FeedAction δ κ ι β → Option (BlockStreamMsgData β)
  | .forward block =>
    match s.forwarder with
    | .subscribed currHeight => some ⟨block, currHeight⟩
    | _ => none
  | .xAdd msg => some msg
  | _ => none

/-- The effect of an action of the router. -/
def effectOf (batchSize : Nat) (webhookStreams : List δ) (s : Feed δ κ ι T β) :
    FeedAction δ κ ι β → Option (Effect δ β)
  | .router action =>
    match s.router.step batchSize webhookStreams s.blockStream action with
    | some (_, _, effect) => effect
    | none => none
  | _ => none

/-- What an action is for the block store. -/
def storeAction (batchSize : Nat) (webhookStreams : List δ) (s : Feed δ κ ι T β)
    (action : FeedAction δ κ ι β) : Option (StoreAction Unit β) :=
  match action, s.effectOf batchSize webhookStreams action with
  | .flusher a, _ => some a
  | _, some (.putBlocks blocks) => some (.putBlocks blocks)
  | _, _ => none

/-- What an action is for the shards, with what the block store answers. -/
def shardAction (s : Feed δ κ ι T β) : FeedAction δ κ ι β → Option (δ × RelayAction κ ι β)
  | .shard d action => some (d, action)
  | .consumerReadCache d c =>
    match (s.shards d).consumers c with
    | ⟨.handler (msg :: _) _, .readCache webhook⟩ =>
      some (d, .consumer c (.readCache (relayRead s.stores.store msg.data webhook)))
    | _ => none
  | .consumerReadWrapped d c =>
    match (s.shards d).consumers c with
    | ⟨_, .readWrapped read⟩ =>
      some (d, .consumer c (.readWrapped (read.finish s.stores.store.wrappedStore)))
    | _ => none
  | _ => none

omit [DecidableEq δ] [DecidableEq κ] [DecidableEq ι] [JobText ι T] in
theorem eq_of_shardAction {s : Feed δ κ ι T β} {action : FeedAction δ κ ι β} {d : δ}
    {a : RelayAction κ ι β} (h : s.shardAction action = some (d, a))
    (ha : ∀ c b, a ≠ .consumer c b) : action = .shard d a := by
  unfold shardAction at h
  split at h
  · cases h; rfl
  · split at h
    · cases h; exact absurd rfl (ha _ _)
    · cases h
  · split at h
    · cases h; exact absurd rfl (ha _ _)
    · cases h
  · cases h

end Feed

/-! ### The outcomes of an action -/

section Outcomes

variable {δ κ ι T β : Type} [DecidableEq δ] [DecidableEq κ] [DecidableEq ι] [LinearOrder T]
  [JobText ι T] [LinearOrder (BlockDocument β)]

/-- An action of a shard that is not left to the router, with what the block store answers. -/
def Answered (s : Feed δ κ ι T β) (d : δ) : RelayAction κ ι β → Prop
  | .flush _ => False
  | .consumer c (.readCache answer) =>
    ∃ msg msgs isBacklogMsg webhook,
      (s.shards d).consumers c = ⟨.handler (msg :: msgs) isBacklogMsg, .readCache webhook⟩ ∧
        answer = relayRead s.stores.store msg.data webhook
  | .consumer c (.readWrapped blocks) =>
    ∃ loop read, (s.shards d).consumers c = ⟨loop, .readWrapped read⟩ ∧
      blocks = read.finish s.stores.store.wrappedStore
  | _ => True

/-- What an action of the feed does. -/
inductive FeedStep (batchSize : Nat) (webhookStreams : List δ) (s : Feed δ κ ι T β) :
    FeedAction δ κ ι β → Feed δ κ ι T β → Prop where
  | latestCached (block : BlockDocument β) (h : s.forwarder = .stopped)
    (hlatest : s.stores.store.redisStore.getLatestBlock = some block) :
    FeedStep batchSize webhookStreams s .forwarderReadCache
      { s with forwarder := .subscribed block.height }
  | notCached (h : s.forwarder = .stopped)
    (hlatest : s.stores.store.redisStore.getLatestBlock = none) :
    FeedStep batchSize webhookStreams s .forwarderReadCache { s with forwarder := .readWrapped }
  | latestWrapped (tip : UInt64) (block : BlockDocument β) (h : s.forwarder = .readWrapped)
    (hlatest : s.stores.store.wrappedStore.getLatestBlock = some block) :
    FeedStep batchSize webhookStreams s (.forwarderReadWrapped tip)
      { s with forwarder := .subscribed block.height }
  | tip (tip : UInt64) (h : s.forwarder = .readWrapped)
    (hlatest : s.stores.store.wrappedStore.getLatestBlock = none) :
    FeedStep batchSize webhookStreams s (.forwarderReadWrapped tip)
      { s with forwarder := .subscribed tip }
  | forward (block : β) (currHeight : UInt64) (h : s.forwarder = .subscribed currHeight) :
    FeedStep batchSize webhookStreams s (.forward block)
      { s with
        blockStream := s.blockStream.xadd ⟨block, currHeight⟩
        forwarder := .subscribed (currHeight + 1) }
  | forwarderCrash :
    FeedStep batchSize webhookStreams s .forwarderCrash { s with forwarder := .stopped }
  | xAdd (msg : BlockStreamMsgData β) :
    FeedStep batchSize webhookStreams s (.xAdd msg)
      { s with blockStream := s.blockStream.xadd msg }
  | router (action : RouterAction δ) (blockStream : GroupStream Unit (BlockStreamMsgData β))
    (router : BlockRouter δ β) (effect : Option (Effect δ β))
    (heffect : s.effectOf batchSize webhookStreams (.router action) = effect)
    (hmove : RouterMove batchSize webhookStreams s.blockStream action s.router blockStream router
      effect) :
    FeedStep batchSize webhookStreams s (.router action)
      ({ s with blockStream := blockStream, router := router }.applyEffect effect)
  | flusher (action : StoreAction Unit β) (stores : StoreState Unit β)
    (hput : ∀ blocks, action ≠ .putBlocks blocks) (h : s.stores.step action = some stores) :
    FeedStep batchSize webhookStreams s (.flusher action) { s with stores := stores }
  | shard (action : FeedAction δ κ ι β) (d : δ) (a : RelayAction κ ι β)
    (shard : RelayState κ ι T β) (hanswered : Answered s d a)
    (haction : s.shardAction action = some (d, a)) (hpost : s.postOf action = none)
    (heffect : s.effectOf batchSize webhookStreams action = none)
    (hstore : s.storeAction batchSize webhookStreams action = none)
    (h : (s.shards d).step a = some shard) :
    FeedStep batchSize webhookStreams s action
      { s with shards := Function.update s.shards d shard }

private theorem shard_of_shardStep {s s' : Feed δ κ ι T β} {d : δ} {a : RelayAction κ ι β}
    (h : s.shardStep d a = some s') :
    ∃ shard, (s.shards d).step a = some shard ∧
      s' = { s with shards := Function.update s.shards d shard } := by
  unfold Feed.shardStep at h
  split at h
  · cases h
  · next shard hstep => cases h; exact ⟨shard, hstep, rfl⟩

theorem feedStep_of_step {batchSize : Nat} {webhookStreams : List δ} {s s' : Feed δ κ ι T β}
    {action : FeedAction δ κ ι β} (h : s.step batchSize webhookStreams action = some s') :
    FeedStep batchSize webhookStreams s action s' := by
  unfold Feed.step at h
  split at h
  · -- forwarderReadCache
    split at h
    · next hf =>
      split at h
      · next block hl => cases h; exact .latestCached block hf hl
      · next hl => cases h; exact .notCached hf hl
    · cases h
  · -- forwarderReadWrapped
    split at h
    · next hf =>
      split at h
      · next block hl => cases h; exact .latestWrapped _ block hf hl
      · next hl => cases h; exact .tip _ hf hl
    · cases h
  · -- forward
    split at h
    · next currHeight hf => cases h; exact .forward _ currHeight hf
    · cases h
  · cases h; exact .forwarderCrash
  · cases h; exact .xAdd _
  · -- router
    split at h
    · cases h
    · next blockStream router effect hr =>
      cases h
      apply FeedStep.router _ blockStream router effect _ (routerMove_of_step hr)
      simp only [Feed.effectOf, hr]
  · cases h
  · next action hput =>
    split at h
    · cases h
    · next stores hs => cases h; exact .flusher action stores hput hs
  · cases h
  · cases h
  · cases h
  · next d a hflush hcache hwrapped =>
    -- the actions of a shard that need no answer
    obtain ⟨shard, hs, rfl⟩ := shard_of_shardStep h
    apply FeedStep.shard _ d a shard _ rfl rfl rfl rfl hs
    unfold Answered
    split
    · next height => exact hflush height rfl
    · next c answer => exact absurd rfl (hcache c answer)
    · next c blocks => exact absurd rfl (hwrapped c blocks)
    · trivial
  · -- consumerReadCache
    split at h
    · next msg msgs isBacklogMsg webhook hc =>
      obtain ⟨shard, hs, rfl⟩ := shard_of_shardStep h
      apply FeedStep.shard _ _ _ shard _ (by simp only [Feed.shardAction, hc]) rfl rfl rfl hs
      exact ⟨msg, msgs, isBacklogMsg, webhook, hc, rfl⟩
    · cases h
  · -- consumerReadWrapped
    split at h
    · next loop read hc =>
      obtain ⟨shard, hs, rfl⟩ := shard_of_shardStep h
      apply FeedStep.shard _ _ _ shard _ (by simp only [Feed.shardAction, hc]) rfl rfl rfl hs
      exact ⟨loop, read, hc, rfl⟩
    · cases h

/-! ### The stores and the shards of a feed -/

omit [DecidableEq κ] [DecidableEq ι] [JobText ι T] in
@[simp] theorem blockStream_applyEffect (s : Feed δ κ ι T β) (effect : Option (Effect δ β)) :
    (s.applyEffect effect).blockStream = s.blockStream := by
  cases effect with
  | none => rfl
  | some effect => cases effect <;> rfl

omit [DecidableEq κ] [DecidableEq ι] [JobText ι T] in
@[simp] theorem router_applyEffect (s : Feed δ κ ι T β) (effect : Option (Effect δ β)) :
    (s.applyEffect effect).router = s.router := by
  cases effect with
  | none => rfl
  | some effect => cases effect <;> rfl

omit [DecidableEq κ] [DecidableEq ι] [JobText ι T] in
@[simp] theorem forwarder_applyEffect (s : Feed δ κ ι T β) (effect : Option (Effect δ β)) :
    (s.applyEffect effect).forwarder = s.forwarder := by
  cases effect with
  | none => rfl
  | some effect => cases effect <;> rfl

/-- An action of the feed is one of the block store or none. -/
theorem stores_step {batchSize : Nat} {webhookStreams : List δ} {s s' : Feed δ κ ι T β}
    {action : FeedAction δ κ ι β} (h : FeedStep batchSize webhookStreams s action s') :
    match s.storeAction batchSize webhookStreams action with
    | none => s'.stores = s.stores
    | some a => s.stores.step a = some s'.stores := by
  cases h with
  | router action blockStream router effect heffect hmove =>
    simp only [Feed.storeAction, heffect]
    cases effect with
    | none => rfl
    | some effect => cases effect <;> rfl
  | flusher action stores hput h => exact h
  | shard action d a shard hanswered haction hpost heffect hstore h => rw [hstore]
  | _ => rfl

/-- What an action is for one shard: nothing, a flush by the router, or an action of its own. -/
inductive ShardView (batchSize : Nat) (webhookStreams : List δ) (s s' : Feed δ κ ι T β)
    (action : FeedAction δ κ ι β) (d : δ) : Prop where
  | same (heffect : ∀ height, s.effectOf batchSize webhookStreams action ≠ some (.flush d height))
    (haction : ∀ a, s.shardAction action ≠ some (d, a)) (hshard : s'.shards d = s.shards d)
  | flush (height : UInt64)
    (heffect : s.effectOf batchSize webhookStreams action = some (.flush d height))
    (haction : ∀ a, s.shardAction action ≠ some (d, a))
    (hshard : s'.shards d = { s.shards d with shard := (s.shards d).shard.flush height })
  | relay (a : RelayAction κ ι β) (hanswered : Answered s d a)
    (haction : s.shardAction action = some (d, a))
    (heffect : s.effectOf batchSize webhookStreams action = none) (hstores : s'.stores = s.stores)
    (h : (s.shards d).step a = some (s'.shards d))

theorem shardView_of_feedStep {batchSize : Nat} {webhookStreams : List δ}
    {s s' : Feed δ κ ι T β} {action : FeedAction δ κ ι β}
    (h : FeedStep batchSize webhookStreams s action s') (d : δ) :
    ShardView batchSize webhookStreams s s' action d := by
  cases h with
  | router action blockStream router effect heffect hmove =>
    cases effect with
    | none => exact .same (by simp [heffect]) nofun rfl
    | some effect =>
      cases effect with
      | putBlocks blocks => exact .same (by simp [heffect]) nofun rfl
      | flush e height =>
        -- a flush of one shard is nothing to the others
        by_cases hd : d = e
        · subst hd
          exact .flush height heffect nofun (Function.update_self ..)
        · refine .same (fun height' heq => ?_) nofun (Function.update_of_ne hd ..)
          rw [heffect] at heq
          cases heq
          exact hd rfl
      | xAckDel msgIDs => exact .same (by simp [heffect]) nofun rfl
  | shard action e a shard hanswered haction hpost heffect hstore h =>
    by_cases hd : d = e
    · subst hd
      refine .relay a hanswered haction heffect rfl ?_
      show _ = some (Function.update s.shards d shard d)
      rw [Function.update_self]
      exact h
    · refine .same (by simp [heffect]) (fun a' heq => ?_) (Function.update_of_ne hd ..)
      rw [haction] at heq
      cases heq
      exact hd rfl
  | _ => exact .same (by simp [Feed.effectOf]) nofun rfl

end Outcomes

end BlockFeed.Native
