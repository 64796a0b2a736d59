import BlockFeed.Native.Feed

/-!
# The block forwarder

`main` of a forwarder asks the block store where to start and runs `BlockForwarder.Run`: a block
source whose handler adds each block to the block stream. A `ForwarderFeed` is a feed whose
forwarder is this process, with all calls of the source. `Feed` says of the same process only that
it posts one height after the other.
-/

namespace BlockFeed.Native

open Redis

/-- `blockforwarder.BlockSource`: what a source is in its `Subscribe`, call by call. -/
structure BlockSource (σ α β : Type) where
  /-- a new source for this height, at the start of `Subscribe` -/
  subscribe : Option UInt64 → σ
  /-- how a call, a receive or the handler comes out -/
  step : σ → α → Option σ
  /-- the block that the handler runs for -/
  handling : σ → Option (BlockDocument β)
  /-- the handler returns, and whether without an error -/
  handled : Bool → α

/-- Where `main` stands. -/
inductive ForwarderMain (σ : Type) where
  /-- the next call is the first half of `GetLatestBlock` -/
  | readCache
  /-- the cache was empty; the next call asks the wrapped store -/
  | readWrapped
  /-- in `Run` -/
  | running (source : σ)

/-- A feed with the process of a forwarder. The forwarder of `feed` does nothing. -/
structure ForwarderFeed (δ κ ι T σ β : Type) [LinearOrder T] [LinearOrder (BlockDocument β)] where
  main : ForwarderMain σ
  feed : Feed δ κ ι T β

/-- A call of one of the processes. -/
inductive ForwarderFeedAction (δ κ ι α β : Type) where
  | readCache
  | readWrapped
  /-- a call or a receive of the source, its handler apart -/
  | source (action : α)
  /-- the handler's `XAdd` -/
  | xAdd (outcome : CallOutcome)
  /-- `main` ends or is stopped, and is started again -/
  | crash
  /-- a call of another process -/
  | other (action : FeedAction δ κ ι β)

namespace ForwarderFeed

variable {δ κ ι T σ α β : Type} [DecidableEq δ] [DecidableEq κ] [DecidableEq ι] [LinearOrder T]
  [JobText ι T] [LinearOrder (BlockDocument β)]

/-- Nothing posted, nothing stored, every process at its start. -/
def init : ForwarderFeed δ κ ι T σ β := ⟨.readCache, .init⟩

/-- `startHeight` and `Run`. -/
def startRun (source : BlockSource σ α β) (lastProcessedBlock : Option (BlockDocument β)) :
    ForwarderMain σ :=
  .running (source.subscribe (lastProcessedBlock.map BlockDocument.height))

/-- An action of the forwarder in `Feed`. -/
def isForwarder : FeedAction δ κ ι β → Bool
  | .forwarderReadCache | .forwarderReadWrapped _ | .forward _ | .forwarderCrash => true
  | _ => false

/-- Takes one action, `none` when it is not enabled. -/
def step (source : BlockSource σ α β) (batchSize : Nat) (webhookStreams : List δ)
    (s : ForwarderFeed δ κ ι T σ β) :
    ForwarderFeedAction δ κ ι α β → Option (ForwarderFeed δ κ ι T σ β)
  | .readCache =>
    match s.main with
    | .readCache =>
      match s.feed.stores.store.redisStore.getLatestBlock with
      | some block => some { s with main := startRun source (some block) }
      | none => some { s with main := .readWrapped }
    | _ => none
  | .readWrapped =>
    match s.main with
    | .readWrapped =>
      some { s with main := startRun source s.feed.stores.store.wrappedStore.getLatestBlock }
    | _ => none
  | .source action =>
    match s.main with
    | .running src =>
      match source.handling src, source.step src action with
      | none, some src => some { s with main := .running src }
      | _, _ => none
    | _ => none
  | .xAdd outcome =>
    match s.main with
    | .running src =>
      -- the handler returns what `XAdd` returns
      match source.handling src, source.step src (source.handled outcome.succeeds) with
      | some block, some src =>
        let blockStream :=
          if outcome.executes then s.feed.blockStream.xadd ⟨block.data, block.height⟩
          else s.feed.blockStream
        some ⟨.running src, { s.feed with blockStream := blockStream }⟩
      | _, _ => none
    | _ => none
  | .crash => some { s with main := .readCache }
  | .other action =>
    if isForwarder action then none
    else
      match s.feed.step batchSize webhookStreams action with
      | none => none
      | some feed => some { s with feed := feed }

/-- The calls of the other processes. -/
def others : ForwarderFeedAction δ κ ι α β → Option (FeedAction δ κ ι β)
  | .other action => some action
  | _ => none

end ForwarderFeed

end BlockFeed.Native
