import BlockFeed.Native.Feed
import BlockFeed.Spec.FlushSafety

/-!
# What a feed has done

Messages leave the block stream and flushes leave no trace, so results about a whole run of a
feed speak about its history: the messages posted, with their IDs, and the effects executed, in
order. `feedHistory` runs a feed and records them.

`streamView_of_feedStep` is what a step means for the block stream and the router, and
`stores_of_history` turns a run of the feed into one of its block store.
-/

namespace BlockFeed.Spec

open BlockFeed.Native Redis Transition

/-- Something that happened in a feed. -/
inductive Event (δ β : Type) where
  | posted (id : Nat) (msg : BlockStreamMsgData β)
  | executed (effect : Effect δ β)

/-- The blocks that have been put, in order. -/
def blocksPut {δ β : Type} (log : List (Event δ β)) : List (BlockDocument β) :=
  log.flatMap fun
    | .executed (.putBlocks blocks) => blocks
    | _ => []

@[simp] theorem blocksPut_append {δ β : Type} (log more : List (Event δ β)) :
    blocksPut (log ++ more) = blocksPut log ++ blocksPut more := List.flatMap_append

section History

variable {δ κ ι T β : Type} [DecidableEq δ] [DecidableEq κ] [DecidableEq ι] [LinearOrder T]
  [JobText ι T] [LinearOrder (BlockDocument β)]

/-- What an action adds to the history. -/
def events (batchSize : Nat) (webhookStreams : List δ) (s : Feed δ κ ι T β)
    (action : FeedAction δ κ ι β) : List (Event δ β) :=
  ((s.postOf action).map (.posted (s.blockStream.lastId + 1))).toList ++
    ((s.effectOf batchSize webhookStreams action).map .executed).toList

omit [DecidableEq κ] [DecidableEq ι] [JobText ι T] in
theorem mem_events_executed {batchSize : Nat} {webhookStreams : List δ} {s : Feed δ κ ι T β}
    {action : FeedAction δ κ ι β} {effect : Effect δ β} :
    .executed effect ∈ events batchSize webhookStreams s action ↔
      s.effectOf batchSize webhookStreams action = some effect := by
  simp [events]

omit [DecidableEq κ] [DecidableEq ι] [JobText ι T] in
/-- An action with an effect posts nothing. -/
theorem events_of_effect {batchSize : Nat} {webhookStreams : List δ} {s : Feed δ κ ι T β}
    {action : FeedAction δ κ ι β} {effect : Effect δ β}
    (h : s.effectOf batchSize webhookStreams action = some effect) :
    events batchSize webhookStreams s action = [.executed effect] := by
  cases action with
  | router a => simp [events, h, Feed.postOf]
  | _ => simp [Feed.effectOf] at h

/-- A feed and its history. -/
def feedHistory (batchSize : Nat) (webhookStreams : List δ) :
    Feed δ κ ι T β × List (Event δ β) → FeedAction δ κ ι β →
      Option (Feed δ κ ι T β × List (Event δ β)) :=
  recorded (Feed.step batchSize webhookStreams) (events batchSize webhookStreams)

/-- Recording changes nothing: the runs with a history are the runs of the feed. -/
theorem run_feedHistory {batchSize : Nat} {webhookStreams : List δ}
    {as : List (FeedAction δ κ ι β)} {s : Feed δ κ ι T β} :
    (∃ log, run (feedHistory batchSize webhookStreams) (.init, []) as = some (s, log)) ↔
      run (Feed.step batchSize webhookStreams) .init as = some s := run_recorded

/-- What a step is for the block stream and the router. -/
inductive StreamView (batchSize : Nat) (webhookStreams : List δ) (s s' : Feed δ κ ι T β) :
    FeedAction δ κ ι β → List (Event δ β) → Prop where
  | same (action : FeedAction δ κ ι β) (hstream : s'.blockStream = s.blockStream)
    (hrouter : s'.router = s.router) : StreamView batchSize webhookStreams s s' action []
  | posted (action : FeedAction δ κ ι β) (msg : BlockStreamMsgData β)
    (hstream : s'.blockStream = s.blockStream.xadd msg) (hrouter : s'.router = s.router) :
    StreamView batchSize webhookStreams s s' action [.posted (s.blockStream.lastId + 1) msg]
  | router (action : RouterAction δ) (effect : Option (Effect δ β))
    (hmove : RouterMove batchSize webhookStreams s.blockStream action s.router s'.blockStream
      s'.router effect) :
    StreamView batchSize webhookStreams s s' (.router action) (effect.map .executed).toList

theorem streamView_of_feedStep {batchSize : Nat} {webhookStreams : List δ}
    {s s' : Feed δ κ ι T β} {action : FeedAction δ κ ι β}
    (h : FeedStep batchSize webhookStreams s action s') :
    StreamView batchSize webhookStreams s s' action
      (events batchSize webhookStreams s action) := by
  cases h with
  | forward block currHeight h =>
    have hpost : s.postOf (.forward block : FeedAction δ κ ι β) = some ⟨block, currHeight⟩ := by
      simp only [Feed.postOf, h]
    simp only [events, hpost, Feed.effectOf]
    exact .posted _ _ rfl rfl
  | xAdd msg => exact .posted _ msg rfl rfl
  | router action blockStream router effect heffect hmove =>
    -- carrying out the effect touches neither the stream nor the router
    simp only [events, heffect, Feed.postOf]
    apply StreamView.router action effect
    rw [blockStream_applyEffect, router_applyEffect]
    exact hmove
  | shard action d a shard hanswered haction hpost heffect hstore h =>
    simp only [events, hpost, heffect]
    exact .same _ rfl rfl
  | _ => exact .same _ rfl rfl

/-- What a step puts. -/
theorem blocksPut_events {batchSize : Nat} {webhookStreams : List δ} {s s' : Feed δ κ ι T β}
    {action : FeedAction δ κ ι β} (h : FeedStep batchSize webhookStreams s action s') :
    blocksPut (events batchSize webhookStreams s action) =
      written (s.storeAction batchSize webhookStreams action).toList := by
  cases h with
  | forward block currHeight h => simp [events, blocksPut, Feed.postOf, h, written,
      Feed.storeAction, Feed.effectOf]
  | router action blockStream router effect heffect hmove =>
    simp only [events, Feed.storeAction, heffect, Feed.postOf]
    cases effect with
    | none => rfl
    | some effect => cases effect <;> rfl
  | flusher action stores hput h =>
    -- the flusher moves blocks, but it puts none into the block store as a whole
    cases action with
    | putBlocks blocks => exact absurd rfl (hput blocks)
    | _ => rfl
  | shard action d a shard hanswered haction hpost heffect hstore h =>
    simp only [events, hpost, heffect, hstore]
    rfl
  | _ => rfl

theorem feedStep_of_history {batchSize : Nat} {webhookStreams : List δ} {s s' : Feed δ κ ι T β}
    {log log' : List (Event δ β)} {action : FeedAction δ κ ι β}
    (h : feedHistory batchSize webhookStreams (s, log) action = some (s', log')) :
    FeedStep batchSize webhookStreams s action s' ∧
      log' = log ++ events batchSize webhookStreams s action := by
  obtain ⟨hstep, hlog⟩ := recorded_eq_some.1 h
  exact ⟨feedStep_of_step hstep, hlog⟩

/-- The block store of a feed has been reached by a run of its own, which put what the history
    says. -/
def StoresReached (s : Feed δ κ ι T β) (log : List (Event δ β)) : Prop :=
  ∃ bs, run StoreState.step .init bs = some s.stores ∧ written bs = blocksPut log

omit [DecidableEq δ] [DecidableEq κ] [DecidableEq ι] [JobText ι T] in
theorem storesReached_init :
    StoresReached (.init : Feed δ κ ι T β) ([] : List (Event δ β)) := ⟨[], rfl, rfl⟩

theorem StoresReached.step {batchSize : Nat} {webhookStreams : List δ} {s s' : Feed δ κ ι T β}
    {log : List (Event δ β)} {action : FeedAction δ κ ι β} (h : StoresReached s log)
    (hfeed : FeedStep batchSize webhookStreams s action s') :
    StoresReached s' (log ++ events batchSize webhookStreams s action) := by
  obtain ⟨bs, hrun, hwritten⟩ := h
  have hstores := stores_step hfeed
  refine ⟨bs ++ (s.storeAction batchSize webhookStreams action).toList, ?_, ?_⟩
  · cases hstore : s.storeAction batchSize webhookStreams action with
    | none =>
      rw [hstore] at hstores
      rw [Option.toList_none, List.append_nil, hrun]
      exact congrArg some hstores.symm
    | some b =>
      rw [hstore] at hstores
      exact run_concat.2 ⟨_, hrun, hstores⟩
  · rw [blocksPut_append, blocksPut_events hfeed, ← hwritten]
    exact List.flatMap_append

theorem stores_of_history {batchSize : Nat} {webhookStreams : List δ}
    {as : List (FeedAction δ κ ι β)} {s : Feed δ κ ι T β} {log : List (Event δ β)}
    (h : run (feedHistory batchSize webhookStreams) (.init, []) as = some (s, log)) :
    StoresReached s log := by
  apply run_invariant (P := fun t : Feed δ κ ι T β × List (Event δ β) => StoresReached t.1 t.2)
    ?_ h storesReached_init
  intro ⟨s, log⟩ a ⟨s', log'⟩ hstep hreached
  obtain ⟨hfeed, rfl⟩ := feedStep_of_history hstep
  exact hreached.step hfeed

omit [DecidableEq δ] [DecidableEq κ] [DecidableEq ι] [JobText ι T] in
/-- What is stored was put, and every height that was put is stored. -/
theorem StoresReached.flushInv {s : Feed δ κ ι T β} {log : List (Event δ β)}
    (h : StoresReached s log) : FlushInv (blocksPut log) s.stores := by
  obtain ⟨bs, hrun, hwritten⟩ := h
  exact hwritten ▸ flushInv_run hrun

end History

end BlockFeed.Spec
