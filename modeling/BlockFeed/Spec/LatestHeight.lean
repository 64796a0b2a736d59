import BlockFeed.Spec.RouterCorrect

/-!
# The latest block height of a shard

`Flush` sets the latest block height of its shard to the height it is given, and the router gives
it the greatest height of the batch it works on. `TopPending` is why that is enough while the
batches ascend: as long as a batch is not acknowledged, it contains the greatest height read so
far.

`keepsLatest_of_ascendingRead` is the result for batches that ascend. A forwarder that restarts
while the router lags posts old heights again behind newer ones, and then `repostedBlock` goes
backwards.
-/

namespace BlockFeed.Spec

open BlockFeed.Native Redis Transition BlockRouter

section LatestHeight

variable {δ κ ι T β : Type}

/-- The latest block height is that of the greatest height the shard was flushed with. -/
def IsLargest (log : List (Event δ β)) (d : δ) : Option Nat → Prop
  | none => ∀ height, .executed (.flush d height) ∉ log
  | some latest =>
    (∃ height, .executed (.flush d height) ∈ log ∧ latest = score height) ∧
      ∀ height, .executed (.flush d height) ∈ log → score height ≤ latest

/-- A message that the router has been given. -/
def Read (stream : GroupStream Unit (BlockStreamMsgData β)) (log : List (Event δ β)) (id : Nat)
    (msg : BlockStreamMsgData β) : Prop :=
  .posted id msg ∈ log ∧ id ≤ stream.lastDelivered

/-- The messages that the router has been given. -/
def readMsgs (stream : GroupStream Unit (BlockStreamMsgData β)) (log : List (Event δ β)) :
    List (BlockStreamMsgData β) :=
  log.filterMap fun
    | .posted id msg => if id ≤ stream.lastDelivered then some msg else none
    | _ => none

theorem mem_readMsgs {stream : GroupStream Unit (BlockStreamMsgData β)} {log : List (Event δ β)}
    {msg : BlockStreamMsgData β} : msg ∈ readMsgs stream log ↔ ∃ id, Read stream log id msg := by
  unfold readMsgs Read
  rw [List.mem_filterMap]
  constructor
  · rintro ⟨event, hevent, heq⟩
    cases event with
    | posted id msg' =>
      simp only [Option.ite_none_right_eq_some, Option.some.injEq] at heq
      exact ⟨id, heq.2 ▸ hevent, heq.1⟩
    | executed effect => cases heq
  · rintro ⟨id, hevent, hle⟩
    exact ⟨.posted id msg, hevent, if_pos hle⟩

/-- While anything is pending, the greatest height read so far is. -/
def TopPending (stream : GroupStream Unit (BlockStreamMsgData β)) (log : List (Event δ β)) :
    Prop :=
  stream.pelIds () = [] ∨ ∀ id msg, Read stream log id msg →
    ∃ id' msg', (id', msg') ∈ stream.entries ∧ id' ∈ stream.pelIds () ∧ msg.height ≤ msg'.height

/-- More of the history that is no flush of the shard does not matter. -/
private theorem IsLargest.append {log : List (Event δ β)} {d : δ} {latest : Option Nat}
    (h : IsLargest log d latest) {more : List (Event δ β)}
    (hmore : ∀ height, .executed (.flush d height) ∉ more) :
    IsLargest (log ++ more) d latest := by
  have hiff : ∀ height, Event.executed (.flush d height) ∈ log ++ more ↔
      .executed (.flush d height) ∈ log := by
    intro height
    rw [List.mem_append]
    exact or_iff_left (hmore height)
  cases latest with
  | none => exact fun height hmem => h height ((hiff height).1 hmem)
  | some latest =>
    obtain ⟨⟨height, hmem, heq⟩, hle⟩ := h
    refine ⟨⟨height, (hiff height).2 hmem, heq⟩, fun height hmem => ?_⟩
    exact hle height ((hiff height).1 hmem)

/-- A flush at or above all earlier ones. -/
private theorem isLargest_flush {log : List (Event δ β)} {d : δ} {height : UInt64}
    (habove : ∀ height', .executed (.flush d height') ∈ log → height' ≤ height) :
    IsLargest (log ++ [.executed (.flush d height)]) d (some (score height)) := by
  refine ⟨⟨height, List.mem_append_right _ (List.mem_singleton.2 rfl), rfl⟩, ?_⟩
  intro height' hmem
  cases List.mem_append.1 hmem with
  | inl hold => exact score_mono (UInt64.le_iff_toNat_le.1 (habove height' hold))
  | inr hnew =>
    cases List.mem_singleton.1 hnew
    exact Nat.le_refl _

/-- The largest only grows with the history. -/
theorem IsLargest.le {log more : List (Event δ β)} {d : δ} {latest : Nat} {latest' : Option Nat}
    (h : IsLargest log d (some latest)) (h' : IsLargest (log ++ more) d latest') :
    ∃ l, latest' = some l ∧ latest ≤ l := by
  obtain ⟨⟨height, hmem, rfl⟩, -⟩ := h
  have hmem' := List.mem_append_left more hmem
  cases latest' with
  | none => exact absurd hmem' (h' height)
  | some l => exact ⟨l, rfl, h'.2 height hmem'⟩

/-! ## The greatest height read -/

/-- What the router has been given, and what it has flushed. -/
structure ReadInv (stream : GroupStream Unit (BlockStreamMsgData β)) (log : List (Event δ β)) :
    Prop where
  top : TopPending stream log
  /-- every flush had the height of a message that was read -/
  flushed : ∀ d height, .executed (.flush d height) ∈ log →
    ∃ id msg, Read stream log id msg ∧ msg.height = height

theorem readInv_init :
    ReadInv (.empty : GroupStream Unit (BlockStreamMsgData β)) ([] : List (Event δ β)) where
  top := .inl rfl
  flushed := by simp

/-- Whatever reads nothing and keeps the pending messages keeps the greatest one pending. -/
private theorem TopPending.mono {stream stream' : GroupStream Unit (BlockStreamMsgData β)}
    {log log' : List (Event δ β)} (h : TopPending stream log)
    (hpel : stream'.pelIds () = stream.pelIds ()) (hentries : stream.entries ⊆ stream'.entries)
    (hread : ∀ id msg, Read stream' log' id msg → Read stream log id msg) :
    TopPending stream' log' := by
  unfold TopPending
  rw [hpel]
  apply h.imp_right
  intro htop id msg hmem
  obtain ⟨id', msg', hentry, hpending, hle⟩ := htop id msg (hread id msg hmem)
  exact ⟨id', msg', hentries hentry, hpending, hle⟩

/-- A message that is posted has not been read. -/
private theorem ReadInv.post {stream : GroupStream Unit (BlockStreamMsgData β)}
    {log : List (Event δ β)} (h : ReadInv stream log) (msg : BlockStreamMsgData β) :
    ReadInv (stream.xadd msg) (log ++ [.posted (stream.lastId + 1) msg]) where
  top := by
    refine h.top.mono rfl (List.subset_append_left _ _) fun id msg' hread => ?_
    obtain ⟨hmem, hle⟩ := hread
    cases List.mem_append.1 hmem with
    | inl hold => exact ⟨hold, hle⟩
    | inr hnew =>
      -- its ID is above the mark of the group
      cases List.mem_singleton.1 hnew
      have hdelivered : stream.lastId + 1 ≤ stream.lastDelivered := hle
      have hbound := stream.delivered_le
      omega
  flushed := by
    intro d height hmem
    cases List.mem_append.1 hmem with
    | inl hold =>
      obtain ⟨id, msg', hread, hheight⟩ := h.flushed d height hold
      exact ⟨id, msg', ⟨List.mem_append_left _ hread.1, hread.2⟩, hheight⟩
    | inr hnew => cases List.mem_singleton.1 hnew

/-- The messages of the handler have been read. -/
private theorem read_of_handed {webhookStreams : List δ}
    {stream : GroupStream Unit (BlockStreamMsgData β)} {router : BlockRouter δ β}
    {log : List (Event δ β)} (hrouter : RouterInv webhookStreams stream router log)
    {m : ParsedStreamMessage (BlockStreamMsgData β)} (hm : m ∈ handed router.loop) :
    Read stream log m.id m.data := by
  obtain ⟨hpending, v, hentry, hdata⟩ := hrouter.handed m hm
  cases hdata
  exact ⟨hrouter.entries _ _ hentry, (GroupStream.pelIds_bounded hpending).2⟩

/-- The batch of the handler contains the greatest height read so far. -/
private theorem le_maxHeight_of_read {webhookStreams : List δ} {batchSize : Nat}
    {stream : GroupStream Unit (BlockStreamMsgData β)} {log : List (Event δ β)}
    {msgs : List (ParsedStreamMessage (BlockStreamMsgData β))} {isBacklogMsg : Bool}
    {call : RouterCall δ}
    (hrouter : RouterInv webhookStreams stream ⟨.handler msgs isBacklogMsg, call⟩ log)
    (hloop : LoopInv stream () batchSize (.handler msgs isBacklogMsg)) (h : ReadInv stream log)
    {id : Nat} {msg : BlockStreamMsgData β} (hread : Read stream log id msg) :
    msg.height ≤ maxHeight msgs := by
  -- a handler that works on messages has them pending
  obtain ⟨m₀, hm₀⟩ := List.exists_mem_of_ne_nil msgs hrouter.at_call.1
  have hne : stream.pelIds () ≠ [] := List.ne_nil_of_mem (hrouter.handed m₀ hm₀).1
  obtain ⟨id', msg', hentry, hpending, hle⟩ := h.top.resolve_left hne id msg hread
  -- the pending message is one of the batch
  obtain ⟨m, hm, rfl⟩ := List.mem_map.1 (hloop.at_loop.1 hpending)
  obtain ⟨-, v, hv, hdata⟩ := hrouter.handed m hm
  cases hdata
  have hsame := GroupStream.entry_unique hentry hv
  exact UInt64.le_trans hle (hsame ▸ le_maxHeight hm)

/-- What is left to check of an effect. -/
private theorem ReadInv.executed {stream stream' : GroupStream Unit (BlockStreamMsgData β)}
    {log : List (Event δ β)} (h : ReadInv stream log) (effect : Option (Effect δ β))
    (htop : TopPending stream' (log ++ (effect.map .executed).toList))
    (hmark : stream'.lastDelivered = stream.lastDelivered)
    (hflush : ∀ d height, effect = some (.flush d height) →
      ∃ id msg, Read stream log id msg ∧ msg.height = height) :
    ReadInv stream' (log ++ (effect.map .executed).toList) where
  top := htop
  flushed := by
    intro d height hmem
    have hread : ∃ id msg, Read stream log id msg ∧ msg.height = height := by
      cases List.mem_append.1 hmem with
      | inl hold => exact h.flushed d height hold
      | inr hnew =>
        cases effect with
        | none => cases hnew
        | some effect =>
          cases List.mem_singleton.1 hnew
          exact hflush d height rfl
    obtain ⟨id, msg, hread, hheight⟩ := hread
    exact ⟨id, msg, ⟨List.mem_append_left _ hread.1, hmark ▸ hread.2⟩, hheight⟩

private theorem read_of_executed {stream : GroupStream Unit (BlockStreamMsgData β)}
    {log : List (Event δ β)} {effect : Option (Effect δ β)} {id : Nat}
    {msg : BlockStreamMsgData β}
    (h : Read stream (log ++ (effect.map .executed).toList) id msg) : Read stream log id msg := by
  refine ⟨?_, h.2⟩
  cases List.mem_append.1 h.1 with
  | inl hold => exact hold
  | inr hnew =>
    cases effect with
    | none => cases hnew
    | some effect => cases List.mem_singleton.1 hnew

/-- The new messages of a read contain a height that is at least every height read before. -/
def AscendingBatch (batchSize : Nat) (stream : GroupStream Unit (BlockStreamMsgData β))
    (log : List (Event δ β)) : Prop :=
  ∀ msg ∈ readMsgs stream log, ∃ e ∈ stream.unread.take batchSize, msg.height ≤ e.2.height

instance (batchSize : Nat) (stream : GroupStream Unit (BlockStreamMsgData β))
    (log : List (Event δ β)) : Decidable (AscendingBatch batchSize stream log) :=
  inferInstanceAs (Decidable (∀ msg ∈ readMsgs stream log,
    ∃ e ∈ stream.unread.take batchSize, msg.height ≤ e.2.height))

section Moves

variable [DecidableEq δ]

/-- A call of the handler keeps the invariant. -/
private theorem ReadInv.call {batchSize : Nat} {webhookStreams : List δ}
    {stream : GroupStream Unit (BlockStreamMsgData β)} {log : List (Event δ β)}
    {msgs : List (ParsedStreamMessage (BlockStreamMsgData β))} {isBacklogMsg : Bool}
    {call : RouterCall δ} {effect : Option (Effect δ β)} {next : Option (RouterCall δ)}
    (hrouter : RouterInv webhookStreams stream ⟨.handler msgs isBacklogMsg, call⟩ log)
    (hloop : LoopInv stream () batchSize (.handler msgs isBacklogMsg)) (h : ReadInv stream log)
    (hstep : RouterStep webhookStreams msgs call effect next) :
    ReadInv (streamAfter stream effect) (log ++ (effect.map .executed).toList) := by
  have htop : TopPending stream (log ++ (effect.map .executed).toList) :=
    h.top.mono rfl (List.Subset.refl _) fun _ _ => read_of_executed
  cases hstep with
  | fails => exact h.executed none htop rfl (by simp)
  | putBlocks next _ => exact h.executed _ htop rfl (by simp)
  | flush running failed d hrunning failed' =>
    -- the height of a flush is that of a message of the batch
    refine h.executed _ htop rfl fun d' height heq => ?_
    cases heq
    obtain ⟨m, hm, hmax⟩ := exists_maxHeight hrouter.at_call.1
    exact ⟨m.id, m.data, read_of_handed hrouter hm, hmax⟩
  | notFlushed running failed d => exact h.executed none htop rfl (by simp)
  | xAckDel =>
    -- the batch is all that was pending
    have hnil : (xAckDel stream (msgs.map ParsedStreamMessage.id)).pelIds () = [] := by
      rw [pelIds_xAckDel, List.filter_eq_nil_iff]
      intro id hid hnot
      exact of_decide_eq_true hnot (hloop.at_loop.1 hid)
    exact h.executed _ (.inl hnil) rfl (by simp)

/-- Every action of the router keeps the invariant, as long as batches ascend. -/
private theorem ReadInv.routerMove {batchSize : Nat} {webhookStreams : List δ}
    {stream stream' : GroupStream Unit (BlockStreamMsgData β)} {router router' : BlockRouter δ β}
    {log : List (Event δ β)} {action : RouterAction δ} {effect : Option (Effect δ β)}
    (hrouter : RouterInv webhookStreams stream router log)
    (hloop : LoopInv stream () batchSize router.loop) (h : ReadInv stream log)
    (hmove : RouterMove batchSize webhookStreams stream action router stream' router' effect)
    (hasc : action = .readNew → AscendingBatch batchSize stream log) :
    ReadInv stream' (log ++ (effect.map .executed).toList) := by
  cases hmove with
  | crash =>
    rw [Option.map_none, Option.toList_none, List.append_nil]
    exact h
  | readBacklog cursorId call loop _ hread =>
    rw [Option.map_none, Option.toList_none, List.append_nil]
    obtain ⟨rfl, -⟩ := readBacklog_cases hread
    refine ⟨?_, h.flushed⟩
    exact h.top.mono (GroupStream.pelIds_xreadgroupFrom ..) (List.Subset.refl _) fun _ _ hr => hr
  | readNew call loop _ hread =>
    rw [Option.map_none, Option.toList_none, List.append_nil]
    have hmark := GroupStream.lastDelivered_le_xreadgroupNew stream () batchSize
    obtain ⟨rfl, -, -⟩ := readNew_cases hread
    refine ⟨.inr fun id msg hmsg => ?_, fun d height hmem => ?_⟩
    · -- the batch covers what was read before and what it reads itself
      have hcover : ∃ e ∈ stream.unread.take batchSize, msg.height ≤ e.2.height := by
        by_cases hold : id ≤ stream.lastDelivered
        · exact hasc rfl msg (mem_readMsgs.2 ⟨id, hmsg.1, hold⟩)
        · have hnew : (id, msg) ∈ stream.unread :=
            GroupStream.mem_unread.2
              ⟨hrouter.unread id msg hmsg.1 (Nat.not_le.1 hold), Nat.not_le.1 hold⟩
          exact ⟨_, GroupStream.mem_take_of_le_lastDelivered hnew hmsg.2, UInt64.le_refl _⟩
      obtain ⟨e, he, hle⟩ := hcover
      refine ⟨e.1, e.2, (GroupStream.mem_unread.1 (List.mem_of_mem_take he)).1, ?_, hle⟩
      rw [GroupStream.pelIds_xreadgroupNew_self]
      exact List.mem_append_right _ (List.mem_map_of_mem he)
    · -- what was read stays read
      obtain ⟨id, msg, hmsg, hheight⟩ := h.flushed d height hmem
      exact ⟨id, msg, ⟨hmsg.1, Nat.le_trans hmsg.2 hmark⟩, hheight⟩
  | call msgs isBacklogMsg call _ effect next hstep => exact h.call hrouter hloop hstep

end Moves

end LatestHeight

/-! ## The latest height of every shard -/

section Feed

variable {δ κ ι T β : Type} [DecidableEq δ] [DecidableEq κ] [DecidableEq ι] [LinearOrder T]
  [JobText ι T] [LinearOrder (BlockDocument β)]

/-- Each batch of new messages that the router reads contains a height that is at least every
    height it read before. -/
def AscendingRead (batchSize : Nat) :
    Feed δ κ ι T β × List (Event δ β) → FeedAction δ κ ι β → Prop
  | (s, log), .router .readNew => AscendingBatch batchSize s.blockStream log
  | _, _ => True

instance (batchSize : Nat) (t : Feed δ κ ι T β × List (Event δ β)) (action : FeedAction δ κ ι β) :
    Decidable (AscendingRead batchSize t action) :=
  match action with
  | .router .readNew => inferInstanceAs (Decidable (AscendingBatch batchSize t.1.blockStream t.2))
  | .router .readBacklog | .router (.putBlocks _) | .router (.flush _ _) | .router (.xAckDel _)
  | .router .crash | .forwarderReadCache | .forwarderReadWrapped _ | .forward _ | .forwarderCrash
  | .xAdd _ | .flusher _ | .shard _ _ | .consumerReadCache _ _ | .consumerReadWrapped _ _ =>
    .isTrue trivial

/-- The invariant of the whole feed. -/
structure LatestInv (batchSize : Nat) (webhookStreams : List δ) (s : Feed δ κ ι T β)
    (log : List (Event δ β)) : Prop where
  router : RouterInv webhookStreams s.blockStream s.router log
  loop : LoopInv s.blockStream () batchSize s.router.loop
  read : ReadInv s.blockStream log
  largest : ∀ d, IsLargest log d (s.shards d).shard.latestBlockHeight

omit [JobText ι T] [DecidableEq δ] [DecidableEq κ] [DecidableEq ι] in
theorem latestInv_init (batchSize : Nat) (webhookStreams : List δ) :
    LatestInv batchSize webhookStreams (.init : Feed δ κ ι T β) [] where
  router := routerInv_init webhookStreams
  loop := loopInv_init
  read := readInv_init
  largest := by
    intro d height hmem
    cases hmem

/-- A flush has the greatest height read so far. -/
private theorem le_flush {batchSize : Nat} {webhookStreams : List δ} {s s' : Feed δ κ ι T β}
    {log : List (Event δ β)} {action : FeedAction δ κ ι β}
    (h : LatestInv batchSize webhookStreams s log)
    (hfeed : FeedStep batchSize webhookStreams s action s') {d : δ} {height : UInt64}
    (heffect : s.effectOf batchSize webhookStreams action = some (.flush d height)) {id : Nat}
    {msg : BlockStreamMsgData β} (hread : Read s.blockStream log id msg) : msg.height ≤ height := by
  cases hfeed with
  | router action blockStream router effect heffect' hmove =>
    rw [heffect] at heffect'
    subst heffect'
    have hrouter := h.router
    have hloop := h.loop
    generalize s.router = old at hmove hrouter hloop
    cases hmove with
    | call msgs isBacklogMsg call _ _ next hstep =>
      -- only a call of the handler has this effect
      cases hstep
      exact le_maxHeight_of_read hrouter hloop h.read hread
  | shard action d' a shard hanswered haction hpost heffect' hstore hstep =>
    rw [heffect] at heffect'
    cases heffect'
  | _ => simp [Feed.effectOf] at heffect

theorem latestInv_step {batchSize : Nat} (hbatch : 0 < batchSize) {webhookStreams : List δ}
    {s s' : Feed δ κ ι T β} {log : List (Event δ β)} {action : FeedAction δ κ ι β}
    (hfeed : FeedStep batchSize webhookStreams s action s')
    (hasc : AscendingRead batchSize (s, log) action)
    (h : LatestInv batchSize webhookStreams s log) :
    LatestInv batchSize webhookStreams s'
      (log ++ events batchSize webhookStreams s action) where
  router := h.router.feedStep hbatch hfeed
  loop := h.loop.feedStep hfeed
  read := by
    have hview := streamView_of_feedStep hfeed
    generalize events batchSize webhookStreams s action = new at hview ⊢
    cases hview with
    | same _ hstream hrouter =>
      rw [hstream, List.append_nil]
      exact h.read
    | posted _ msg hstream hrouter =>
      rw [hstream]
      exact h.read.post msg
    | router action effect hmove =>
      apply h.read.routerMove h.router h.loop hmove
      intro hnew
      subst hnew
      exact hasc
  largest := by
    intro d
    -- an action that does not flush this shard
    have hnone : (∀ height, s.effectOf batchSize webhookStreams action ≠ some (.flush d height)) →
        IsLargest (log ++ events batchSize webhookStreams s action) d
          (s.shards d).shard.latestBlockHeight := by
      intro heffect
      apply (h.largest d).append
      intro height hmem
      exact heffect height (mem_events_executed.1 hmem)
    cases shardView_of_feedStep hfeed d with
    | same heffect haction hshard =>
      rw [hshard]
      exact hnone heffect
    | flush height heffect haction hshard =>
      rw [hshard, events_of_effect heffect]
      show IsLargest _ d ((s.shards d).shard.flush height).latestBlockHeight
      rw [Shard.flush_eq]
      apply isLargest_flush
      intro height' hmem
      -- every earlier flush had a height that was read
      obtain ⟨id, msg, hread, rfl⟩ := h.read.flushed d height' hmem
      exact le_flush h hfeed heffect hread
    | relay a hanswered haction heffect hstores hstep =>
      -- the relay itself never flushes
      have hnotFlush : ∀ height, a ≠ .flush height := by
        intro height heq
        subst heq
        exact hanswered
      rw [latestBlockHeight_step hstep hnotFlush]
      exact hnone (by simp [heffect])

/-- No shard that has a latest block height gets a lower one by this action. -/
def KeepsLatest (batchSize : Nat) (webhookStreams : List δ)
    (t : Feed δ κ ι T β × List (Event δ β)) (action : FeedAction δ κ ι β) : Prop :=
  ∀ t', feedHistory batchSize webhookStreams t action = some t' → ∀ d latest,
    (t.1.shards d).shard.latestBlockHeight = some latest →
      ∃ latest', (t'.1.shards d).shard.latestBlockHeight = some latest' ∧ latest ≤ latest'

/-- As long as the batches that the router reads ascend, the latest block height of every shard is
    the largest height flushed so far, and no action lowers it. -/
theorem keepsLatest_of_ascendingRead {batchSize : Nat} (hbatch : 0 < batchSize)
    {webhookStreams : List δ} {as : List (FeedAction δ κ ι β)} {s : Feed δ κ ι T β}
    {log : List (Event δ β)}
    (h : run (feedHistory batchSize webhookStreams) (.init, []) as = some (s, log))
    (hasc : Meets (feedHistory batchSize webhookStreams) (AscendingRead batchSize)
      ((.init, []) : Feed δ κ ι T β × List (Event δ β)) as) :
    (∀ d, IsLargest log d (s.shards d).shard.latestBlockHeight) ∧
      Meets (feedHistory batchSize webhookStreams) (KeepsLatest batchSize webhookStreams)
        ((.init, []) : Feed δ κ ι T β × List (Event δ β)) as := by
  have hstep : ∀ (t : Feed δ κ ι T β × List (Event δ β)) action t',
      feedHistory batchSize webhookStreams t action = some t' → AscendingRead batchSize t action →
        LatestInv batchSize webhookStreams t.1 t.2 →
          LatestInv batchSize webhookStreams t'.1 t'.2 := by
    intro ⟨s, log⟩ action ⟨s', log'⟩ hstep hasc hinv
    obtain ⟨hfeed, rfl⟩ := feedStep_of_history hstep
    exact latestInv_step hbatch hfeed hasc hinv
  have hinit := latestInv_init (κ := κ) (ι := ι) (T := T) (β := β) batchSize webhookStreams
  constructor
  · exact (run_invariant_of_meets hstep h hasc hinit).largest
  · -- the value before is the largest of a shorter history
    apply meets_of_invariant hstep ?_ hasc hinit
    intro ⟨s, log⟩ action hasc hinv ⟨s', log'⟩ hnext d latest hlatest
    have hbefore := hinv.largest d
    have hafter := (hstep _ action _ hnext hasc hinv).largest d
    obtain ⟨-, rfl⟩ := feedStep_of_history hnext
    rw [hlatest] at hbefore
    exact hbefore.le hafter

end Feed

/-- Block 2 is posted, then the forwarder restarts and posts blocks 1 and 2 again; with batches of
    two, the second batch holds blocks 2 and 1. -/
def repostedInBatch : List (FeedAction Nat Unit Nat Nat) :=
  [.forwarderReadCache, .forwarderReadWrapped 1, .forward 10, .router .readBacklog,
    .router .readNew, .router (.putBlocks .ok), .router (.flush 0 .ok), .router (.xAckDel .ok),
    .forward 20, .forwarderCrash, .forwarderReadCache, .forward 10, .forward 20,
    .router .readBacklog, .router .readNew, .router (.putBlocks .ok), .router (.flush 0 .ok),
    .router (.xAckDel .ok), .router .readBacklog, .router .readNew]

theorem keepsLatest_of_ascendingRead_repostedInBatch :
    ∃ (s : Feed Nat Unit Nat TupleText Nat) (log : List (Event Nat Nat)),
      run (feedHistory 2 [0]) (.init, []) repostedInBatch = some (s, log) ∧
        (∀ d, IsLargest log d (s.shards d).shard.latestBlockHeight) ∧
        Meets (feedHistory 2 [0]) (KeepsLatest 2 [0])
          ((.init, []) : Feed Nat Unit Nat TupleText Nat × List (Event Nat Nat))
          repostedInBatch :=
  ⟨_, _, rfl, keepsLatest_of_ascendingRead (by decide)
    (show run (feedHistory 2 [0]) (.init, []) repostedInBatch = some (_, _) from rfl)
    (by decide)⟩

/-- The forwarder has posted blocks 1 and 2 and the router has handled block 1 when the forwarder
    restarts; it posts block 1 again, behind block 2. The router is about to flush that batch. -/
def repostedBlock : List (FeedAction Nat Unit Nat Nat) :=
  [.forwarderReadCache, .forwarderReadWrapped 1, .forward 10, .forward 20, .router .readBacklog,
    .router .readNew, .router (.putBlocks .ok), .router (.flush 0 .ok), .router (.xAckDel .ok),
    .forwarderCrash, .forwarderReadCache, .forward 10, .router .readBacklog, .router .readNew,
    .router (.putBlocks .ok), .router (.flush 0 .ok), .router (.xAckDel .ok),
    .router .readBacklog, .router .readNew, .router (.putBlocks .ok)]

/-- The flush takes the latest block height from 2 back to 1. -/
theorem not_keepsLatest :
    ∃ (s : Feed Nat Unit Nat TupleText Nat) (log : List (Event Nat Nat)),
      run (feedHistory 1 [0]) (.init, []) repostedBlock = some (s, log) ∧
        ¬ KeepsLatest 1 [0] (s, log) (.router (.flush 0 .ok)) := by
  refine ⟨_, _, rfl, fun hkeeps => ?_⟩
  obtain ⟨latest', hlatest', hle⟩ := hkeeps _ rfl 0 2 rfl
  cases hlatest'
  exact absurd hle (by decide)

end BlockFeed.Spec
