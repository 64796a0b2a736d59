import BlockFeed.Native.CachedStore
import BlockFeed.Native.WebhookStream

/-!
# The block relay

`BlockRelay` subscribes to the webhook stream of one shard with batch size 1. A `RelayConsumer`
is one of its consumers: a position in `Subscribe` and, while the handler runs, the next call of
`handleMessages`. `RelayState` is the shard, the webhook rows and all consumers; its actions are
the single calls, in any order, together with what others do to the shard.

What the block store answers comes with the action, so that results about the shard hold for
every store. A call that fails without effect makes the handler return; a call that takes effect
and then reports an error is the call followed by the same return.
-/

namespace BlockFeed.Native

open Redis

/-- The columns of `queries.Webhook` that the relay reads. -/
structure Webhook where
  maxBlocks : Int
  maxRetries : Int
deriving DecidableEq, Repr

/-- The next call of `handleMessages`. -/
inductive RelayCall (ι β : Type) where
  | webhooksFindOne
  | getPendingMsg (webhook : Webhook)
  /-- the first call of `GetBlocks` or `GetLatestBlocks` -/
  | readCache (webhook : Webhook)
  /-- the second one -/
  | readWrapped (read : CacheRead β)
  | post (blocks : List (BlockDocument β))
  | xAckDel (newMsg : Option (WebhookStreamMsgData ι))
  /-- "unexpectedly received 0 blocks from block store" -/
  | panicked

/-- The read of the block store that `handleMessages` makes for a message. -/
def relayRead {ι β : Type} [LinearOrder (BlockDocument β)] (store : RedisOptimizedBlockStore β)
    (msg : WebhookStreamMsgData ι) (webhook : Webhook) : CacheRead β :=
  if msg.isNew then store.readLatestBlocks webhook.maxBlocks
  else
    store.readBlocks msg.blockHeight (msg.blockHeight + UInt64.ofInt webhook.maxBlocks - 1)

/-- What a consumer does next. -/
inductive ConsumerAction (β : Type) where
  | readBacklog
  | readNew
  | webhooksFindOne
  | getPendingMsg
  | readCache (answer : CacheRead β)
  | readWrapped (answer : List (BlockDocument β))
  | post
  | xAckDel
  | callFails
  | crash

/-- One consumer of the relay. -/
structure RelayConsumer (ι β : Type) where
  loop : Subscriber (WebhookStreamMsgData ι)
  call : RelayCall ι β

/-- A consumer that starts, also after a crash. -/
def RelayConsumer.start {ι β : Type} : RelayConsumer ι β := ⟨.start, .webhooksFindOne⟩

section Relay

variable {κ ι T β : Type} [DecidableEq κ] [DecidableEq ι] [LinearOrder T] [JobText ι T]

/-- One call of `handleMessages` on a message, up to the next call or, with `none`, to the
    return of the handler. -/
def BlockRelay.handleMessages (consumerName : κ) (webhooks : ι → Option Webhook)
    (shard : Shard κ ι T) (msg : ParsedStreamMessage (WebhookStreamMsgData ι))
    (isBacklogMsg : Bool) :
    RelayCall ι β → ConsumerAction β → Option (Shard κ ι T × Option (RelayCall ι β))
  | .webhooksFindOne, .webhooksFindOne =>
    match webhooks msg.data.webhookID with
    -- sql.ErrNoRows: the job ends with its webhook
    | none => some (shard, some (.xAckDel none))
    | some webhook =>
      -- only a message from the backlog can have been tried before
      if isBacklogMsg then some (shard, some (.getPendingMsg webhook))
      else some (shard, some (.readCache webhook))
  | .getPendingMsg webhook, .getPendingMsg =>
    match shard.webhookStream.xpending consumerName msg.id with
    -- an empty reply is an error of `GetPendingMsg`
    | none => some (shard, none)
    | some pendingMsg =>
      -- "if we could not process [h1, h2], try [h1+1, h2+1]"
      if (pendingMsg.deliveries : Int) ≥ webhook.maxRetries then
        some (shard, some (.xAckDel (some
          { webhookID := msg.data.webhookID
            blockHeight := msg.data.blockHeight + 1
            isNew := msg.data.isNew })))
      else some (shard, some (.readCache webhook))
  | .readCache _, .readCache answer => some (shard, some (.readWrapped answer))
  | .readWrapped _, .readWrapped blocks =>
    if blocks.isEmpty then some (shard, some .panicked) else some (shard, some (.post blocks))
  | .post blocks, .post =>
    match blocks.getLast? with
    | none => none
    | some last =>
      -- for a new message the blocks descend, so this is the lowest of them
      some (shard, some (.xAckDel (some
        { webhookID := msg.data.webhookID, blockHeight := last.height + 1, isNew := false })))
  | .xAckDel newMsg, .xAckDel => some (shard.xAckDel msg newMsg, none)
  -- nothing recovers from the panic
  | .panicked, _ => none
  | _, .callFails => some (shard, none)
  | _, _ => none

/-- One action of a consumer. -/
def RelayConsumer.step (consumerName : κ) (webhooks : ι → Option Webhook) (shard : Shard κ ι T)
    (consumer : RelayConsumer ι β) (action : ConsumerAction β) :
    Option (Shard κ ι T × RelayConsumer ι β) :=
  match consumer.loop, action with
  | _, .crash => some (shard, .start)
  | .processBacklogMsgs cursorId, .readBacklog =>
    let (loop, stream) :=
      Subscriber.readBacklog JobText.parse shard.webhookStream consumerName 1 cursorId
    some ({ shard with webhookStream := stream }, ⟨loop, .webhooksFindOne⟩)
  | .processNewMsgs, .readNew =>
    match Subscriber.readNew JobText.parse shard.webhookStream consumerName 1 with
    | none => none
    | some (loop, stream) =>
      some ({ shard with webhookStream := stream }, ⟨loop, .webhooksFindOne⟩)
  | .handler (msg :: msgs) isBacklogMsg, action =>
    -- the batch size is 1, so the handler looks at the first message only
    match BlockRelay.handleMessages consumerName webhooks shard msg isBacklogMsg consumer.call
      action with
    | none => none
    | some (shard, some call) => some (shard, ⟨.handler (msg :: msgs) isBacklogMsg, call⟩)
    | some (shard, none) => some (shard, ⟨.handled (msg :: msgs) isBacklogMsg, .webhooksFindOne⟩)
  | _, _ => none

/-- A shard, the webhook rows, and the consumers of the relay. -/
structure RelayState (κ ι T β : Type) [LinearOrder T] where
  shard : Shard κ ι T
  webhooks : ι → Option Webhook
  consumers : κ → RelayConsumer ι β

/-- An action on the shard: a script that someone else calls, a change of a webhook row, or an
    action of a consumer. -/
inductive RelayAction (κ ι β : Type) where
  | activate (ids : List ι)
  | flush (height : UInt64)
  | setWebhook (id : ι) (webhook : Option Webhook)
  | consumer (consumerName : κ) (action : ConsumerAction β)

namespace RelayState

/-- An empty shard, no rows, every consumer at its start. -/
def init : RelayState κ ι T β := ⟨.empty, fun _ => none, fun _ => .start⟩

/-- Takes one action, `none` when it is not enabled. -/
def step (s : RelayState κ ι T β) : RelayAction κ ι β → Option (RelayState κ ι T β)
  | .activate ids => some { s with shard := s.shard.activate ids }
  | .flush height => some { s with shard := s.shard.flush height }
  | .setWebhook id webhook =>
    some { s with webhooks := Function.update s.webhooks id webhook }
  | .consumer c action =>
    match (s.consumers c).step c s.webhooks s.shard action with
    | none => none
    | some (shard, consumer) =>
      some { s with shard := shard, consumers := Function.update s.consumers c consumer }

end RelayState

/-! ### The outcomes of an action -/

/-- What one call of the handler does, with what it found out. -/
inductive HandlerStep (c : κ) (webhooks : ι → Option Webhook) (shard : Shard κ ι T)
    (msg : ParsedStreamMessage (WebhookStreamMsgData ι)) (isBacklogMsg : Bool) :
    RelayCall ι β → ConsumerAction β → Shard κ ι T → Option (RelayCall ι β) → Prop where
  | noWebhook (h : webhooks msg.data.webhookID = none) :
    HandlerStep c webhooks shard msg isBacklogMsg .webhooksFindOne .webhooksFindOne
      shard (some (.xAckDel none))
  | backlogMsg (webhook : Webhook) (h : webhooks msg.data.webhookID = some webhook)
    (hb : isBacklogMsg = true) :
    HandlerStep c webhooks shard msg isBacklogMsg .webhooksFindOne .webhooksFindOne
      shard (some (.getPendingMsg webhook))
  | newMsg (webhook : Webhook) (h : webhooks msg.data.webhookID = some webhook)
    (hb : isBacklogMsg = false) :
    HandlerStep c webhooks shard msg isBacklogMsg .webhooksFindOne .webhooksFindOne
      shard (some (.readCache webhook))
  | notPending (webhook : Webhook) (h : shard.webhookStream.xpending c msg.id = none) :
    HandlerStep c webhooks shard msg isBacklogMsg (.getPendingMsg webhook) .getPendingMsg
      shard none
  | exhausted (webhook : Webhook) (pendingMsg : PelEntry κ)
    (h : shard.webhookStream.xpending c msg.id = some pendingMsg)
    (hr : webhook.maxRetries ≤ pendingMsg.deliveries) :
    HandlerStep c webhooks shard msg isBacklogMsg (.getPendingMsg webhook) .getPendingMsg
      shard (some (.xAckDel (some
        ⟨msg.data.webhookID, msg.data.blockHeight + 1, msg.data.isNew⟩)))
  | retry (webhook : Webhook) (pendingMsg : PelEntry κ)
    (h : shard.webhookStream.xpending c msg.id = some pendingMsg)
    (hr : (pendingMsg.deliveries : Int) < webhook.maxRetries) :
    HandlerStep c webhooks shard msg isBacklogMsg (.getPendingMsg webhook) .getPendingMsg
      shard (some (.readCache webhook))
  | readCache (webhook : Webhook) (answer : CacheRead β) :
    HandlerStep c webhooks shard msg isBacklogMsg (.readCache webhook) (.readCache answer)
      shard (some (.readWrapped answer))
  | noBlocks (read : CacheRead β) :
    HandlerStep c webhooks shard msg isBacklogMsg (.readWrapped read) (.readWrapped [])
      shard (some .panicked)
  | blocks (read : CacheRead β) (blocks : List (BlockDocument β)) (h : blocks ≠ []) :
    HandlerStep c webhooks shard msg isBacklogMsg (.readWrapped read) (.readWrapped blocks)
      shard (some (.post blocks))
  | post (blocks : List (BlockDocument β)) (last : BlockDocument β)
    (h : blocks.getLast? = some last) :
    HandlerStep c webhooks shard msg isBacklogMsg (.post blocks) .post
      shard (some (.xAckDel (some ⟨msg.data.webhookID, last.height + 1, false⟩)))
  | xAckDel (newMsg : Option (WebhookStreamMsgData ι)) :
    HandlerStep c webhooks shard msg isBacklogMsg (.xAckDel newMsg) .xAckDel
      (shard.xAckDel msg newMsg) none
  | callFails (call : RelayCall ι β) (h : call ≠ .panicked) :
    HandlerStep c webhooks shard msg isBacklogMsg call .callFails shard none

theorem handlerStep_of_handleMessages {c : κ} {webhooks : ι → Option Webhook}
    {shard shard' : Shard κ ι T} {msg : ParsedStreamMessage (WebhookStreamMsgData ι)}
    {isBacklogMsg : Bool} {call : RelayCall ι β} {action : ConsumerAction β}
    {next : Option (RelayCall ι β)}
    (h : BlockRelay.handleMessages c webhooks shard msg isBacklogMsg call action =
      some (shard', next)) :
    HandlerStep c webhooks shard msg isBacklogMsg call action shard' next := by
  unfold BlockRelay.handleMessages at h
  split at h
  · -- webhooksFindOne
    split at h
    · next hw => cases h; exact .noWebhook hw
    · next webhook hw =>
      split at h
      · next hb => cases h; exact .backlogMsg webhook hw hb
      · next hb => cases h; exact .newMsg webhook hw (Bool.not_eq_true _ ▸ hb)
  · -- getPendingMsg
    split at h
    · next hp => cases h; exact .notPending _ hp
    · next pendingMsg hp =>
      split at h
      · next hr => cases h; exact .exhausted _ pendingMsg hp hr
      · next hr => cases h; exact .retry _ pendingMsg hp (Int.not_le.1 hr)
  · cases h; exact .readCache _ _
  · next blocks =>
    -- readWrapped
    split at h
    · next he =>
      cases h
      rw [List.isEmpty_iff.1 he]
      exact .noBlocks _
    · next he =>
      cases h
      exact .blocks _ blocks fun hnil => he (by rw [hnil]; rfl)
  · -- post
    split at h
    · cases h
    · next last hl => cases h; exact .post _ last hl
  · cases h; exact .xAckDel _
  · cases h
  · next hne => cases h; exact .callFails _ hne
  · cases h

/-- A call of the handler either leaves the shard alone or is `XAckDel`. -/
theorem handlerStep_shard {c : κ} {webhooks : ι → Option Webhook}
    {shard shard' : Shard κ ι T} {msg : ParsedStreamMessage (WebhookStreamMsgData ι)}
    {isBacklogMsg : Bool} {call : RelayCall ι β} {action : ConsumerAction β}
    {next : Option (RelayCall ι β)}
    (h : HandlerStep c webhooks shard msg isBacklogMsg call action shard' next) :
    shard' = shard ∨ ∃ newMsg, call = .xAckDel newMsg ∧ shard' = shard.xAckDel msg newMsg := by
  cases h with
  | xAckDel newMsg => exact .inr ⟨newMsg, rfl, rfl⟩
  | _ => exact .inl rfl

/-- What an action of a consumer does. -/
inductive ConsumerStep (c : κ) (webhooks : ι → Option Webhook) (shard : Shard κ ι T) :
    RelayConsumer ι β → ConsumerAction β → Shard κ ι T → RelayConsumer ι β → Prop where
  | crash (consumer : RelayConsumer ι β) :
    ConsumerStep c webhooks shard consumer .crash shard .start
  | readBacklog (cursorId : Nat) (call : RelayCall ι β)
    (loop : Subscriber (WebhookStreamMsgData ι)) (stream : GroupStream κ T)
    (h : Subscriber.readBacklog JobText.parse shard.webhookStream c 1 cursorId = (loop, stream)) :
    ConsumerStep c webhooks shard ⟨.processBacklogMsgs cursorId, call⟩ .readBacklog
      { shard with webhookStream := stream } ⟨loop, .webhooksFindOne⟩
  | readNew (call : RelayCall ι β) (loop : Subscriber (WebhookStreamMsgData ι))
    (stream : GroupStream κ T)
    (h : Subscriber.readNew JobText.parse shard.webhookStream c 1 = some (loop, stream)) :
    ConsumerStep c webhooks shard ⟨.processNewMsgs, call⟩ .readNew
      { shard with webhookStream := stream } ⟨loop, .webhooksFindOne⟩
  | call (msg : ParsedStreamMessage (WebhookStreamMsgData ι))
    (msgs : List (ParsedStreamMessage (WebhookStreamMsgData ι))) (isBacklogMsg : Bool)
    (call call' : RelayCall ι β) (action : ConsumerAction β) (shard' : Shard κ ι T)
    (h : HandlerStep c webhooks shard msg isBacklogMsg call action shard' (some call')) :
    ConsumerStep c webhooks shard ⟨.handler (msg :: msgs) isBacklogMsg, call⟩ action shard'
      ⟨.handler (msg :: msgs) isBacklogMsg, call'⟩
  | handled (msg : ParsedStreamMessage (WebhookStreamMsgData ι))
    (msgs : List (ParsedStreamMessage (WebhookStreamMsgData ι))) (isBacklogMsg : Bool)
    (call : RelayCall ι β) (action : ConsumerAction β) (shard' : Shard κ ι T)
    (h : HandlerStep c webhooks shard msg isBacklogMsg call action shard' none) :
    ConsumerStep c webhooks shard ⟨.handler (msg :: msgs) isBacklogMsg, call⟩ action shard'
      ⟨.handled (msg :: msgs) isBacklogMsg, .webhooksFindOne⟩

theorem consumerStep_of_step {c : κ} {webhooks : ι → Option Webhook} {shard shard' : Shard κ ι T}
    {consumer consumer' : RelayConsumer ι β} {action : ConsumerAction β}
    (h : consumer.step c webhooks shard action = some (shard', consumer')) :
    ConsumerStep c webhooks shard consumer action shard' consumer' := by
  obtain ⟨loop, call⟩ := consumer
  simp only [RelayConsumer.step] at h
  split at h
  · cases h; exact .crash _
  · cases h; exact .readBacklog _ call _ _ rfl
  · split at h
    · cases h
    · next loop stream hread => cases h; exact .readNew call loop stream hread
  · split at h
    · cases h
    · next hm => cases h; exact .call _ _ _ _ _ _ _ (handlerStep_of_handleMessages hm)
    · next hm => cases h; exact .handled _ _ _ _ _ _ (handlerStep_of_handleMessages hm)
  · cases h

/-- An action of a consumer changes the shard and this consumer. -/
theorem consumerStep_of_relayStep {s s' : RelayState κ ι T β} {c : κ} {action : ConsumerAction β}
    (h : s.step (.consumer c action) = some s') :
    ∃ shard consumer,
      ConsumerStep c s.webhooks s.shard (s.consumers c) action shard consumer ∧
        s' = { s with shard := shard, consumers := Function.update s.consumers c consumer } := by
  simp only [RelayState.step] at h
  split at h
  · cases h
  · next shard consumer hc =>
    cases h
    exact ⟨shard, consumer, consumerStep_of_step hc, rfl⟩

/-- What an action of a consumer does to the shard. -/
inductive ShardStep (c : κ) (shard : Shard κ ι T) : Shard κ ι T → Prop where
  | same : ShardStep c shard shard
  | readBacklog (cursorId : Nat) : ShardStep c shard
    { shard with webhookStream := (shard.webhookStream.xreadgroupFrom c cursorId 1).2 }
  | readNew : ShardStep c shard
    { shard with webhookStream := (shard.webhookStream.xreadgroupNew c 1).2 }
  | xAckDel (msg : ParsedStreamMessage (WebhookStreamMsgData ι))
    (newMsg : Option (WebhookStreamMsgData ι)) : ShardStep c shard (shard.xAckDel msg newMsg)

theorem shardStep_of_step {s s' : RelayState κ ι T β} {c : κ} {action : ConsumerAction β}
    (h : s.step (.consumer c action) = some s') : ShardStep c s.shard s'.shard := by
  -- of the calls of a handler only `XAckDel` touches the shard
  have hcall : ∀ {msg : ParsedStreamMessage (WebhookStreamMsgData ι)} {b : Bool}
      {call : RelayCall ι β} {shard : Shard κ ι T} {next : Option (RelayCall ι β)},
      HandlerStep c s.webhooks s.shard msg b call action shard next →
        ShardStep c s.shard shard := by
    intro msg b call shard next hstep
    cases handlerStep_shard hstep with
    | inl hsame =>
      rw [hsame]
      exact .same
    | inr hack =>
      obtain ⟨newMsg, -, rfl⟩ := hack
      exact .xAckDel msg newMsg
  obtain ⟨shard, consumer, hstep, rfl⟩ := consumerStep_of_relayStep h
  generalize s.consumers c = old at hstep
  cases hstep with
  | crash => exact .same
  | readBacklog cursorId call loop stream hread =>
    obtain ⟨rfl, -⟩ := readBacklog_cases hread
    exact .readBacklog cursorId
  | readNew call loop stream hread =>
    obtain ⟨rfl, -⟩ := readNew_cases hread
    exact .readNew
  | call msg msgs isBacklogMsg call call' _ _ hstep => exact hcall hstep
  | handled msg msgs isBacklogMsg call _ _ hstep => exact hcall hstep

/-- What an action does to the stream. -/
inductive StreamStep (stream : GroupStream κ T) :
    RelayAction κ ι β → GroupStream κ T → Prop where
  | xadd (a : RelayAction κ ι β) (jobs : List T) : StreamStep stream a (stream.xaddAll jobs)
  | readBacklog (c : κ) (action : ConsumerAction β) (cursorId : Nat) :
    StreamStep stream (.consumer c action) (stream.xreadgroupFrom c cursorId 1).2
  | readNew (c : κ) (action : ConsumerAction β) :
    StreamStep stream (.consumer c action) (stream.xreadgroupNew c 1).2
  | xAckDel (c : κ) (action : ConsumerAction β) (id : Nat) (jobs : List T) :
    StreamStep stream (.consumer c action) ((Native.xAckDel stream [id]).xaddAll jobs)

theorem streamStep_of_step {s s' : RelayState κ ι T β} {a : RelayAction κ ι β}
    (h : s.step a = some s') : StreamStep s.shard.webhookStream a s'.shard.webhookStream := by
  cases a with
  | activate ids =>
    cases h
    rw [Shard.webhookStream_activate]
    exact .xadd _ []
  | flush height =>
    cases h
    rw [Shard.flush_eq]
    exact .xadd _ _
  | setWebhook id webhook =>
    cases h
    exact .xadd _ []
  | consumer c action =>
    have hshard := shardStep_of_step h
    generalize s'.shard = shard' at hshard ⊢
    cases hshard with
    | same => exact .xadd _ []
    | readBacklog cursorId => exact .readBacklog c _ cursorId
    | readNew => exact .readNew c _
    | xAckDel msg newMsg =>
      obtain ⟨jobs, hstream⟩ := Shard.webhookStream_xAckDel s.shard msg newMsg
      rw [hstream]
      exact .xAckDel c action msg.id jobs

/-- Only a flush changes the latest block height of a shard. -/
theorem latestBlockHeight_step {s s' : RelayState κ ι T β} {a : RelayAction κ ι β}
    (h : s.step a = some s') (ha : ∀ height, a ≠ .flush height) :
    s'.shard.latestBlockHeight = s.shard.latestBlockHeight := by
  cases a with
  | activate ids =>
    cases h
    exact Shard.latestBlockHeight_activate ..
  | flush height => exact absurd rfl (ha height)
  | setWebhook id webhook =>
    cases h
    rfl
  | consumer c action =>
    have hshard := shardStep_of_step h
    generalize s'.shard = shard' at hshard ⊢
    cases hshard with
    | same => rfl
    | readBacklog cursorId => rfl
    | readNew => rfl
    | xAckDel msg newMsg => exact Shard.latestBlockHeight_xAckDel ..

end Relay

end BlockFeed.Native
