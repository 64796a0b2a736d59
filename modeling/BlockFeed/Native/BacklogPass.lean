import BlockFeed.ForStd.Loop
import BlockFeed.Native.BlockRelay

/-!
# The backlog pass of the relay

`processBacklogMsgs` with `handleMessages` as its handler, for any batch size. A `BacklogPass` is
the state at the top of its loop: the shard, the position of the consumer, and how the handlers to
come will fare. The calls of Redis and MySQL succeed; a read of the block store and a POST may
fail. Only the first message of a batch is handled, the others are merely delivered once more.
-/

namespace BlockFeed.Native

open Redis

/-- How the calls of one handler fare that need neither Redis nor MySQL. -/
structure HandlerOutcome (β : Type) where
  /-- what the block store returns, `none` if the read fails -/
  blocks : Option (List (BlockDocument β))
  /-- the POST succeeds -/
  posted : Bool

/-- The action that a call takes. -/
def HandlerOutcome.action {ι β : Type} (outcome : HandlerOutcome β) :
    RelayCall ι β → ConsumerAction β
  | .webhooksFindOne => .webhooksFindOne
  | .getPendingMsg _ => .getPendingMsg
  | .readCache _ =>
    match outcome.blocks with
    | none => .callFails
    | some blocks => .readCache (.done blocks)
  | .readWrapped _ =>
    match outcome.blocks with
    | none => .callFails
    | some blocks => .readWrapped blocks
  | .post _ => if outcome.posted then .post else .callFails
  | .xAckDel _ => .xAckDel
  | .panicked => .callFails

section Pass

variable {κ ι T β : Type} [DecidableEq κ] [DecidableEq ι] [LinearOrder T] [JobText ι T]

/-- The calls of a handler from this one on, at most `n` of them. -/
def BlockRelay.calls (consumerName : κ) (webhooks : ι → Option Webhook)
    (msg : ParsedStreamMessage (WebhookStreamMsgData ι)) (isBacklogMsg : Bool)
    (outcome : HandlerOutcome β) : Nat → Shard κ ι T → RelayCall ι β → Option (Shard κ ι T)
  | 0, _, _ => none
  | n + 1, shard, call =>
    match BlockRelay.handleMessages consumerName webhooks shard msg isBacklogMsg call
      (outcome.action call) with
    | none => none
    | some (shard, none) => some shard
    | some (shard, some call) =>
      BlockRelay.calls consumerName webhooks msg isBacklogMsg outcome n shard call

/-- `handleMessages` up to its return, `none` if it panics. There is no loop in it, and no path
    makes more than six calls. -/
def BlockRelay.handle (consumerName : κ) (webhooks : ι → Option Webhook) (shard : Shard κ ι T)
    (msgs : List (ParsedStreamMessage (WebhookStreamMsgData ι))) (isBacklogMsg : Bool)
    (outcome : HandlerOutcome β) : Option (Shard κ ι T) :=
  match msgs with
  | [] => some shard
  -- "there should only be 1"
  | msg :: _ =>
    BlockRelay.calls consumerName webhooks msg isBacklogMsg outcome 6 shard .webhooksFindOne

/-- The state at the top of the loop. -/
structure BacklogPass (κ ι T β : Type) [LinearOrder T] where
  shard : Shard κ ι T
  loop : Subscriber (WebhookStreamMsgData ι)
  outcomes : Nat → HandlerOutcome β

/-- One iteration of `processBacklogMsgs`, `none` once it has returned. -/
def processBacklogMsgs (consumerName : κ) (count : Nat) (webhooks : ι → Option Webhook)
    (s : BacklogPass κ ι T β) : Option (BacklogPass κ ι T β) :=
  match s.loop with
  | .processBacklogMsgs cursorId =>
    let (loop, stream) :=
      Subscriber.readBacklog JobText.parse s.shard.webhookStream consumerName count cursorId
    let shard := { s.shard with webhookStream := stream }
    match loop with
    | .handler msgs isBacklogMsg =>
      match BlockRelay.handle consumerName webhooks shard msgs isBacklogMsg (s.outcomes 0) with
      -- the panic takes the process down
      | none => some ⟨shard, .stopped, s.outcomes⟩
      | some shard =>
        some ⟨shard, .handled msgs isBacklogMsg, fun i => s.outcomes (i + 1)⟩
    | loop => some ⟨shard, loop, s.outcomes⟩
  | _ => none

/-! ### What the handler does with a message of the backlog -/

/-- The message is acknowledged, unless the block store or the POST fails while the delivery count
    is below the limit. -/
theorem handle_backlog {c : κ} {webhooks : ι → Option Webhook} {shard : Shard κ ι T}
    {msg : ParsedStreamMessage (WebhookStreamMsgData ι)}
    (msgs : List (ParsedStreamMessage (WebhookStreamMsgData ι))) {outcome : HandlerOutcome β}
    (hblocks : outcome.blocks ≠ some []) {p : PelEntry κ}
    (hp : shard.webhookStream.xpending c msg.id = some p) :
    (∃ newMsg, BlockRelay.handle c webhooks shard (msg :: msgs) true outcome =
        some (shard.xAckDel msg newMsg)) ∨
      BlockRelay.handle c webhooks shard (msg :: msgs) true outcome = some shard ∧
        ∃ webhook, webhooks msg.data.webhookID = some webhook ∧
          (p.deliveries : Int) < webhook.maxRetries := by
  obtain ⟨blocks?, posted⟩ := outcome
  simp only [BlockRelay.handle, BlockRelay.calls, HandlerOutcome.action]
  cases hw : webhooks msg.data.webhookID with
  | none =>
    left
    exact ⟨none, by simp only [BlockRelay.handleMessages, hw]⟩
  | some webhook =>
    by_cases hlimit : (p.deliveries : Int) ≥ webhook.maxRetries
    · left
      exact ⟨_, by simp only [BlockRelay.handleMessages, hw, hp, hlimit, if_true]; rfl⟩
    · -- below the limit the blocks are read and posted
      have hretry : ∃ webhook', some webhook = some webhook' ∧
          (p.deliveries : Int) < webhook'.maxRetries := ⟨webhook, rfl, Int.not_le.1 hlimit⟩
      cases blocks? with
      | none =>
        right
        exact ⟨by simp only [BlockRelay.handleMessages, hw, hp, hlimit, if_true, if_false], hretry⟩
      | some blocks =>
        have hne : blocks ≠ [] := fun hnil => hblocks (congrArg some hnil)
        have hempty : blocks.isEmpty = false := List.isEmpty_eq_false_iff.2 hne
        have hlast : blocks.getLast? = some (blocks.getLast hne) := List.getLast?_eq_some_getLast hne
        cases posted with
        | true =>
          left
          exact ⟨_, by
            simp only [BlockRelay.handleMessages, hw, hp, hlimit, hempty, hlast, if_true, if_false,
              Bool.false_eq_true]
            rfl⟩
        | false =>
          right
          exact ⟨by
            simp only [BlockRelay.handleMessages, hw, hp, hlimit, hempty, if_true, if_false,
              Bool.false_eq_true], hretry⟩

end Pass

end BlockFeed.Native
