import BlockFeed.Native.BlockStore
import BlockFeed.Native.RedisStream

/-!
# The block router

`BlockRouter` subscribes to the block stream with one consumer. For each batch it stores the
blocks, flushes all shards in parallel, and acknowledges the batch if nothing failed. Each call
may succeed, fail before it executes, or execute and then fail: `CallOutcome`.

The router does not hold the block store or the shards. What its calls do to them is an `Effect`,
which the system around the router carries out.
-/

namespace BlockFeed.Native

open Redis

/-- `streams.BlockStreamMsgData`. -/
structure BlockStreamMsgData (β : Type) where
  block : β
  height : UInt64
deriving DecidableEq, Repr

/-- What became of a call, and what its caller sees. -/
inductive CallOutcome where
  | ok
  | failed
  | executedThenFailed
deriving DecidableEq, Repr

/-- The call took effect. -/
def CallOutcome.executes : CallOutcome → Bool
  | .failed => false
  | _ => true

/-- The caller sees no error. -/
def CallOutcome.succeeds : CallOutcome → Bool
  | .ok => true
  | _ => false

/-- The next call of `handleMessages`. -/
inductive RouterCall (δ : Type) where
  | putBlocks
  /-- the goroutines that have not finished, and whether one has returned an error -/
  | flush (running : List δ) (failed : Bool)
  | xAckDel
deriving DecidableEq

/-- The position of the router. -/
structure BlockRouter (δ β : Type) where
  loop : Subscriber (BlockStreamMsgData β)
  call : RouterCall δ

/-- What a call does to the rest of the system. -/
inductive Effect (δ β : Type) where
  | putBlocks (blocks : List (BlockDocument β))
  | flush (shard : δ) (height : UInt64)
  | xAckDel (msgIDs : List Nat)
deriving DecidableEq

/-- What the router does next. -/
inductive RouterAction (δ : Type) where
  | readBacklog
  | readNew
  | putBlocks (outcome : CallOutcome)
  | flush (shard : δ) (outcome : CallOutcome)
  | xAckDel (outcome : CallOutcome)
  | crash

namespace BlockRouter

variable {δ β : Type} [DecidableEq δ]

/-- A router that starts, also after a crash. -/
def start : BlockRouter δ β := ⟨.start, .putBlocks⟩

/-- The greatest height of a batch. -/
def maxHeight : List (ParsedStreamMessage (BlockStreamMsgData β)) → UInt64
  | [] => 0
  | msg :: msgs => msgs.foldl (fun height msg => max height msg.data.height) msg.data.height

/-- The blocks of a batch. -/
def blocksOf (msgs : List (ParsedStreamMessage (BlockStreamMsgData β))) :
    List (BlockDocument β) :=
  msgs.map fun msg => { data := msg.data.block, height := msg.data.height }

/-- Where `handleMessages` goes once these goroutines are left: on with the last one, it
    returns the error or acknowledges. -/
def afterFlush (running : List δ) (failed : Bool) : Option (RouterCall δ) :=
  match running with
  | [] => if failed then none else some .xAckDel
  | _ => some (.flush running failed)

/-- One call of `handleMessages` on a batch: its effect, if it executes, and the next call or,
    with `none`, the return of the handler. -/
def handleMessages (webhookStreams : List δ)
    (msgs : List (ParsedStreamMessage (BlockStreamMsgData β))) :
    RouterCall δ → RouterAction δ → Option (Option (Effect δ β) × Option (RouterCall δ))
  | .putBlocks, .putBlocks outcome =>
    let effect := if outcome.executes then some (.putBlocks (blocksOf msgs)) else none
    some (effect, if outcome.succeeds then afterFlush webhookStreams false else none)
  | .flush running failed, .flush shard outcome =>
    -- the goroutines finish in any order, each with the greatest height of the batch
    if shard ∈ running then
      let effect := if outcome.executes then some (.flush shard (maxHeight msgs)) else none
      some (effect, afterFlush (running.erase shard) (failed || !outcome.succeeds))
    else none
  | .xAckDel, .xAckDel outcome =>
    -- the handler returns either way, and an error of it is only logged
    let effect :=
      if outcome.executes then some (.xAckDel (msgs.map ParsedStreamMessage.id)) else none
    some (effect, none)
  | _, _ => none

/-- The block stream after a call. -/
def streamAfter (blockStream : GroupStream Unit (BlockStreamMsgData β)) :
    Option (Effect δ β) → GroupStream Unit (BlockStreamMsgData β)
  | some (.xAckDel msgIDs) => xAckDel blockStream msgIDs
  | _ => blockStream

/-- The router after a call: at the next call, or after the handler. -/
def resume (msgs : List (ParsedStreamMessage (BlockStreamMsgData β))) (isBacklogMsg : Bool) :
    Option (RouterCall δ) → BlockRouter δ β
  | some call => ⟨.handler msgs isBacklogMsg, call⟩
  | none => ⟨.handled msgs isBacklogMsg, .putBlocks⟩

/-- One action of the router: what becomes of the block stream and of the router, and the
    effect on the rest of the system. -/
def step (batchSize : Nat) (webhookStreams : List δ)
    (blockStream : GroupStream Unit (BlockStreamMsgData β)) (router : BlockRouter δ β)
    (action : RouterAction δ) :
    Option (GroupStream Unit (BlockStreamMsgData β) × BlockRouter δ β × Option (Effect δ β)) :=
  match router.loop, action with
  | _, .crash => some (blockStream, .start, none)
  | .processBacklogMsgs cursorId, .readBacklog =>
    let (loop, stream) := Subscriber.readBacklog some blockStream () batchSize cursorId
    some (stream, ⟨loop, .putBlocks⟩, none)
  | .processNewMsgs, .readNew =>
    match Subscriber.readNew some blockStream () batchSize with
    | none => none
    | some (loop, stream) => some (stream, ⟨loop, .putBlocks⟩, none)
  | .handler msgs isBacklogMsg, action =>
    match handleMessages webhookStreams msgs router.call action with
    | none => none
    | some (effect, next) =>
      some (streamAfter blockStream effect, resume msgs isBacklogMsg next, effect)
  | _, _ => none

end BlockRouter

/-! ### The greatest height of a batch -/

namespace BlockRouter

variable {β : Type}

private theorem max_cases (a b : UInt64) :
    a ≤ max a b ∧ b ≤ max a b ∧ (max a b = a ∨ max a b = b) := by
  -- `max` on `UInt64` is its defining `if`
  show a ≤ (if a ≤ b then b else a) ∧ b ≤ (if a ≤ b then b else a) ∧
    ((if a ≤ b then b else a) = a ∨ (if a ≤ b then b else a) = b)
  split
  · next h => exact ⟨h, UInt64.le_refl _, .inr rfl⟩
  · next h => exact ⟨UInt64.le_refl _, UInt64.le_of_lt (UInt64.not_le.1 h), .inl rfl⟩

private theorem le_foldl_max (msgs : List (ParsedStreamMessage (BlockStreamMsgData β)))
    (height : UInt64) :
    height ≤ msgs.foldl (fun height msg => max height msg.data.height) height ∧
      ∀ m ∈ msgs, m.data.height ≤
        msgs.foldl (fun height msg => max height msg.data.height) height := by
  induction msgs generalizing height with
  | nil => exact ⟨UInt64.le_refl _, fun m hm => absurd hm List.not_mem_nil⟩
  | cons msg msgs ih =>
    obtain ⟨hstart, hrest⟩ := ih (max height msg.data.height)
    obtain ⟨hleft, hright, -⟩ := max_cases height msg.data.height
    refine ⟨UInt64.le_trans hleft hstart, fun m hm => ?_⟩
    cases List.mem_cons.1 hm with
    | inl hm =>
      rw [hm]
      exact UInt64.le_trans hright hstart
    | inr hm => exact hrest m hm

private theorem foldl_max_mem (msgs : List (ParsedStreamMessage (BlockStreamMsgData β)))
    (height : UInt64) :
    msgs.foldl (fun height msg => max height msg.data.height) height = height ∨
      ∃ m ∈ msgs, m.data.height =
        msgs.foldl (fun height msg => max height msg.data.height) height := by
  induction msgs generalizing height with
  | nil => exact .inl rfl
  | cons msg msgs ih =>
    rw [List.foldl_cons]
    cases ih (max height msg.data.height) with
    | inl heq =>
      cases (max_cases height msg.data.height).2.2 with
      | inl hmax => exact .inl (heq.trans hmax)
      | inr hmax => exact .inr ⟨msg, List.mem_cons_self, (heq.trans hmax).symm⟩
    | inr hin =>
      obtain ⟨m, hm, heq⟩ := hin
      exact .inr ⟨m, List.mem_cons_of_mem _ hm, heq⟩

theorem le_maxHeight {msgs : List (ParsedStreamMessage (BlockStreamMsgData β))}
    {m : ParsedStreamMessage (BlockStreamMsgData β)} (hm : m ∈ msgs) :
    m.data.height ≤ maxHeight msgs := by
  cases msgs with
  | nil => cases hm
  | cons msg msgs =>
    obtain ⟨hstart, hrest⟩ := le_foldl_max msgs msg.data.height
    cases List.mem_cons.1 hm with
    | inl hm => exact hm ▸ hstart
    | inr hm => exact hrest m hm

/-- The greatest height is one of the batch. -/
theorem exists_maxHeight {msgs : List (ParsedStreamMessage (BlockStreamMsgData β))}
    (hne : msgs ≠ []) : ∃ m ∈ msgs, m.data.height = maxHeight msgs := by
  cases msgs with
  | nil => exact absurd rfl hne
  | cons msg msgs =>
    cases foldl_max_mem msgs msg.data.height with
    | inl heq => exact ⟨msg, List.mem_cons_self, heq.symm⟩
    | inr hin =>
      obtain ⟨m, hm, heq⟩ := hin
      exact ⟨m, List.mem_cons_of_mem _ hm, heq⟩

end BlockRouter

/-! ### The outcomes of an action -/

section Outcomes

variable {δ β : Type} [DecidableEq δ]

open BlockRouter

/-- What one call of the handler does. -/
inductive RouterStep (webhookStreams : List δ)
    (msgs : List (ParsedStreamMessage (BlockStreamMsgData β))) :
    RouterCall δ → Option (Effect δ β) → Option (RouterCall δ) → Prop where
  | fails (call : RouterCall δ) : RouterStep webhookStreams msgs call none none
  | putBlocks (next : Option (RouterCall δ))
    (h : next = none ∨ next = afterFlush webhookStreams false) :
    RouterStep webhookStreams msgs .putBlocks (some (.putBlocks (blocksOf msgs))) next
  | flush (running : List δ) (failed : Bool) (shard : δ) (hrunning : shard ∈ running)
    (failed' : Bool) :
    RouterStep webhookStreams msgs (.flush running failed) (some (.flush shard (maxHeight msgs)))
      (afterFlush (running.erase shard) (failed || failed'))
  | notFlushed (running : List δ) (failed : Bool) (shard : δ) :
    RouterStep webhookStreams msgs (.flush running failed) none
      (afterFlush (running.erase shard) true)
  | xAckDel :
    RouterStep webhookStreams msgs .xAckDel
      (some (.xAckDel (msgs.map ParsedStreamMessage.id))) none

theorem routerStep_of_handleMessages {webhookStreams : List δ}
    {msgs : List (ParsedStreamMessage (BlockStreamMsgData β))} {call : RouterCall δ}
    {action : RouterAction δ} {effect : Option (Effect δ β)} {next : Option (RouterCall δ)}
    (h : handleMessages webhookStreams msgs call action = some (effect, next)) :
    RouterStep webhookStreams msgs call effect next := by
  unfold handleMessages at h
  split at h
  · next outcome =>
    -- `putBlocks`: an error ends the handler, also when the blocks are stored
    cases outcome with
    | ok => cases h; exact .putBlocks _ (.inr rfl)
    | failed => cases h; exact .fails _
    | executedThenFailed => cases h; exact .putBlocks _ (.inl rfl)
  · next running failed shard outcome =>
    -- `flush`: an error is kept until all goroutines are done
    split at h
    · next hrunning =>
      cases outcome with
      | ok => cases h; exact .flush running failed shard hrunning _
      | failed =>
        cases h
        rw [show (failed || !CallOutcome.failed.succeeds) = true from Bool.or_true failed]
        exact .notFlushed running failed shard
      | executedThenFailed => cases h; exact .flush running failed shard hrunning _
    · cases h
  · next outcome =>
    cases outcome with
    | ok => cases h; exact .xAckDel
    | failed => cases h; exact .fails _
    | executedThenFailed => cases h; exact .xAckDel
  · cases h

/-- What an action of the router does: it crashes, reads, or makes a call of the handler. -/
inductive RouterMove (batchSize : Nat) (webhookStreams : List δ)
    (blockStream : GroupStream Unit (BlockStreamMsgData β)) :
    RouterAction δ → BlockRouter δ β → GroupStream Unit (BlockStreamMsgData β) →
      BlockRouter δ β → Option (Effect δ β) → Prop where
  | crash (router : BlockRouter δ β) :
    RouterMove batchSize webhookStreams blockStream .crash router blockStream .start none
  | readBacklog (cursorId : Nat) (call : RouterCall δ) (loop : Subscriber (BlockStreamMsgData β))
    (stream : GroupStream Unit (BlockStreamMsgData β))
    (h : Subscriber.readBacklog some blockStream () batchSize cursorId = (loop, stream)) :
    RouterMove batchSize webhookStreams blockStream .readBacklog
      ⟨.processBacklogMsgs cursorId, call⟩ stream ⟨loop, .putBlocks⟩ none
  | readNew (call : RouterCall δ) (loop : Subscriber (BlockStreamMsgData β))
    (stream : GroupStream Unit (BlockStreamMsgData β))
    (h : Subscriber.readNew some blockStream () batchSize = some (loop, stream)) :
    RouterMove batchSize webhookStreams blockStream .readNew ⟨.processNewMsgs, call⟩ stream
      ⟨loop, .putBlocks⟩ none
  | call (msgs : List (ParsedStreamMessage (BlockStreamMsgData β))) (isBacklogMsg : Bool)
    (call : RouterCall δ) (action : RouterAction δ) (effect : Option (Effect δ β))
    (next : Option (RouterCall δ)) (h : RouterStep webhookStreams msgs call effect next) :
    RouterMove batchSize webhookStreams blockStream action ⟨.handler msgs isBacklogMsg, call⟩
      (streamAfter blockStream effect) (resume msgs isBacklogMsg next) effect

theorem routerMove_of_step {batchSize : Nat} {webhookStreams : List δ}
    {blockStream stream : GroupStream Unit (BlockStreamMsgData β)}
    {router router' : BlockRouter δ β} {action : RouterAction δ} {effect : Option (Effect δ β)}
    (h : router.step batchSize webhookStreams blockStream action = some (stream, router', effect)) :
    RouterMove batchSize webhookStreams blockStream action router stream router' effect := by
  obtain ⟨loop, call⟩ := router
  simp only [BlockRouter.step] at h
  split at h
  · cases h; exact .crash _
  · cases h; exact .readBacklog _ call _ _ rfl
  · split at h
    · cases h
    · next loop stream hread => cases h; exact .readNew call loop stream hread
  · split at h
    · cases h
    · next effect next hcall =>
      cases h
      exact .call _ _ _ _ _ _ (routerStep_of_handleMessages hcall)
  · cases h

end Outcomes

end BlockFeed.Native
