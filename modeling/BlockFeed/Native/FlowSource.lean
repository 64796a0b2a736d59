import BlockFeed.ForStd.Transition
import BlockFeed.Native.BlockStore

/-!
# The Flow block source

`FlowBlockSource.Subscribe` as a step machine: a `FlowPhase` is what it waits for, a `FlowAction`
how that comes out. A subscription delivers data until it fails or is closed; then `reconnect`
asks for the block at `currHeight` itself, hands it to the handler, and subscribes anew.
Both fetches and the new subscription are calls of `ExponentialBackoff`. How long it waits is not
modelled here.

`emit` is what can be seen of a step: the blocks that the handler took, and the heights of the
subscriptions that were asked for.
-/

namespace BlockFeed.Native

/-! ## ExponentialBackoff -/

/-- A call of `ExponentialBackoff` that has not returned yet. -/
inductive Backoff where
  /-- the callback is called -/
  | calling (retryCount : Nat)
  /-- in the `select` -/
  | waiting (retryCount : Nat)
deriving DecidableEq, Repr

/-- What it sees. -/
inductive BackoffEvent (τ : Type) where
  /-- the callback returns, `none` for an error -/
  | returned (result : Option τ)
  | timer
  | ctxDone
deriving DecidableEq, Repr

/-- What it does then. -/
inductive BackoffStep (τ : Type) where
  | next (b : Backoff)
  | result (result : τ)
  | error
  | panicked
deriving DecidableEq, Repr

/-- The two options of a source that decide how a call fares. -/
structure ReconnectOpts where
  maxRandMs : Nat
  maxRetries : Nat

namespace ExponentialBackoff

/-- The call up to the callback, `none` if there is no attempt. -/
def start (opts : ReconnectOpts) : Option Backoff :=
  if opts.maxRetries = 0 then none else some (.calling 0)

/-- The call up to its next wait. -/
def step {τ : Type} (opts : ReconnectOpts) : Backoff → BackoffEvent τ → Option (BackoffStep τ)
  | .calling _, .returned (some result) => some (.result result)
  | .calling retryCount, .returned none =>
    if retryCount + 1 ≥ opts.maxRetries then some .error
    -- rand.Intn(maxRandMs)
    else if opts.maxRandMs = 0 then some .panicked
    else some (.next (.waiting (retryCount + 1)))
  | .waiting _, .ctxDone => some .error
  | .waiting retryCount, .timer => some (.next (.calling retryCount))
  | _, _ => none

end ExponentialBackoff

/-! ## FlowBlockSource -/

/-- `flowsrc.FlowBlockSourceOpts`, without the initial delay. -/
structure FlowBlockSourceOpts where
  reconnectRandDelayMs : Option Int
  reconnectAttempts : Option Int

/-- An option that is missing or negative has its default. -/
def reconnectOption (opt : Option Int) (default : Nat) : Nat :=
  match opt with
  | some n => if n ≥ 0 then n.toNat else default
  | none => default

/-- The options as `NewFlowBlockSource` sets them. -/
def newFlowBlockSourceOpts (opts : FlowBlockSourceOpts) : ReconnectOpts where
  maxRandMs := reconnectOption opts.reconnectRandDelayMs 500
  maxRetries := reconnectOption opts.reconnectAttempts 3

/-- `flow.Block`: its height and what else is in it. -/
structure FlowBlock (β : Type) where
  height : UInt64
  rest : β

/-- `flow.ExecutionDataStreamResponse`. -/
structure FlowResponse (ι : Type) where
  height : UInt64
  /-- `ExecutionData.BlockID` -/
  blockID : ι

/-- A subscription: the height it was opened at, and how much it has delivered. -/
structure FlowSubscription where
  startHeight : UInt64
  delivered : Nat

/-- The position of `Subscribe`. -/
inductive FlowPhase (ι δ : Type) where
  | getLatestBlock
  /-- the first subscription -/
  | subscribe
  | select
  | getBlockByID (resp : FlowResponse ι) (b : Backoff)
  /-- `handler` runs for a block of the subscription -/
  | handleData (resp : FlowResponse ι) (block : BlockDocument δ)
  /-- in `reconnect` -/
  | getBlockByHeight (b : Backoff)
  /-- in `reconnect`, `handler` runs -/
  | handleBlock (block : BlockDocument δ)
  /-- in `reconnect` -/
  | resubscribe (b : Backoff)
  | returned
  | panicked

/-- How a call or a receive comes out. -/
inductive FlowAction (ι β : Type) where
  | getLatestBlock (result : Option (FlowBlock β))
  | subscribed (ok : Bool)
  /-- `<-ctx.Done()` is selected -/
  | ctxDone
  /-- a receive from `errs`, and whether `ctx.Err()` is set -/
  | errs (ok ctxErr : Bool)
  /-- a receive from `data`, `none` if it is closed -/
  | data (resp : Option (FlowResponse ι)) (ctxErr : Bool)
  | getBlock (event : BackoffEvent (FlowBlock β))
  | handled (ok : Bool)
  | resubscribe (event : BackoffEvent Unit)

/-- What can be seen of a step. -/
inductive FlowOutput where
  | handled (height : UInt64)
  | subscribed (height : UInt64)
deriving DecidableEq, Repr

/-- `flowsrc.FlowBlockSource` in `Subscribe`. -/
structure FlowBlockSource (ι δ : Type) where
  /-- `none` if it is nil -/
  currHeight : Option UInt64
  opts : ReconnectOpts
  /-- `data` and `errs` -/
  subscription : Option FlowSubscription
  phase : FlowPhase ι δ

namespace FlowBlockSource

variable {ι β δ : Type}

/-- `NewFlowBlockSource`, and `Subscribe` up to its first call. -/
def new (startHeight : Option UInt64) (opts : FlowBlockSourceOpts) : FlowBlockSource ι δ where
  currHeight := startHeight
  opts := newFlowBlockSourceOpts opts
  subscription := none
  phase := if startHeight.isNone then .getLatestBlock else .subscribe

/-- `formatBlock`. -/
def formatBlock (stringifyBlock : FlowBlock β → Option δ) (block : FlowBlock β) :
    Option (BlockDocument δ) :=
  (stringifyBlock block).map fun data => ⟨data, block.height⟩

/-- `reconnect` from its second call on. -/
def resubscribe (opts : ReconnectOpts) : FlowPhase ι δ :=
  match ExponentialBackoff.start opts with
  | some b => .resubscribe b
  | none => .returned

/-- `reconnect`. An error of the first call is dropped. -/
def reconnect (opts : ReconnectOpts) : FlowPhase ι δ :=
  match ExponentialBackoff.start opts with
  | some b => .getBlockByHeight b
  | none => resubscribe opts

/-- `Subscribe` up to its next call or receive. -/
def step (stringifyBlock : FlowBlock β → Option δ) (s : FlowBlockSource ι δ) :
    FlowAction ι β → Option (FlowBlockSource ι δ)
  | .getLatestBlock result =>
    match s.phase, result with
    | .getLatestBlock, none => some { s with phase := .returned }
    | .getLatestBlock, some block =>
      some { s with currHeight := some block.height, phase := .subscribe }
    | _, _ => none
  | .subscribed ok =>
    match s.phase with
    | .subscribe =>
      if ok then
        some { s with subscription := s.currHeight.map (⟨·, 0⟩), phase := .select }
      else some { s with phase := .returned }
    | _ => none
  | .ctxDone =>
    match s.phase with
    | .select => some { s with phase := .returned }
    | _ => none
  | .errs ok ctxErr =>
    match s.phase with
    | .select =>
      -- the error itself is only printed
      if !ok && ctxErr then some { s with phase := .returned }
      else some { s with phase := reconnect s.opts }
    | _ => none
  | .data resp ctxErr =>
    match s.phase, resp with
    | .select, none =>
      if ctxErr then some { s with phase := .returned }
      else some { s with phase := reconnect s.opts }
    | .select, some resp =>
      -- `currHeight` is not set before the handler has returned
      let subscription := s.subscription.map fun sub => { sub with delivered := sub.delivered + 1 }
      match ExponentialBackoff.start s.opts with
      | some b => some { s with subscription := subscription, phase := .getBlockByID resp b }
      | none => some { s with subscription := subscription, phase := .returned }
    | _, _ => none
  | .getBlock event =>
    match s.phase with
    | .getBlockByID resp b =>
      match ExponentialBackoff.step s.opts b event with
      | none => none
      | some (.next b) => some { s with phase := .getBlockByID resp b }
      | some (.result block) =>
        match formatBlock stringifyBlock block with
        | some block => some { s with phase := .handleData resp block }
        | none => some { s with phase := .returned }
      | some .error => some { s with phase := .returned }
      | some .panicked => some { s with phase := .panicked }
    | .getBlockByHeight b =>
      match ExponentialBackoff.step s.opts b event with
      | none => none
      | some (.next b) => some { s with phase := .getBlockByHeight b }
      | some (.result block) =>
        match formatBlock stringifyBlock block with
        | some block => some { s with phase := .handleBlock block }
        | none => some { s with phase := resubscribe s.opts }
      -- `err` of the block is overwritten: the next subscription is asked for at the same height
      | some .error => some { s with phase := resubscribe s.opts }
      | some .panicked => some { s with phase := .panicked }
    | _ => none
  | .handled ok =>
    match s.phase with
    | .handleData resp _ =>
      -- the height is that of the response, not of the block
      if ok then some { s with currHeight := some (resp.height + 1), phase := .select }
      else some { s with phase := .returned }
    | .handleBlock _ =>
      if ok then some { s with currHeight := s.currHeight.map (· + 1), phase := resubscribe s.opts }
      else some { s with phase := .returned }
    | _ => none
  | .resubscribe event =>
    match s.phase with
    | .resubscribe b =>
      match ExponentialBackoff.step s.opts b event with
      | none => none
      | some (.next b) => some { s with phase := .resubscribe b }
      | some (.result _) =>
        some { s with subscription := s.currHeight.map (⟨·, 0⟩), phase := .select }
      | some .error => some { s with phase := .returned }
      | some .panicked => some { s with phase := .panicked }
    | _ => none

/-- The subscription that is asked for at the current height. -/
def asked (s : FlowBlockSource ι δ) : List FlowOutput :=
  s.currHeight.toList.map FlowOutput.subscribed

/-- What can be seen of the step that an action takes. -/
def emit (s : FlowBlockSource ι δ) : FlowAction ι β → List FlowOutput
  | .subscribed _ => s.asked
  -- each attempt asks for a subscription, also one that fails
  | .resubscribe (.returned _) => s.asked
  | .handled true =>
    match s.phase with
    | .handleData _ block => [.handled block.height]
    | .handleBlock block => [.handled block.height]
    | _ => []
  | _ => []

end FlowBlockSource

end BlockFeed.Native
