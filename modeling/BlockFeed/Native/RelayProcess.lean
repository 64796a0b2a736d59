import BlockFeed.ForStd.Transition
import BlockFeed.Native.BlockRelay

/-!
# The relay process

`BlockRelay.Run` starts one goroutine for each index below `Concurrency`; goroutine `i` reads as
the consumer `consumerName name i`. A goroutine ends when one of its reads fails, and the process
goes on with the others (`errgroup` waits for all of them) until none is left. It may be stopped
anywhere and started again under the same name, with the same concurrency or another one.

What a process holds in memory is lost with it: its consumers start over.
-/

namespace BlockFeed.Native

open Redis

/-- `fmt.Sprintf("%s-%d", consumerName, i)`. -/
def consumerName (name : String) (i : Nat) : String := name ++ "-" ++ toString i

/-- Goroutines have names of their own. -/
theorem consumerName_inj {name : String} {i j : Nat} :
    consumerName name i = consumerName name j ↔ i = j := by
  rw [consumerName, consumerName, String.append_right_inj]
  constructor
  · intro h
    -- the digits give the number back
    have hdigits : Nat.toDigits 10 i = Nat.toDigits 10 j := by
      rw [← Nat.toList_repr, ← Nat.toList_repr]
      exact congrArg String.toList h
    rw [← Nat.ofDigitChars_ten_toDigits (n := i), hdigits, Nat.ofDigitChars_ten_toDigits]
  · exact fun h => congrArg toString h

/-- A shard and the process of its relay. -/
structure RelayProcess (ι T β : Type) [LinearOrder T] where
  relay : RelayState String ι T β
  /-- the goroutines that have not ended; none while the relay is stopped -/
  running : List Nat

/-- What happens to a shard and its relay. -/
inductive ProcessAction (ι β : Type) where
  | activate (ids : List ι)
  | flush (height : UInt64)
  | setWebhook (id : ι) (webhook : Option Webhook)
  | start (concurrency : Nat)
  | stop
  /-- XREADGROUP returns an error, executed or not -/
  | readFails (i : Nat)
  | consumer (i : Nat) (action : ConsumerAction β)

namespace RelayProcess

variable {ι T β : Type} [DecidableEq ι] [LinearOrder T] [JobText ι T]

/-- An empty shard, and the relay has not been started yet. -/
def init : RelayProcess ι T β := ⟨.init, []⟩

/-- The goroutines left after an action of goroutine `i`. -/
def stillRunning (running : List Nat) (i : Nat) (consumer : RelayConsumer ι β) : List Nat :=
  match consumer.call with
  -- nothing recovers from the panic
  | .panicked => []
  | _ =>
    match consumer.loop with
    -- `ParseMessage` has failed
    | .stopped => running.erase i
    | _ => running

/-- Takes one action of the process called `name`, `none` when it is not enabled. -/
def step (name : String) (s : RelayProcess ι T β) :
    ProcessAction ι β → Option (RelayProcess ι T β)
  | .activate ids => some { s with relay := { s.relay with shard := s.relay.shard.activate ids } }
  | .flush height => some { s with relay := { s.relay with shard := s.relay.shard.flush height } }
  | .setWebhook id webhook =>
    let webhooks := Function.update s.relay.webhooks id webhook
    some { s with relay := { s.relay with webhooks := webhooks } }
  | .start concurrency =>
    if s.running = [] ∧ 1 ≤ concurrency then
      some
        { relay := { s.relay with consumers := fun _ => .start }
          running := List.range concurrency }
    else none
  | .stop => some { s with running := [] }
  | .readFails i =>
    if i ∈ s.running then
      match (s.relay.consumers (consumerName name i)).call with
      -- at a read, or before the first call of the handler: the reply has been lost
      | .webhooksFindOne => some { s with running := s.running.erase i }
      | _ => none
    else none
  | .consumer i action =>
    match action with
    -- a goroutine does not crash by itself
    | .crash => none
    | action =>
      if i ∈ s.running then
        match s.relay.step (.consumer (consumerName name i) action) with
        | none => none
        | some relay =>
          some
            { relay := relay
              running := stillRunning s.running i (relay.consumers (consumerName name i)) }
      else none

/-- An action of a goroutine is one of its consumer, and the goroutine is running. -/
theorem step_consumer {name : String} {s s' : RelayProcess ι T β} {i : Nat}
    {action : ConsumerAction β} (h : s.step name (.consumer i action) = some s') :
    i ∈ s.running ∧ ∃ relay, s.relay.step (.consumer (consumerName name i) action) = some relay ∧
      s' = { relay := relay
             running := stillRunning s.running i (relay.consumers (consumerName name i)) } := by
  simp only [step] at h
  split at h
  · cases h
  · split at h
    · next hi =>
      split at h
      · cases h
      · next relay hstep =>
        cases h
        exact ⟨hi, relay, hstep, rfl⟩
    · cases h

end RelayProcess

end BlockFeed.Native
