import BlockFeed.Native.BlockForwarder
import BlockFeed.Native.EthSource

/-!
# The Ethereum forwarder

The forwarder of an Ethereum chain runs an `EthBlockSource`. `EthBlockSource.Receives` takes an
event of its subscription at once; `EthSubscribe` takes the calls that follow it one by one, so
that other processes can act in between and any of them may fail.
-/

namespace BlockFeed.Native

/-- What `Subscribe` waits for. -/
inductive EthPhase (δ : Type) where
  | subscribeNewHead
  | select
  /-- `BlockByNumber` of `currHeight`, in the loop up to the number of a header -/
  | catchUp (number : Nat)
  /-- in the loop, `handler` runs -/
  | handleCaughtUp (number : Nat) (block : BlockDocument δ)
  /-- `BlockByNumber` of a header -/
  | newHead (number : Nat)
  /-- `handler` runs for the block of a header -/
  | handleNewHead (block : BlockDocument δ)
  | returned

/-- How a call or a receive comes out. -/
inductive EthAction (η : Type) where
  | subscribed (ok : Bool)
  /-- `<-ctx.Done()` is selected -/
  | ctxDone
  /-- a receive from `sub.Err()` -/
  | subErr
  /-- the number of a header, `none` if the channel is closed -/
  | header (number : Option Nat)
  /-- `BlockByNumber`, `none` for an error -/
  | block (result : Option (EthBlock η))
  | handled (ok : Bool)

/-- A source in `Subscribe`. -/
structure EthSubscribe (δ : Type) where
  source : EthBlockSource δ
  phase : EthPhase δ
  /-- the number of the last header that the channel delivered -/
  newest : Option Nat

namespace EthSubscribe

variable {δ η : Type}

/-- `NewEthBlockSource`, and `Subscribe` up to its first call. -/
def new (startHeight : Option UInt64) : EthSubscribe δ :=
  ⟨.new startHeight, .subscribeNewHead, none⟩

/-- The condition of the loop. -/
def loop (number : Nat) (s : EthSubscribe δ) : EthSubscribe δ :=
  if s.source.currHeight.any fun currHeight => currHeight.toNat ≤ number then
    { s with phase := .catchUp number }
  else { s with source := { s.source with isBehind := false }, phase := .select }

/-- `Subscribe` returns. -/
def stop (s : EthSubscribe δ) : EthSubscribe δ :=
  { s with source := { s.source with returned := true }, phase := .returned }

/-- The handler has taken a block. -/
def take (block : BlockDocument δ) (s : EthSubscribe δ) : EthSubscribe δ :=
  { s with source := { s.source with passed := s.source.passed ++ [block] } }

/-- `*currHeight += 1` -/
def advance (s : EthSubscribe δ) : EthSubscribe δ :=
  { s with source := { s.source with currHeight := s.source.currHeight.map (· + 1) } }

/-- `Subscribe` up to its next call or receive. -/
def step (stringifyBlock : EthBlock η → Option δ) (s : EthSubscribe δ) :
    EthAction η → Option (EthSubscribe δ)
  | .subscribed ok =>
    match s.phase with
    | .subscribeNewHead => if ok then some { s with phase := .select } else some s.stop
    | _ => none
  | .ctxDone =>
    match s.phase with
    | .select => some s.stop
    | _ => none
  | .subErr =>
    match s.phase with
    | .select => some s.stop
    | _ => none
  | .header none =>
    match s.phase with
    | .select => some s.stop
    | _ => none
  | .header (some number) =>
    match s.phase with
    | .select =>
      if s.source.isBehind then some ({ s with newest := some number }.loop number)
      else some { s with newest := some number, phase := .newHead number }
    | _ => none
  | .block none =>
    match s.phase with
    | .catchUp _ | .newHead _ => some s.stop
    | _ => none
  | .block (some block) =>
    match s.phase with
    | .catchUp number =>
      match stringifyBlock block with
      | none => some s.stop
      -- the height is that of the block
      | some data =>
        some { s with phase := .handleCaughtUp number ⟨data, UInt64.ofNat block.number⟩ }
    | .newHead number =>
      match stringifyBlock block with
      | none => some s.stop
      -- and here that of the header
      | some data => some { s with phase := .handleNewHead ⟨data, UInt64.ofNat number⟩ }
    | _ => none
  | .handled ok =>
    match s.phase with
    | .handleCaughtUp number block =>
      if ok then some ((s.take block).advance.loop number) else some s.stop
    | .handleNewHead block =>
      if ok then some { s.take block with phase := .select } else some s.stop
    | _ => none

/-- The block that the handler runs for. -/
def handling (s : EthSubscribe δ) : Option (BlockDocument δ) :=
  match s.phase with
  | .handleCaughtUp _ block => some block
  | .handleNewHead block => some block
  | _ => none

end EthSubscribe

/-- `NewEthBlockSource` for a forwarder. -/
def ethBlockSource {δ η : Type} (stringifyBlock : EthBlock η → Option δ) :
    BlockSource (EthSubscribe δ) (EthAction η) δ where
  subscribe := .new
  step := EthSubscribe.step stringifyBlock
  handling := EthSubscribe.handling
  handled := .handled

end BlockFeed.Native
