import BlockFeed.Native.BlockForwarder
import BlockFeed.Native.FlowSource

/-!
# The Flow forwarder

The forwarder of a Flow chain runs a `FlowBlockSource`.
-/

namespace BlockFeed.Native

variable {ε β η : Type}

namespace FlowBlockSource

/-- The block that the handler runs for. -/
def handling (source : FlowBlockSource ε β) : Option (BlockDocument β) :=
  match source.phase with
  | .handleData _ block => some block
  | .handleBlock block => some block
  | _ => none

end FlowBlockSource

/-- `NewFlowBlockSource` for a forwarder. -/
def flowBlockSource (opts : FlowBlockSourceOpts) (stringifyBlock : FlowBlock η → Option β) :
    BlockSource (FlowBlockSource ε β) (FlowAction ε η) β where
  subscribe := fun startHeight => .new startHeight opts
  step := FlowBlockSource.step stringifyBlock
  handling := FlowBlockSource.handling
  handled := .handled

end BlockFeed.Native
