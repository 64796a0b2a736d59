import BlockFeed.ForStd.Loop
import BlockFeed.Native.BlockStore

/-!
# The Ethereum block source

`EthBlockSource.Subscribe` takes the headers of a subscription one at a time. With a start height
it is behind, and the first header makes it catch up: a loop hands the blocks from `currHeight` to
the number of the header to the handler. From then on it hands on the block of each header. The
loop need not end, so what an event does is a relation, `EthBlockSource.Receives`.

Header numbers are `big.Int` and heights `uint64`.
-/

namespace BlockFeed.Native

/-- `types.Block`: its number and what else is in it. -/
structure EthBlock (β : Type) where
  number : Nat
  rest : β

/-- What `Subscribe` calls: `BlockByNumber`, `stringifyBlock`, and whether `handler` accepts. -/
structure EthCalls (β δ : Type) where
  blockByNumber : Nat → Option (EthBlock β)
  stringifyBlock : EthBlock β → Option δ
  handler : BlockDocument δ → Bool

/-- What the `select` of `Subscribe` sees. -/
inductive EthEvent where
  | ctxDone
  /-- `sub.Err()` has an error, or is closed -/
  | subErr
  /-- the number of a header, `none` if the channel is closed -/
  | header (number : Option Nat)

/-- `ethsrc.EthBlockSource` in `Subscribe`, with the blocks that the handler took. -/
structure EthBlockSource (δ : Type) where
  /-- `none` if it is nil -/
  currHeight : Option UInt64
  isBehind : Bool
  passed : List (BlockDocument δ)
  returned : Bool

namespace EthBlockSource

variable {β δ : Type}

/-- `NewEthBlockSource`, and `Subscribe` up to its loop. -/
def new (startHeight : Option UInt64) : EthBlockSource δ where
  currHeight := startHeight
  isBehind := startHeight.isSome
  passed := []
  returned := false

/-- The block of a number, from `BlockByNumber` to the handler. The height is that of the block
    or of the header. -/
def pass (calls : EthCalls β δ) (number : Nat) (height : EthBlock β → UInt64)
    (s : EthBlockSource δ) : EthBlockSource δ :=
  match calls.blockByNumber number with
  | none => { s with returned := true }
  | some block =>
    match calls.stringifyBlock block with
    | none => { s with returned := true }
    | some data =>
      if calls.handler ⟨data, height block⟩ then
        { s with passed := s.passed ++ [⟨data, height block⟩] }
      else { s with returned := true }

/-- One round of the catch-up loop, `none` if it is left. -/
def catchUp (calls : EthCalls β δ) (number : Nat) (s : EthBlockSource δ) :
    Option (EthBlockSource δ) :=
  if s.returned then none
  else
    match s.currHeight with
    | none => none
    | some currHeight =>
      -- Cmp(header.Number) != 1
      if currHeight.toNat ≤ number then
        -- here the height is that of the block
        let s := s.pass calls currHeight.toNat fun block => UInt64.ofNat block.number
        if s.returned then some s else some { s with currHeight := some (currHeight + 1) }
      else none

/-- One event: what `Subscribe` has done when it waits for the next one, or returns. -/
def Receives (calls : EthCalls β δ) (s : EthBlockSource δ) : EthEvent → EthBlockSource δ → Prop
  | .ctxDone, t => t = { s with returned := true }
  | .subErr, t => t = { s with returned := true }
  | .header none, t => t = { s with returned := true }
  | .header (some number), t =>
    if s.isBehind then
      ∃ u, LoopEnds (catchUp calls number) s u ∧
        t = if u.returned then u else { u with isBehind := false }
    -- and here that of the header, which is not compared with `currHeight`
    else t = s.pass calls number fun _ => UInt64.ofNat number

/-- The events up to the one that `Subscribe` returns at. -/
def Subscribe (calls : EthCalls β δ) : EthBlockSource δ → List EthEvent → EthBlockSource δ → Prop
  | s, [], t => t = s
  | s, event :: events, t =>
    if s.returned then t = s
    else ∃ u, s.Receives calls event u ∧ Subscribe calls u events t

/-- An event has one outcome at most. -/
theorem receives_unique {calls : EthCalls β δ} {s t t' : EthBlockSource δ} {event : EthEvent}
    (h : s.Receives calls event t) (h' : s.Receives calls event t') : t = t' := by
  cases event with
  | ctxDone => exact h.trans h'.symm
  | subErr => exact h.trans h'.symm
  | header number =>
    cases number with
    | none => exact h.trans h'.symm
    | some number =>
      simp only [Receives] at h h'
      split at h
      · next hbehind =>
        rw [if_pos hbehind] at h'
        obtain ⟨u, hends, rfl⟩ := h
        obtain ⟨u', hends', rfl⟩ := h'
        rw [loopEnds_unique hends hends']
      · next hbehind =>
        rw [if_neg hbehind] at h'
        exact h.trans h'.symm

theorem subscribe_unique {calls : EthCalls β δ} {s t t' : EthBlockSource δ}
    {events : List EthEvent} (h : Subscribe calls s events t) (h' : Subscribe calls s events t') :
    t = t' := by
  induction events generalizing s with
  | nil => exact h.trans h'.symm
  | cons event events ih =>
    simp only [Subscribe] at h h'
    split at h
    · next hreturned =>
      rw [if_pos hreturned] at h'
      exact h.trans h'.symm
    · next hreturned =>
      rw [if_neg hreturned] at h'
      obtain ⟨u, hfirst, hrest⟩ := h
      obtain ⟨u', hfirst', hrest'⟩ := h'
      rw [receives_unique hfirst' hfirst] at hrest'
      exact ih hrest hrest'

end EthBlockSource

end BlockFeed.Native
