import BlockFeed.ForStd.Transition
import BlockFeed.Native.WebhookStream

/-!
# Which jobs wait in the pending set

A job that is not new carries the height of the next block to send, so it should wait only for
a block above the latest block height of its shard: `Fresh`. The scripts compare that height as
if it were the last block sent: `Flush` leaves a job at the flushed height behind, and `XAckDel`
parks a job at the latest height.

`always_fresh_iff` says exactly when a run stays fresh: each job that is at or below the height
it is compared with has to be strictly below it. `flushNextBlock` is the ordinary run that does
not.
-/

namespace BlockFeed.Spec

open BlockFeed.Native Redis Transition

section Freshness

variable {κ ι T : Type} [DecidableEq ι] [LinearOrder T] [JobText ι T]

/-- The scripts as a transition system; each call is always possible. -/
def callStep (shard : Shard κ ι T) (call : ShardCall ι) : Option (Shard κ ι T) :=
  some (shard.call call)

/-- No job that is not new waits for a block the shard already knows of. -/
def Fresh (shard : Shard κ ι T) : Prop :=
  ∀ latest, shard.latestBlockHeight = some latest →
    ∀ e ∈ shard.pendingSet.entries, ∀ data, JobText.parse e.2 = some data →
      data.isNew = false → latest < data.blockHeight.toNat

/-- A job does not sit on the height it is compared with: if it is not above, it is below. -/
def OffBoundary (latest : Nat) (data : WebhookStreamMsgData ι) : Prop :=
  data.isNew = false → data.blockHeight.toNat ≤ latest → score data.blockHeight < latest

/-- The calls that keep a shard fresh: no pending job sits on a flushed height, and no new job
    sits on the latest height. -/
def FreshCall (shard : Shard κ ι T) : ShardCall ι → Prop
  | .activate _ => True
  | .flush height =>
    ∀ e ∈ shard.pendingSet.entries, ∀ data, JobText.parse e.2 = some data →
      OffBoundary (score height) data
  | .xAckDel _ none => True
  | .xAckDel _ (some newMsg) =>
    ∀ latest, shard.latestBlockHeight = some latest → OffBoundary latest newMsg

/-- Pending jobs have the score of their height. -/
def Scored (shard : Shard κ ι T) : Prop :=
  ∀ e ∈ shard.pendingSet.entries, ∃ data, JobText.parse e.2 = some data ∧
    e.1 = score data.blockHeight

omit [DecidableEq ι] in
theorem scored_empty : Scored (Shard.empty : Shard κ ι T) := by
  intro e he
  cases he

theorem scored_activate {shard : Shard κ ι T} (h : Scored shard) (ids : List ι) :
    Scored (shard.activate ids) := by
  intro e he
  cases Shard.mem_pendingSet_activate he with
  | inl he => exact h e he
  | inr hnew =>
    obtain ⟨id, -, -, rfl⟩ := hnew
    exact ⟨_, JobText.parse_encode id, score_zero.symm⟩

omit [DecidableEq ι] in
theorem scored_flush {shard : Shard κ ι T} (h : Scored shard) (height : UInt64) :
    Scored (shard.flush height) := by
  rw [Shard.flush_eq]
  exact fun e he => h e (List.mem_of_mem_filter he)

theorem scored_xAckDel {shard : Shard κ ι T} (h : Scored shard)
    (oldMsg : ParsedStreamMessage (WebhookStreamMsgData ι))
    (newMsg : Option (WebhookStreamMsgData ι)) : Scored (shard.xAckDel oldMsg newMsg) := by
  intro e he
  cases Shard.mem_pendingSet_xAckDel he with
  | inl he => exact h e he
  | inr hnew =>
    obtain ⟨data, -, -, rfl⟩ := hnew
    exact ⟨data, JobText.parse_marshal data, rfl⟩

theorem scored_call {shard : Shard κ ι T} (h : Scored shard) (call : ShardCall ι) :
    Scored (shard.call call) := by
  cases call with
  | activate ids => exact scored_activate h ids
  | flush height => exact scored_flush h height
  | xAckDel oldMsg newMsg => exact scored_xAckDel h oldMsg newMsg

/-- Activation adds new jobs only. -/
private theorem fresh_activate {shard : Shard κ ι T} (h : Fresh shard) (ids : List ι) :
    Fresh (shard.activate ids) := by
  intro latest hlatest e he data hdata hold
  rw [Shard.latestBlockHeight_activate] at hlatest
  cases Shard.mem_pendingSet_activate he with
  | inl he => exact h latest hlatest e he data hdata hold
  | inr hnew =>
    obtain ⟨id, -, -, rfl⟩ := hnew
    rw [JobText.parse_encode] at hdata
    cases hdata
    cases hold

omit [DecidableEq ι] in
/-- A flush leaves the jobs whose score is at least that of its height. -/
private theorem fresh_flush {shard : Shard κ ι T} (hscored : Scored shard) (height : UInt64) :
    Fresh (shard.flush height) ↔ FreshCall shard (.flush height) := by
  rw [Shard.flush_eq]
  constructor
  · intro hfresh e he data hdata hold hle
    apply Nat.not_le.1
    intro hge
    -- a job on the boundary stays, at or below the new latest height
    obtain ⟨data', hdata', hscore⟩ := hscored e he
    have hsame : data' = data := Option.some.inj (hdata'.symm.trans hdata)
    rw [hsame] at hscore
    have hstays : e ∈ (shard.pendingSet.restrict fun e => score height ≤ e.1).entries :=
      List.mem_filter.2 ⟨he, decide_eq_true (hscore ▸ hge)⟩
    have hlt := hfresh (score height) rfl e hstays data hdata hold
    omega
  · -- what stays has at least the score of the height; off the boundary it is above
    intro hoff latest hlatest e he data hdata hold
    cases hlatest
    obtain ⟨hmem, hge⟩ := List.mem_filter.1 he
    have hge := of_decide_eq_true hge
    obtain ⟨data', hdata', hscore⟩ := hscored e hmem
    have hsame : data' = data := Option.some.inj (hdata'.symm.trans hdata)
    rw [hsame] at hscore
    apply Nat.not_le.1
    intro hle
    have hlt := hoff e hmem data hdata hold hle
    omega

/-- `XAckDel` parks its job unless it is below the latest height. -/
private theorem fresh_xAckDel {shard : Shard κ ι T} (h : Fresh shard)
    (oldMsg : ParsedStreamMessage (WebhookStreamMsgData ι)) (newMsg : WebhookStreamMsgData ι) :
    Fresh (shard.xAckDel oldMsg (some newMsg)) ↔
      FreshCall shard (.xAckDel oldMsg (some newMsg)) := by
  constructor
  · -- a job on the boundary is parked, and then the shard is not fresh
    intro hfresh latest hlatest hold hle
    by_contra hge
    have hparked : ¬ shard.Behind newMsg.blockHeight := by
      rw [Shard.behind_iff hlatest]
      exact hge
    have hmem : ((score newMsg.blockHeight, JobText.marshal newMsg) : Nat × T) ∈
        (shard.xAckDel oldMsg (some newMsg)).pendingSet.entries := by
      rw [Shard.xAckDel_parked hparked]
      exact SortedSet.mem_entries_zadd.2 (.inl rfl)
    have hlt := hfresh latest ((Shard.latestBlockHeight_xAckDel ..).trans hlatest) _ hmem newMsg
      (JobText.parse_marshal newMsg) hold
    omega
  · intro hoff latest hlatest e he data hdata hold
    rw [Shard.latestBlockHeight_xAckDel] at hlatest
    cases Shard.mem_pendingSet_xAckDel he with
    | inl he => exact h latest hlatest e he data hdata hold
    | inr hnew =>
      -- the new job is parked, so it is not below the latest height
      obtain ⟨data', hdata', hparked, rfl⟩ := hnew
      cases hdata'
      rw [JobText.parse_marshal] at hdata
      cases hdata
      by_contra hle
      exact hparked ((Shard.behind_iff hlatest _).2 (hoff latest hlatest hold (Nat.not_lt.1 hle)))

/-- From a fresh shard, a call keeps it fresh exactly when it is a `FreshCall`. -/
theorem fresh_call {shard : Shard κ ι T} (hscored : Scored shard) (h : Fresh shard)
    (call : ShardCall ι) : Fresh (shard.call call) ↔ FreshCall shard call := by
  cases call with
  | activate ids => exact ⟨fun _ => trivial, fun _ => fresh_activate h ids⟩
  | flush height => exact fresh_flush hscored height
  | xAckDel oldMsg newMsg =>
    cases newMsg with
    | none => exact ⟨fun _ => trivial, fun _ => h⟩
    | some newMsg => exact fresh_xAckDel h oldMsg newMsg

/-- A run of the scripts stays fresh if and only if no pending job sits on a flushed height
    and no job is put back on the latest height. -/
theorem always_fresh_iff (calls : List (ShardCall ι)) :
    Always callStep Fresh (Shard.empty : Shard κ ι T) calls ↔
      Meets callStep FreshCall (Shard.empty : Shard κ ι T) calls := by
  have hkeep : ∀ (shard : Shard κ ι T) call shard', callStep shard call = some shard' →
      Scored shard → Scored shard' := by
    intro shard call shard' hstep hscored
    cases hstep
    exact scored_call hscored call
  have hexact : ∀ (shard : Shard κ ι T) call shard', callStep shard call = some shard' →
      Scored shard → Fresh shard → (Fresh shard' ↔ FreshCall shard call) := by
    intro shard call shard' hstep hscored hfresh
    cases hstep
    exact fresh_call hscored hfresh call
  have hinit : Fresh (Shard.empty : Shard κ ι T) := by
    intro latest hlatest
    cases hlatest
  exact always_iff_meets hkeep hexact scored_empty hinit

end Freshness

/-- One webhook is activated, served up to block 5, and block 6 arrives. -/
def flushNextBlock : List (ShardCall Nat) :=
  [.activate [7], .flush 5, .xAckDel ⟨1, ⟨7, 0, true⟩⟩ (some ⟨7, 6, false⟩), .flush 6]

/-- The flush of block 6 leaves the job that waits for block 6 in the pending set. -/
theorem not_always_fresh :
    ¬ Always callStep Fresh (Shard.empty : Shard Unit Nat TupleText) flushNextBlock := by
  intro h
  -- on to the state after the last call
  obtain ⟨-, h⟩ := h
  obtain ⟨-, h⟩ := h _ rfl
  obtain ⟨-, h⟩ := h _ rfl
  obtain ⟨-, h⟩ := h _ rfl
  have hfresh : Fresh (T := TupleText) _ := h _ rfl
  exact absurd (hfresh 6 rfl (6, toLex (7, toLex (6, false))) (by decide) ⟨7, 6, false⟩ rfl rfl)
    (by decide)

end BlockFeed.Spec
