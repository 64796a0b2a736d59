import BlockFeed.ForStd.Loop
import BlockFeed.Native.WebhookStream

/-!
# The flush script with its loops

`Shard.flush` bounds the two loops of the script by the size of the pending set. Here they are
as the script has them, `while true do ... end`: `popRound` and `popBelowRound` are their bodies,
and `FlushRuns shard height shard'` says that the script, run on `shard`, ends in `shard'`.

The script always ends, and in `shard.flush height` (`flushRuns_iff`).
-/

namespace BlockFeed.Native

open Redis

namespace Shard

variable {κ ι T : Type} [LinearOrder T]

/-- One round of the first loop: ZPOPMIN and XADD. -/
def popRound : SortedSet Nat T × GroupStream κ T → Option (SortedSet Nat T × GroupStream κ T)
  | (pendingSet, stream) =>
    match pendingSet.zpopmin with
    | none => none
    | some ((_, job), rest) => some (rest, stream.xadd job)

/-- One round of the second loop: ZRANGE, the comparison, ZPOPMIN and XADD. -/
def popBelowRound (latest : Nat) :
    SortedSet Nat T × GroupStream κ T → Option (SortedSet Nat T × GroupStream κ T)
  | (pendingSet, stream) =>
    match pendingSet.zrange 0 0 with
    | [] => none
    | (blockHeight, job) :: _ =>
      if blockHeight ≥ latest then none else some (pendingSet.tail, stream.xadd job)

/-- The script, called with `height`, ends in a given state. -/
inductive FlushRuns (shard : Shard κ ι T) (height : UInt64) : Shard κ ι T → Prop where
  /-- `#max_elem == 0` -/
  | nothingPending (h : shard.pendingSet.zrange (-1) (-1) = []) :
    FlushRuns shard height { shard with latestBlockHeight := some (score height) }
  /-- the greatest score is below the height, and the first loop runs -/
  | popAll (maxElem : Nat) (job : T) (others : List (Nat × T)) (pendingSet : SortedSet Nat T)
    (webhookStream : GroupStream κ T)
    (h : shard.pendingSet.zrange (-1) (-1) = (maxElem, job) :: others)
    (hmax : maxElem < score height)
    (hloop : LoopEnds popRound (shard.pendingSet, shard.webhookStream)
      (pendingSet, webhookStream)) :
    FlushRuns shard height
      { shard with
        latestBlockHeight := some (score height)
        pendingSet := pendingSet
        webhookStream := webhookStream }
  /-- it is not, and the second loop runs -/
  | popBelow (maxElem : Nat) (job : T) (others : List (Nat × T)) (pendingSet : SortedSet Nat T)
    (webhookStream : GroupStream κ T)
    (h : shard.pendingSet.zrange (-1) (-1) = (maxElem, job) :: others)
    (hmax : ¬ maxElem < score height)
    (hloop : LoopEnds (popBelowRound (score height)) (shard.pendingSet, shard.webhookStream)
      (pendingSet, webhookStream)) :
    FlushRuns shard height
      { shard with
        latestBlockHeight := some (score height)
        pendingSet := pendingSet
        webhookStream := webhookStream }

/-! ### Both loops end -/

theorem rounds_popRound (fuel : Nat) (pendingSet : SortedSet Nat T) (stream : GroupStream κ T) :
    rounds popRound fuel (pendingSet, stream) = Shard.popAll fuel pendingSet stream := by
  induction fuel generalizing pendingSet stream with
  | zero => rfl
  | succ fuel ih =>
    simp only [rounds, popRound, Shard.popAll]
    cases pendingSet.zpopmin with
    | none => rfl
    | some p => exact ih _ _

theorem rounds_popBelowRound (latest fuel : Nat) (pendingSet : SortedSet Nat T)
    (stream : GroupStream κ T) :
    rounds (popBelowRound latest) fuel (pendingSet, stream) =
      Shard.popBelow latest fuel pendingSet stream := by
  induction fuel generalizing pendingSet stream with
  | zero => rfl
  | succ fuel ih =>
    simp only [rounds, popBelowRound, Shard.popBelow]
    cases pendingSet.zrange 0 0 with
    | nil => rfl
    | cons e es =>
      by_cases hge : e.1 ≥ latest
      · simp only [if_pos hge]
      · simp only [if_neg hge]
        exact ih _ _

/-- Each round of the first loop takes one job from the set. -/
theorem zcard_popRound {s s' : SortedSet Nat T × GroupStream κ T} (h : popRound s = some s') :
    s'.1.zcard < s.1.zcard := by
  obtain ⟨pendingSet, stream⟩ := s
  simp only [popRound] at h
  split at h
  · cases h
  · next job rest hpop =>
    cases h
    have hentries := SortedSet.entries_of_zpopmin hpop
    simp only [SortedSet.zcard, hentries, List.length_cons, Nat.lt_succ_self]

/-- So does each round of the second one. -/
theorem zcard_popBelowRound {latest : Nat} {s s' : SortedSet Nat T × GroupStream κ T}
    (h : popBelowRound latest s = some s') : s'.1.zcard < s.1.zcard := by
  obtain ⟨pendingSet, stream⟩ := s
  simp only [popBelowRound] at h
  split at h
  · cases h
  · next job others hfirst =>
    split at h
    · cases h
    · cases h
      -- the set that was just read has a first member
      have hne : pendingSet.entries ≠ [] := by
        intro hnil
        rw [show pendingSet.zrange 0 0 = pendingSet.entries.take 1 from
          pendingSet.zrange_first Nat.one_pos, hnil] at hfirst
        cases hfirst
      have hpos : 0 < pendingSet.entries.length := List.length_pos_iff.2 hne
      show pendingSet.entries.tail.length < pendingSet.entries.length
      rw [List.length_tail]
      omega

/-- The first loop ends with every job in the stream. -/
theorem loopEnds_popRound (pendingSet : SortedSet Nat T) (stream : GroupStream κ T) :
    LoopEnds popRound (pendingSet, stream) (.empty, stream.xaddAll pendingSet.members) := by
  rw [← popAll_eq _ pendingSet stream (Nat.le_refl _), ← rounds_popRound]
  exact loopEnds_rounds (fun s => s.1.zcard) (fun _ _ => zcard_popRound) (Nat.le_refl _)

/-- The second loop ends with the jobs below the limit in the stream. -/
theorem loopEnds_popBelowRound (latest : Nat) (pendingSet : SortedSet Nat T)
    (stream : GroupStream κ T) :
    LoopEnds (popBelowRound latest) (pendingSet, stream)
      (pendingSet.restrict (fun e => latest ≤ e.1),
        stream.xaddAll ((pendingSet.entries.filter (fun e => e.1 < latest)).map Prod.snd)) := by
  rw [← popBelow_eq latest _ pendingSet stream (Nat.le_refl _), ← rounds_popBelowRound]
  exact loopEnds_rounds (fun s => s.1.zcard) (fun _ _ => zcard_popBelowRound) (Nat.le_refl _)

/-! ### The script ends -/

/-- The script ends in one state, the one that `flush` computes. -/
theorem flushRuns_iff {shard shard' : Shard κ ι T} {height : UInt64} :
    FlushRuns shard height shard' ↔ shard' = shard.flush height := by
  constructor
  · intro h
    cases h with
    | nothingPending hnone => simp only [flush, hnone]
    | popAll maxElem job others pendingSet webhookStream hlast hmax hloop =>
      have hend := loopEnds_popRound shard.pendingSet shard.webhookStream
      have heq := loopEnds_unique hloop hend
      have hpop := popAll_eq _ shard.pendingSet shard.webhookStream (Nat.le_refl _)
      simp only [flush, hlast, if_pos hmax, hpop]
      cases heq
      rfl
    | popBelow maxElem job others pendingSet webhookStream hlast hmax hloop =>
      have hend := loopEnds_popBelowRound (score height) shard.pendingSet shard.webhookStream
      have heq := loopEnds_unique hloop hend
      have hpop :=
        popBelow_eq (score height) _ shard.pendingSet shard.webhookStream (Nat.le_refl _)
      simp only [flush, hlast, if_neg hmax, hpop]
      cases heq
      rfl
  · rintro rfl
    cases hlast : shard.pendingSet.zrange (-1) (-1) with
    | nil =>
      simp only [flush, hlast]
      exact .nothingPending hlast
    | cons e others =>
      obtain ⟨maxElem, job⟩ := e
      by_cases hmax : maxElem < score height
      · have hpop := popAll_eq _ shard.pendingSet shard.webhookStream (Nat.le_refl _)
        simp only [flush, hlast, if_pos hmax, hpop]
        exact .popAll maxElem job others _ _ hlast hmax (loopEnds_popRound _ _)
      · have hpop :=
          popBelow_eq (score height) _ shard.pendingSet shard.webhookStream (Nat.le_refl _)
        simp only [flush, hlast, if_neg hmax, hpop]
        exact .popBelow maxElem job others _ _ hlast hmax (loopEnds_popBelowRound _ _ _)

end Shard

end BlockFeed.Native
