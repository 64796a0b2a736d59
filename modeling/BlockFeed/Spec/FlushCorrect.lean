import BlockFeed.Native.FlushScript

/-!
# Flush moves exactly the stale jobs

`flushed shard height` is what a flush should make of the pending set and the stream: the jobs
with a score below the height go to the end of the stream in the order of the set, the others
stay. `MovesStale` says that the script does this, on either path, and that running it again, or
with a lower height before, makes no difference.

The script stores the height as a Lua number. So it keeps `MovesStale` exactly for the heights
that are doubles, which all heights up to `2 ^ 53` are (`flush_movesStale_iff`).
-/

namespace BlockFeed.Spec

open BlockFeed.Native Redis Shard

variable {κ ι T : Type} [LinearOrder T]

/-- The pending set and the stream once the jobs below a height have moved. -/
def flushed (shard : Shard κ ι T) (height : UInt64) : SortedSet Nat T × GroupStream κ T :=
  (shard.pendingSet.restrict (fun e => height.toNat ≤ e.1),
    shard.webhookStream.xaddAll
      ((shard.pendingSet.entries.filter (fun e => e.1 < height.toNat)).map Prod.snd))

/-- What the comment on the script says of a call of `Flush`. -/
structure MovesStale (shard : Shard κ ι T) (height : UInt64) : Prop where
  ends : ∃ shard', FlushRuns shard height shard'
  moved : ∀ shard', FlushRuns shard height shard' →
    shard' = { shard with
      latestBlockHeight := some height.toNat
      pendingSet := (flushed shard height).1
      webhookStream := (flushed shard height).2 }
  /-- the first loop, where it is entered -/
  fastPath : (∀ e ∈ shard.pendingSet.entries, e.1 < score height) →
    ∀ s, LoopEnds popRound (shard.pendingSet, shard.webhookStream) s ↔ s = flushed shard height
  /-- the second loop, for any set -/
  slowPath : ∀ s, LoopEnds (popBelowRound (score height))
    (shard.pendingSet, shard.webhookStream) s ↔ s = flushed shard height
  twice : ∀ shard' shard'', FlushRuns shard height shard' → FlushRuns shard' height shard'' →
    shard'' = shard'
  absorbs : ∀ lower ≤ height, ∀ shard' shard'', FlushRuns shard lower shard' →
    FlushRuns shard' height shard'' → FlushRuns shard height shard''

/-- Rounding a height changes no comparison with a score below `2 ^ 53`. -/
private theorem lt_score_iff {a : Nat} (h : a < 2 ^ 53) (height : UInt64) :
    a < score height ↔ a < height.toNat := by
  by_cases hlt : height.toNat < 2 ^ 53
  · rw [score, Double.round_eq_self hlt]
  · -- the height is above the score, and its double is not below `2 ^ 53`
    have hle : 2 ^ 53 ≤ height.toNat := Nat.not_lt.1 hlt
    have hround : Double.round (2 ^ 53) ≤ score height := Double.round_mono hle
    have hself : Double.round (2 ^ 53) = 2 ^ 53 := by decide
    rw [hself] at hround
    exact iff_of_true (Nat.lt_of_lt_of_le h hround) (Nat.lt_of_lt_of_le h hle)

/-- So the script splits the pending set at the height itself. -/
private theorem flush_split {shard : Shard κ ι T}
    (h : ∀ e ∈ shard.pendingSet.entries, e.1 < 2 ^ 53) (height : UInt64) :
    (shard.pendingSet.restrict (fun e => score height ≤ e.1),
      shard.webhookStream.xaddAll
        ((shard.pendingSet.entries.filter (fun e => e.1 < score height)).map Prod.snd)) =
      flushed shard height := by
  have hkeep : shard.pendingSet.restrict (fun e => score height ≤ e.1) =
      shard.pendingSet.restrict (fun e => height.toNat ≤ e.1) := by
    apply SortedSet.ext
    refine List.filter_congr fun e he => decide_eq_decide.2 ?_
    have hlt := lt_score_iff (h e he) height
    rw [← Nat.not_lt, hlt, Nat.not_lt]
  have hmove : shard.pendingSet.entries.filter (fun e => e.1 < score height) =
      shard.pendingSet.entries.filter (fun e => e.1 < height.toNat) :=
    List.filter_congr fun e he => decide_eq_decide.2 (lt_score_iff (h e he) height)
  rw [hkeep, hmove]
  rfl

/-- A flush leaves no job below the height it was called with or a lower one. -/
private theorem restrict_restrict (set : SortedSet Nat T) {a b : Nat} (h : a ≤ b) :
    (set.restrict (fun e => a ≤ e.1)).restrict (fun e => b ≤ e.1) =
      set.restrict (fun e => b ≤ e.1) := by
  apply SortedSet.ext
  show (set.entries.filter _).filter _ = set.entries.filter _
  rw [List.filter_filter]
  refine List.filter_congr fun e _ => ?_
  by_cases hb : b ≤ e.1
  · simp [hb, Nat.le_trans h hb]
  · simp [hb]

/-- What moves with the higher limit is what moves with the lower one and then the rest. -/
private theorem filter_lt_append (set : SortedSet Nat T) {a b : Nat} (h : a ≤ b) :
    set.entries.filter (fun e => e.1 < a) ++
        (set.restrict (fun e => a ≤ e.1)).entries.filter (fun e => e.1 < b) =
      set.entries.filter (fun e => e.1 < b) := by
  show _ ++ (set.entries.filter _).filter _ = _
  have hsorted := set.sorted
  generalize set.entries = entries at hsorted
  induction entries with
  | nil => rfl
  | cons e entries ih =>
    obtain ⟨hfirst, hrest⟩ := List.pairwise_cons.1 hsorted
    by_cases ha : e.1 < a
    · -- the first entry moves either way
      have hb : e.1 < b := Nat.lt_of_lt_of_le ha h
      have hstay : ¬ a ≤ e.1 := Nat.not_le.2 ha
      simp only [List.filter_cons, ha, hb, hstay, decide_true, decide_false, if_true,
        Bool.false_eq_true, if_false, List.cons_append, ih hrest]
    · -- no later entry is below the lower limit
      have hge : ∀ x ∈ e :: entries, a ≤ x.1 := by
        intro x hx
        cases List.mem_cons.1 hx with
        | inl hx => rw [hx]; exact Nat.not_lt.1 ha
        | inr hx => exact Nat.le_trans (Nat.not_lt.1 ha) (hfirst x hx).score_le
      have hnone : (e :: entries).filter (fun e => e.1 < a) = [] :=
        List.filter_eq_nil_iff.2 fun x hx hlt =>
          Nat.not_lt.2 (hge x hx) (of_decide_eq_true hlt)
      have hall : (e :: entries).filter (fun e => a ≤ e.1) = e :: entries :=
        List.filter_eq_self.2 fun x hx => decide_eq_true (hge x hx)
      rw [hnone, hall, List.nil_append]

/-- A flush with a lower height before makes no difference, whatever the scores are. -/
theorem flush_flush (shard : Shard κ ι T) {lower height : UInt64} (h : lower ≤ height) :
    (shard.flush lower).flush height = shard.flush height := by
  have hscore : score lower ≤ score height := score_mono (UInt64.le_iff_toNat_le.1 h)
  have hmoved : ∀ (stream : GroupStream κ T) (as bs : List T),
      (stream.xaddAll as).xaddAll bs = stream.xaddAll (as ++ bs) := by
    intro stream as bs
    exact List.foldl_append.symm
  rw [Shard.flush_eq (shard.flush lower), Shard.flush_eq shard lower, Shard.flush_eq shard height]
  simp only [restrict_restrict _ hscore, hmoved, ← List.map_append, filter_lt_append _ hscore]

/-- Where the pending scores are exact, `Flush` moves exactly the stale jobs for the heights that
    are doubles, and for no other height. -/
theorem flush_movesStale_iff {shard : Shard κ ι T} {height : UInt64}
    (h : ∀ e ∈ shard.pendingSet.entries, e.1 < 2 ^ 53) :
    MovesStale shard height ↔ score height = height.toNat := by
  have hsplit := flush_split h height
  constructor
  · intro hmoves
    -- the height is stored as a double
    have hflush := hmoves.moved (shard.flush height) (flushRuns_iff.2 rfl)
    have hlatest := congrArg Shard.latestBlockHeight hflush
    rw [Shard.flush_eq] at hlatest
    exact Option.some.inj hlatest
  · intro hexact
    refine ⟨⟨_, flushRuns_iff.2 rfl⟩, ?_, ?_, ?_, ?_, ?_⟩
    · -- moved
      intro shard' hruns
      rw [flushRuns_iff.1 hruns, Shard.flush_eq, hexact]
      rfl
    · -- fastPath: no job stays
      intro hall s
      have hend := loopEnds_popRound shard.pendingSet shard.webhookStream
      obtain ⟨hkeep, hmove⟩ := SortedSet.split_of_forall_lt hall
      rw [hkeep, hmove] at hsplit
      rw [SortedSet.members, hsplit] at hend
      exact ⟨fun hs => loopEnds_unique hs hend, fun hs => hs ▸ hend⟩
    · -- slowPath
      intro s
      have hend := loopEnds_popBelowRound (score height) shard.pendingSet shard.webhookStream
      rw [hsplit] at hend
      exact ⟨fun hs => loopEnds_unique hs hend, fun hs => hs ▸ hend⟩
    · -- twice
      intro shard' shard'' hfirst hsecond
      rw [flushRuns_iff.1 hsecond, flushRuns_iff.1 hfirst]
      exact flush_flush shard (UInt64.le_refl height)
    · -- absorbs
      intro lower hle shard' shard'' hfirst hsecond
      rw [flushRuns_iff.1 hfirst] at hsecond
      rw [flushRuns_iff.1 hsecond, flush_flush shard hle]
      exact flushRuns_iff.2 rfl

/-- Two jobs of one score, one below, and one at the height itself. -/
def fourPending : Shard Bool Nat Nat where
  webhookSet := {1, 2, 3, 4}
  pendingSet := SortedSet.empty.zaddAll [(5, 2), (4, 3), (5, 1), (6, 4)]
  webhookStream := .empty
  latestBlockHeight := some 5

theorem flush_movesStale_fourPending : MovesStale fourPending 6 :=
  (flush_movesStale_iff (by decide)).2 (by decide)

/-- With one job pending, the height `2 ^ 53 + 1` is stored as `2 ^ 53`. -/
theorem not_movesStale : ¬ MovesStale fourPending 9007199254740993 := by
  intro hmoves
  have hflush := hmoves.moved _ (flushRuns_iff.2 rfl)
  have hlatest := congrArg Shard.latestBlockHeight hflush
  rw [Shard.flush_eq] at hlatest
  exact absurd (Option.some.inj hlatest) (by decide)

end BlockFeed.Spec
