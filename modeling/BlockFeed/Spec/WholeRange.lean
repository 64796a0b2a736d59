import BlockFeed.Spec.CachedRead

/-!
# Ranges up to the ends of `uint64`

`GetBlocks` of the cached store computes in `uint64` how many heights the range has and what is
below the first cached block. Both wrap around: the range of all heights has none by that count,
and the height below block 0 is the greatest there is.

- `RangeSafe`: what the range and the cached blocks must be like.
- `getBlocks_exact_iff`: `GetBlocks` returns exactly the stored blocks of a range under it.
-/

namespace BlockFeed.Spec

open BlockFeed.Native

section Store

variable {β : Type} [LinearOrder (BlockDocument β)] {store : RedisOptimizedBlockStore β}
  {startHeight endHeight : UInt64}

/-- One block at a height, and the cache has the blocks from height `c` on. -/
structure CachedFrom (store : RedisOptimizedBlockStore β) (c : Nat) : Prop where
  one : ∀ a b, store.Stored a → store.Stored b → a.height = b.height → a = b
  cached_iff : ∀ b, store.Stored b → (b ∈ store.redisStore.blocks ↔ c ≤ b.height.toNat)

/-- Ascending, and exactly the stored blocks of the range. -/
structure ExactRange (store : RedisOptimizedBlockStore β) (startHeight endHeight : UInt64)
    (blocks : List (BlockDocument β)) : Prop where
  ascending : blocks.Pairwise (fun a b => a.height < b.height)
  mem_iff : ∀ b, b ∈ blocks ↔ store.Stored b ∧ startHeight ≤ b.height ∧ b.height ≤ endHeight

/-- The range of all heights is asked for only before the first block. Of any other range the
    doubles tell the cached blocks, and there are either all heights of it, or none and the range
    ends where the columns of the wrapped store do, or the first of them is not block 0 and either
    starts the range or is not above those columns. -/
def RangeSafe (store : RedisOptimizedBlockStore β) (startHeight endHeight : UInt64) : Prop :=
  if startHeight.toNat = 0 ∧ endHeight.toNat = 2 ^ 64 - 1 then
    store.redisStore.blocks = [] ∧ store.wrappedStore.rows = []
  else
    DoublesAgree store startHeight endHeight ∧ QueryFits store startHeight endHeight

instance (store : RedisOptimizedBlockStore β) (startHeight endHeight : UInt64) :
    Decidable (RangeSafe store startHeight endHeight) := by
  unfold RangeSafe
  split <;> infer_instance

/-- The blocks of the first call are the end of the answer. -/
theorem getBlocks_suffix (hfits : endHeight.toNat + 1 - startHeight.toNat < 2 ^ 64)
    (hle : startHeight.toNat ≤ endHeight.toNat) :
    store.redisStore.getBlocks startHeight endHeight <:+ store.getBlocks startHeight endHeight := by
  rw [RedisOptimizedBlockStore.getBlocks, finish_readBlocks hfits hle]
  generalize store.redisStore.getBlocks startHeight endHeight = dirty
  split
  · exact List.suffix_refl _
  · cases dirty with
    | nil => exact List.nil_suffix
    | cons b bs => exact List.suffix_append _ _

/-- In an exact answer the doubles agree. -/
theorem ExactRange.doublesAgree
    (h : ExactRange store startHeight endHeight (store.getBlocks startHeight endHeight))
    (hfits : endHeight.toNat + 1 - startHeight.toNat < 2 ^ 64)
    (hle : startHeight.toNat ≤ endHeight.toNat) : DoublesAgree store startHeight endHeight := by
  have hsuffix : store.redisStore.getBlocks startHeight endHeight <:+
      store.getBlocks startHeight endHeight := getBlocks_suffix hfits hle
  have hagree : ∀ b ∈ store.redisStore.blocks, score startHeight ≤ score b.height →
      score b.height ≤ score endHeight → startHeight ≤ b.height ∧ b.height ≤ endHeight := by
    intro b hb hlo hhi
    have hdirty := RedisBlockStore.mem_getBlocks.2 ⟨hb, hle, hlo, hhi⟩
    exact ((h.mem_iff b).1 (hsuffix.subset hdirty)).2
  rw [getBlocks_eq_cachedRange hle hagree] at hsuffix
  exact ⟨hagree, h.ascending.sublist hsuffix.sublist⟩

/-- The range of all heights is taken for an empty one. -/
theorem readBlocks_whole (hstart : startHeight.toNat = 0) (hend : endHeight.toNat = 2 ^ 64 - 1) :
    store.readBlocks startHeight endHeight = .done [] := by
  have hs : startHeight = 0 := UInt64.toNat_inj.1 hstart
  have he : endHeight = 0 - 1 := UInt64.toNat_inj.1 (hend.trans (by decide))
  subst hs he
  rw [RedisOptimizedBlockStore.readBlocks, if_neg (by decide)]
  exact if_pos (by decide)

theorem exactRange_of_rangeAnswer {blocks : List (BlockDocument β)}
    (h : RangeAnswer store.Stored store.Stored startHeight endHeight blocks) :
    ExactRange store startHeight endHeight blocks where
  ascending := h.sorted.imp UInt64.lt_iff_toNat_lt.2
  mem_iff := by
    intro b
    rw [UInt64.le_iff_toNat_le, UInt64.le_iff_toNat_le]
    constructor
    · intro hb
      obtain ⟨hlo, hhi, hstored⟩ := h.sound b hb
      exact ⟨hstored, hlo, hhi⟩
    · intro hb
      exact h.complete b hb.1 hb.2.1 hb.2.2

/-! ### Exactly when -/

/-- The range of all heights. -/
private theorem exact_whole_iff (hstart : startHeight.toNat = 0)
    (hend : endHeight.toNat = 2 ^ 64 - 1) :
    ((store.readBlocks startHeight endHeight).Answerable ∧
        ExactRange store startHeight endHeight (store.getBlocks startHeight endHeight)) ↔
      store.redisStore.blocks = [] ∧ store.wrappedStore.rows = [] := by
  rw [RedisOptimizedBlockStore.getBlocks, readBlocks_whole hstart hend]
  constructor
  · intro hanswer
    -- every height is in the range, and the answer is empty
    have hnone : ∀ b, ¬ store.Stored b := by
      intro b hb
      have hmax := b.height.toNat_lt
      have hlo : startHeight ≤ b.height := UInt64.le_iff_toNat_le.2 (by omega)
      have hhi : b.height ≤ endHeight := UInt64.le_iff_toNat_le.2 (by omega)
      exact absurd ((hanswer.2.mem_iff b).2 ⟨hb, hlo, hhi⟩) List.not_mem_nil
    exact ⟨List.eq_nil_iff_forall_not_mem.2 fun b hb => hnone b (.inl hb),
      List.eq_nil_iff_forall_not_mem.2 fun b hb => hnone b (.inr hb)⟩
  · intro hnone
    refine ⟨trivial, .nil, fun b => iff_of_false List.not_mem_nil fun hb => ?_⟩
    cases hb.1 with
    | inl hb =>
      rw [hnone.1] at hb
      cases hb
    | inr hb =>
      rw [hnone.2] at hb
      cases hb

/-- `GetBlocks` answers with exactly the stored blocks of the range, in ascending order, exactly
    under `RangeSafe`. -/
theorem getBlocks_exact_iff {c : Nat} (hcached : CachedFrom store c)
    (hle : startHeight ≤ endHeight) :
    ((store.readBlocks startHeight endHeight).Answerable ∧
        ExactRange store startHeight endHeight (store.getBlocks startHeight endHeight)) ↔
      RangeSafe store startHeight endHeight := by
  rw [UInt64.le_iff_toNat_le] at hle
  have hend := endHeight.toNat_lt
  unfold RangeSafe
  split
  · next hwhole => exact exact_whole_iff hwhole.1 hwhole.2
  · next hwhole =>
    have hfits : endHeight.toNat + 1 - startHeight.toNat < 2 ^ 64 := by omega
    constructor
    · intro hanswer
      have hagree := hanswer.2.doublesAgree hfits hle
      exact ⟨hagree, (answerable_iff hagree hfits hle).1 hanswer.1⟩
    · intro hsafe
      obtain ⟨hagree, hsafe⟩ := hsafe
      refine ⟨(answerable_iff hagree hfits hle).2 hsafe, ?_⟩
      apply exactRange_of_rangeAnswer
      apply rangeAnswer_finish hagree hfits hle
      · -- block 0 is first only in a range that the cache has as a whole
        intro b bs hblocks hzero
        rw [QueryFits, hblocks] at hsafe
        exact hsafe.resolve_right fun hbelow => hbelow.1 (UInt64.toNat_inj.1 hzero)
      · exact fun a ha b hb => hcached.one a b (.inl ha) hb
      · -- what is not cached is below the cache
        intro b hb hnot
        refine ⟨hb.resolve_left hnot, fun first hfirst => ?_⟩
        have hlow := fun hle => hnot ((hcached.cached_iff b hb).2 hle)
        have hhigh := (hcached.cached_iff first (.inl hfirst)).1 hfirst
        exact Nat.lt_of_lt_of_le (Nat.not_le.1 hlow) hhigh
      · exact fun b hb => .inl hb
      · exact fun b hb => .inr hb

end Store

/-- Block 5 in the cache and blocks 3 and 4 in the wrapped store. -/
def flushedBelow : RedisOptimizedBlockStore Nat where
  wrappedStore := TimescaleBlockStore.empty.putBlocks [⟨13, 3⟩, ⟨14, 4⟩]
  redisStore := RedisBlockStore.empty.putBlocks [⟨15, 5⟩]

private theorem cachedFrom_flushedBelow : CachedFrom flushedBelow 5 := by
  have hcache : flushedBelow.redisStore.blocks = [⟨15, 5⟩] := by decide
  have hrows : flushedBelow.wrappedStore.rows = [⟨13, 3⟩, ⟨14, 4⟩] := by decide
  refine ⟨?_, ?_⟩
  · intro a b ha hb
    simp only [RedisOptimizedBlockStore.Stored, hcache, hrows, List.mem_cons, List.not_mem_nil,
      or_false] at ha hb
    rcases ha with rfl | rfl | rfl <;> rcases hb with rfl | rfl | rfl <;> decide
  · intro b hb
    simp only [RedisOptimizedBlockStore.Stored, hcache, hrows, List.mem_cons, List.not_mem_nil,
      or_false] at hb ⊢
    rcases hb with rfl | rfl | rfl <;> decide

/-- A range that ends at the greatest height but begins at 1. -/
theorem getBlocks_flushedBelow :
    flushedBelow.getBlocks 1 18446744073709551615 = [⟨13, 3⟩, ⟨14, 4⟩, ⟨15, 5⟩] ∧
      ((flushedBelow.readBlocks 1 18446744073709551615).Answerable ∧
        ExactRange flushedBelow 1 18446744073709551615
          (flushedBelow.getBlocks 1 18446744073709551615)) :=
  ⟨by decide, (getBlocks_exact_iff cachedFrom_flushedBelow (by decide)).2 (by decide)⟩

/-- The range of all heights is taken for an empty one. -/
theorem not_exactRange :
    CachedFrom flushedBelow 5 ∧ flushedBelow.getBlocks 0 18446744073709551615 = [] ∧
      ¬ ExactRange flushedBelow 0 18446744073709551615
        (flushedBelow.getBlocks 0 18446744073709551615) := by
  have hget : flushedBelow.getBlocks 0 18446744073709551615 = [] := by decide
  refine ⟨cachedFrom_flushedBelow, hget, fun hexact => ?_⟩
  have hmem := (hexact.mem_iff ⟨15, 5⟩).2 ⟨by decide, by decide, by decide⟩
  rw [hget] at hmem
  exact absurd hmem List.not_mem_nil

end BlockFeed.Spec
