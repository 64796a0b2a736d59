import BlockFeed.Spec.FlushSafety
import Mathlib.Data.Finset.Card
import Mathlib.Order.Interval.Finset.Nat

/-!
# One range read

`GetBlocks` of the cached store makes two calls, and the second one may find the wrapped store
changed. Its answer depends on what the first call found: `finish_readBlocks` has the cases. The
cache tells heights by their doubles, and the wrapped store takes bounds that its INT column can
have.

- `DoublesAgree`: the doubles tell which cached blocks are in the range.
- `QueryFits`: the second call, if there is one, has an answer; `answerable_iff` says so.
- `rangeAnswer_finish`: what the read returns, wherever the wrapped store got to in between.
-/

namespace BlockFeed.Spec

open BlockFeed.Native

/-- Heights with distinct scores. -/
def Exact (heights : List UInt64) : Prop :=
  ∀ a ∈ heights, ∀ b ∈ heights, score a = score b → a = b

theorem Exact.subset {as bs : List UInt64} (h : Exact bs) (hsub : as ⊆ bs) : Exact as :=
  fun a ha b hb => h a (hsub ha) b (hsub hb)

/-- Between exact heights the order of scores is the order of heights. -/
theorem Exact.le_iff {heights : List UInt64} (h : Exact heights) {a b : UInt64}
    (ha : a ∈ heights) (hb : b ∈ heights) : score a ≤ score b ↔ a.toNat ≤ b.toNat := by
  constructor
  · intro hle
    by_contra hgt
    have heq : score a = score b := Nat.le_antisymm hle (score_mono (by omega))
    have hsame := h a ha b hb heq
    subst hsame
    exact hgt (Nat.le_refl _)
  · exact score_mono

section Blocks

variable {β : Type}

/-- Blocks whose scores are distinct. -/
def Separate (ws : List (BlockDocument β)) : Prop :=
  ∀ a ∈ ws, ∀ b ∈ ws, score a.height = score b.height → a = b

theorem Separate.lt_of_le {ws : List (BlockDocument β)} (h : Separate ws) {a b : BlockDocument β}
    (ha : a ∈ ws) (hb : b ∈ ws) (hne : a ≠ b) (hle : score a.height ≤ score b.height) :
    a.height.toNat < b.height.toNat := by
  apply lt_of_score_lt
  apply Nat.lt_of_le_of_ne hle
  exact fun heq => hne (h a ha b hb heq)

/-- The number of heights of a range that does not begin at 0 is not too large for `numBlocks`. -/
theorem numBlocks_fits {startHeight : UInt64} (hstart : 1 ≤ startHeight.toNat)
    (endHeight : UInt64) : endHeight.toNat + 1 - startHeight.toNat < 2 ^ 64 := by
  have hlt := endHeight.toNat_lt
  omega

/-- `numBlocks` does not overflow. -/
theorem toNat_numBlocks {startHeight endHeight : UInt64}
    (hfits : endHeight.toNat + 1 - startHeight.toNat < 2 ^ 64)
    (hle : startHeight.toNat ≤ endHeight.toNat) :
    (endHeight - startHeight + 1).toNat = endHeight.toNat + 1 - startHeight.toNat := by
  have hlt := endHeight.toNat_lt
  rw [UInt64.toNat_add, UInt64.toNat_sub_of_le _ _ (UInt64.le_iff_toNat_le.2 hle)]
  show (endHeight.toNat - startHeight.toNat + 1) % 2 ^ 64 = _
  omega

/-- A range holds a height at least, so the cache cannot be full without a block. -/
theorem numBlocks_pos {startHeight endHeight : UInt64}
    (hfits : endHeight.toNat + 1 - startHeight.toNat < 2 ^ 64)
    (hle : startHeight.toNat ≤ endHeight.toNat) : ¬ endHeight - startHeight + 1 ≤ 0 := by
  rw [UInt64.le_iff_toNat_le, toNat_numBlocks hfits hle]
  show ¬ _ ≤ 0
  omega

/-- The heights of ascending blocks in a range, as a set of that range. -/
private theorem heights_subset_Icc {bs : List (BlockDocument β)} {lo hi : Nat}
    (hsorted : bs.Pairwise (fun a b => a.height.toNat < b.height.toNat))
    (hrange : ∀ b ∈ bs, lo ≤ b.height.toNat ∧ b.height.toNat ≤ hi) :
    (bs.map fun b => b.height.toNat).toFinset ⊆ Finset.Icc lo hi ∧
      (bs.map fun b => b.height.toNat).toFinset.card = bs.length := by
  constructor
  · intro x hx
    obtain ⟨b, hb, rfl⟩ := List.mem_map.1 (List.mem_toFinset.1 hx)
    exact Finset.mem_Icc.2 (hrange b hb)
  · have hnd : (bs.map fun b => b.height.toNat).Nodup :=
      List.pairwise_map.2 (hsorted.imp Nat.ne_of_lt)
    rw [List.toFinset_card_of_nodup hnd, List.length_map]

/-- Whether there are as many ascending blocks as `numBlocks`, without overflow. -/
theorem full_range_iff {bs : List (BlockDocument β)} {startHeight endHeight : UInt64}
    (hfits : endHeight.toNat + 1 - startHeight.toNat < 2 ^ 64)
    (hle : startHeight.toNat ≤ endHeight.toNat)
    (hsorted : bs.Pairwise (fun a b => a.height.toNat < b.height.toNat))
    (hrange : ∀ b ∈ bs, startHeight.toNat ≤ b.height.toNat ∧ b.height.toNat ≤ endHeight.toNat) :
    UInt64.ofNat bs.length = endHeight - startHeight + 1 ↔
      bs.length = endHeight.toNat + 1 - startHeight.toNat := by
  obtain ⟨hsub, hcard⟩ := heights_subset_Icc hsorted hrange
  -- a range has no more blocks than heights
  have hbound := Finset.card_le_card hsub
  rw [hcard, Nat.card_Icc] at hbound
  have hsize : bs.length < UInt64.size := by
    show _ < 2 ^ 64
    omega
  rw [← UInt64.toNat_inj, toNat_numBlocks hfits hle, UInt64.toNat_ofNat_of_lt' hsize]

/-- When there are as many ascending blocks as `numBlocks`, every height of the range is there. -/
theorem mem_of_full_range {bs : List (BlockDocument β)} {startHeight endHeight : UInt64}
    (hfits : endHeight.toNat + 1 - startHeight.toNat < 2 ^ 64)
    (hle : startHeight.toNat ≤ endHeight.toNat)
    (hsorted : bs.Pairwise (fun a b => a.height.toNat < b.height.toNat))
    (hrange : ∀ b ∈ bs, startHeight.toNat ≤ b.height.toNat ∧ b.height.toNat ≤ endHeight.toNat)
    (hfull : UInt64.ofNat bs.length = endHeight - startHeight + 1) {h : Nat}
    (hlo : startHeight.toNat ≤ h) (hhi : h ≤ endHeight.toNat) : ∃ b ∈ bs, b.height.toNat = h := by
  obtain ⟨hsub, hcard⟩ := heights_subset_Icc hsorted hrange
  have hlen := (full_range_iff hfits hle hsorted hrange).1 hfull
  -- as many heights as the range has: these are all of them
  have hall := Finset.eq_of_subset_of_card_le hsub (by rw [hcard, Nat.card_Icc, hlen])
  have hmem : h ∈ (bs.map fun b => b.height.toNat).toFinset := by
    rw [hall]
    exact Finset.mem_Icc.2 ⟨hlo, hhi⟩
  obtain ⟨b, hb, heq⟩ := List.mem_map.1 (List.mem_toFinset.1 hmem)
  exact ⟨b, hb, heq⟩

/-- The blocks are ascending, they have everything of the range that is in `before`, and nothing
    but blocks of the range that are in `after`. -/
structure RangeAnswer (before after : BlockDocument β → Prop)
    (startHeight endHeight : UInt64) (blocks : List (BlockDocument β)) : Prop where
  sorted : blocks.Pairwise (fun a b => a.height.toNat < b.height.toNat)
  complete : ∀ b, before b → startHeight.toNat ≤ b.height.toNat →
    b.height.toNat ≤ endHeight.toNat → b ∈ blocks
  sound : ∀ b ∈ blocks, startHeight.toNat ≤ b.height.toNat ∧ b.height.toNat ≤ endHeight.toNat ∧
    after b

variable {before after : BlockDocument β → Prop} {startHeight endHeight : UInt64}
  {wrappedStore : TimescaleBlockStore β}

/-- No block of the range is cached, and the wrapped store is asked for the whole range. -/
theorem rangeAnswer_uncached
    (hbefore : ∀ b, before b → startHeight.toNat ≤ b.height.toNat →
      b.height.toNat ≤ endHeight.toNat → b ∈ wrappedStore.rows)
    (hafter : ∀ b ∈ wrappedStore.rows, after b) :
    RangeAnswer before after startHeight endHeight
      (wrappedStore.getBlocks startHeight endHeight) where
  sorted := (wrappedStore.getBlocks_sorted _ _).imp UInt64.lt_iff_toNat_lt.1
  complete := fun b hb hlo hhi =>
    TimescaleBlockStore.mem_getBlocks.2 ⟨hbefore b hb hlo hhi, hlo, hhi⟩
  sound := by
    intro b hb
    obtain ⟨hin, hlo, hhi⟩ := TimescaleBlockStore.mem_getBlocks.1 hb
    exact ⟨hlo, hhi, hafter b hin⟩

/-- The wrapped store is asked for what is below the first cached block of the range. -/
theorem rangeAnswer_below {first : BlockDocument β} {rest : List (BlockDocument β)}
    (hpos : first.height.toNat ≠ 0)
    (hsorted : (first :: rest).Pairwise (fun a b => a.height.toNat < b.height.toNat))
    (hcached : ∀ b ∈ first :: rest, startHeight.toNat ≤ b.height.toNat ∧
      b.height.toNat ≤ endHeight.toNat ∧ after b)
    (hbefore : ∀ b, before b → startHeight.toNat ≤ b.height.toNat →
      b.height.toNat ≤ endHeight.toNat →
        b ∈ first :: rest ∨ b ∈ wrappedStore.rows ∧ b.height.toNat < first.height.toNat)
    (hafter : ∀ b ∈ wrappedStore.rows, after b) :
    RangeAnswer before after startHeight endHeight
      (wrappedStore.getBlocks startHeight (first.height - 1) ++ first :: rest) := by
  obtain ⟨hfirstLo, hfirstHi, -⟩ := hcached first List.mem_cons_self
  have hpred := toNat_pred first.height
  rw [if_neg hpos] at hpred
  have hrows : ∀ b, b ∈ wrappedStore.getBlocks startHeight (first.height - 1) ↔
      b ∈ wrappedStore.rows ∧ startHeight.toNat ≤ b.height.toNat ∧
        b.height.toNat < first.height.toNat := by
    intro b
    rw [TimescaleBlockStore.mem_getBlocks, hpred]
    apply and_congr_right
    omega
  have hge : ∀ b ∈ first :: rest, first.height.toNat ≤ b.height.toNat := by
    intro b hb
    cases List.mem_cons.1 hb with
    | inl hb => rw [hb]
    | inr hb => exact Nat.le_of_lt ((List.pairwise_cons.1 hsorted).1 b hb)
  refine ⟨?_, ?_, ?_⟩
  · -- sorted: two ascending lists, the rows below the cached blocks
    rw [List.pairwise_append]
    refine ⟨(wrappedStore.getBlocks_sorted _ _).imp UInt64.lt_iff_toNat_lt.1, hsorted, ?_⟩
    intro a ha b hb
    have halt := ((hrows a).1 ha).2.2
    have hble := hge b hb
    omega
  · -- complete
    intro b hb hlo hhi
    rw [List.mem_append]
    cases hbefore b hb hlo hhi with
    | inl hin => exact .inr hin
    | inr hrow => exact .inl ((hrows b).2 ⟨hrow.1, hlo, hrow.2⟩)
  · -- sound
    intro b hb
    cases List.mem_append.1 hb with
    | inl hrow =>
      obtain ⟨hin, hlo, hlt⟩ := (hrows b).1 hrow
      exact ⟨hlo, by omega, hafter b hin⟩
    | inr hin => exact hcached b hin

end Blocks

section Store

variable {β : Type} [LinearOrder (BlockDocument β)] {store : RedisOptimizedBlockStore β}
  {startHeight endHeight : UInt64}

/-- The first half of a read of a range that is not empty. -/
theorem readBlocks_eq (hfits : endHeight.toNat + 1 - startHeight.toNat < 2 ^ 64)
    (hle : startHeight.toNat ≤ endHeight.toNat) :
    store.readBlocks startHeight endHeight =
      if UInt64.ofNat (store.redisStore.getBlocks startHeight endHeight).length =
          endHeight - startHeight + 1 then
        .done (store.redisStore.getBlocks startHeight endHeight)
      else
        match store.redisStore.getBlocks startHeight endHeight with
        | [] => .getBlocks startHeight endHeight []
        | b :: bs => .getBlocks startHeight (b.height - 1) (b :: bs) := by
  have hgt : ¬ startHeight > endHeight := by
    rw [gt_iff_lt, UInt64.lt_iff_toNat_lt]
    omega
  rw [RedisOptimizedBlockStore.readBlocks, if_neg hgt]
  exact if_neg (numBlocks_pos hfits hle)

/-- What the second read returns, by the number and the first of the cached blocks. -/
theorem finish_readBlocks (hfits : endHeight.toNat + 1 - startHeight.toNat < 2 ^ 64)
    (hle : startHeight.toNat ≤ endHeight.toNat) (wrappedStore : TimescaleBlockStore β) :
    (store.readBlocks startHeight endHeight).finish wrappedStore =
      if UInt64.ofNat (store.redisStore.getBlocks startHeight endHeight).length =
          endHeight - startHeight + 1 then
        store.redisStore.getBlocks startHeight endHeight
      else
        match store.redisStore.getBlocks startHeight endHeight with
        | [] => wrappedStore.getBlocks startHeight endHeight
        | b :: bs => wrappedStore.getBlocks startHeight (b.height - 1) ++ b :: bs := by
  rw [readBlocks_eq hfits hle]
  split
  · rfl
  · split
    · exact List.append_nil _
    · rfl

/-! ### The cached blocks of the range -/

/-- The cached blocks of a range, in the order of the cache. -/
def cachedRange (store : RedisOptimizedBlockStore β) (startHeight endHeight : UInt64) :
    List (BlockDocument β) :=
  store.redisStore.blocks.filter fun b => startHeight ≤ b.height ∧ b.height ≤ endHeight

/-- The doubles of the heights tell which cached blocks are in the range, and their order. -/
def DoublesAgree (store : RedisOptimizedBlockStore β) (startHeight endHeight : UInt64) : Prop :=
  (∀ b ∈ store.redisStore.blocks, score startHeight ≤ score b.height →
    score b.height ≤ score endHeight → startHeight ≤ b.height ∧ b.height ≤ endHeight) ∧
    (cachedRange store startHeight endHeight).Pairwise (fun a b => a.height < b.height)

/-- What is left to ask the wrapped store for: nothing if every height of the range is cached, the
    range if none is, or else the heights below the first cached one. Its columns have the bounds of
    that query. -/
def QueryFits (store : RedisOptimizedBlockStore β) (startHeight endHeight : UInt64) : Prop :=
  match cachedRange store startHeight endHeight with
  | [] => TimescaleBlockStore.Encodes startHeight endHeight
  | b :: bs =>
    (b :: bs).length = endHeight.toNat + 1 - startHeight.toNat ∨
      b.height ≠ 0 ∧ TimescaleBlockStore.Encodes startHeight (b.height - 1)

instance (store : RedisOptimizedBlockStore β) (startHeight endHeight : UInt64) :
    Decidable (DoublesAgree store startHeight endHeight) :=
  inferInstanceAs (Decidable (_ ∧ _))

instance (store : RedisOptimizedBlockStore β) (startHeight endHeight : UInt64) :
    Decidable (QueryFits store startHeight endHeight) := by
  unfold QueryFits
  split <;> infer_instance

theorem mem_cachedRange {b : BlockDocument β} :
    b ∈ cachedRange store startHeight endHeight ↔
      b ∈ store.redisStore.blocks ∧ startHeight ≤ b.height ∧ b.height ≤ endHeight := by
  rw [cachedRange, List.mem_filter, decide_eq_true_eq]

/-- Where the doubles tell which blocks are in the range, the cache returns those. -/
theorem getBlocks_eq_cachedRange (hle : startHeight.toNat ≤ endHeight.toNat)
    (hagree : ∀ b ∈ store.redisStore.blocks, score startHeight ≤ score b.height →
      score b.height ≤ score endHeight → startHeight ≤ b.height ∧ b.height ≤ endHeight) :
    store.redisStore.getBlocks startHeight endHeight =
      cachedRange store startHeight endHeight := by
  have hgt : ¬ startHeight > endHeight := by
    rw [gt_iff_lt, UInt64.lt_iff_toNat_lt]
    omega
  rw [RedisBlockStore.getBlocks_eq_filter, if_neg hgt, cachedRange]
  apply List.filter_congr
  intro b hb
  rw [decide_eq_decide]
  constructor
  · intro hscore
    exact hagree b hb hscore.1 hscore.2
  · intro hrange
    exact ⟨score_mono (UInt64.le_iff_toNat_le.1 hrange.1),
      score_mono (UInt64.le_iff_toNat_le.1 hrange.2)⟩

/-- Whether the cache has a block at each height of the range. -/
theorem full_cachedRange_iff (h : DoublesAgree store startHeight endHeight)
    (hfits : endHeight.toNat + 1 - startHeight.toNat < 2 ^ 64)
    (hle : startHeight.toNat ≤ endHeight.toNat) :
    UInt64.ofNat (cachedRange store startHeight endHeight).length = endHeight - startHeight + 1 ↔
      (cachedRange store startHeight endHeight).length =
        endHeight.toNat + 1 - startHeight.toNat := by
  apply full_range_iff hfits hle (h.2.imp UInt64.lt_iff_toNat_lt.1)
  intro b hb
  have hrange := (mem_cachedRange.1 hb).2
  exact ⟨UInt64.le_iff_toNat_le.1 hrange.1, UInt64.le_iff_toNat_le.1 hrange.2⟩

theorem cachedRange_head_le {b : BlockDocument β} {bs : List (BlockDocument β)}
    (h : cachedRange store startHeight endHeight = b :: bs) :
    startHeight.toNat ≤ b.height.toNat := by
  have hmem : b ∈ cachedRange store startHeight endHeight := by
    rw [h]
    exact List.mem_cons_self
  exact UInt64.le_iff_toNat_le.1 (mem_cachedRange.1 hmem).2.1

/-- The second call has an answer exactly if its query fits. -/
theorem answerable_iff (hagree : DoublesAgree store startHeight endHeight)
    (hfits : endHeight.toNat + 1 - startHeight.toNat < 2 ^ 64)
    (hle : startHeight.toNat ≤ endHeight.toNat) :
    (store.readBlocks startHeight endHeight).Answerable ↔
      QueryFits store startHeight endHeight := by
  have hfull := full_cachedRange_iff hagree hfits hle
  rw [readBlocks_eq hfits hle, getBlocks_eq_cachedRange hle hagree.1, QueryFits]
  cases hblocks : cachedRange store startHeight endHeight with
  | nil =>
    rw [hblocks, List.length_nil] at hfull
    have hpart : ¬ UInt64.ofNat ([] : List (BlockDocument β)).length =
        endHeight - startHeight + 1 := by
      intro heq
      have hzero := hfull.1 heq
      omega
    rw [if_neg hpart]
    exact Iff.rfl
  | cons b bs =>
    rw [hblocks] at hfull
    split
    · next heq => exact iff_of_true trivial (.inl (hfull.1 heq))
    · next hpart =>
      show TimescaleBlockStore.Encodes _ _ ↔ _ ∨ _
      rw [or_iff_right fun heq => hpart (hfull.2 heq)]
      refine (and_iff_right_of_imp fun hencodes => ?_).symm
      -- below block 0 the bound is the greatest height
      intro hzero
      have hpred := toNat_pred b.height
      rw [if_pos (by rw [hzero]; rfl)] at hpred
      rw [TimescaleBlockStore.Encodes, gt_iff_lt, UInt64.lt_iff_toNat_lt, hpred] at hencodes
      have hlt := startHeight.toNat_lt
      omega

/-- Where the doubles tell the cached blocks, and what is stored at first and not cached is in the
    wrapped store that the second call finds, below the cache, the read returns all of the range
    that was stored at first. -/
theorem rangeAnswer_finish {before after : BlockDocument β → Prop}
    {wrappedStore : TimescaleBlockStore β}
    (hagree : DoublesAgree store startHeight endHeight)
    (hfits : endHeight.toNat + 1 - startHeight.toNat < 2 ^ 64)
    (hle : startHeight.toNat ≤ endHeight.toNat)
    (hzero : ∀ b bs, cachedRange store startHeight endHeight = b :: bs → b.height.toNat = 0 →
      (b :: bs).length = endHeight.toNat + 1 - startHeight.toNat)
    (hone : ∀ a ∈ store.redisStore.blocks, ∀ b, before b → a.height = b.height → a = b)
    (hbelow : ∀ b, before b → b ∉ store.redisStore.blocks →
      b ∈ wrappedStore.rows ∧ ∀ c ∈ store.redisStore.blocks, b.height.toNat < c.height.toNat)
    (hcached : ∀ b ∈ store.redisStore.blocks, after b) (hrows : ∀ b ∈ wrappedStore.rows, after b) :
    RangeAnswer before after startHeight endHeight
      ((store.readBlocks startHeight endHeight).finish wrappedStore) := by
  have hfull := full_cachedRange_iff hagree hfits hle
  rw [finish_readBlocks hfits hle, getBlocks_eq_cachedRange hle hagree.1]
  have hsorted : (cachedRange store startHeight endHeight).Pairwise
      (fun a b => a.height.toNat < b.height.toNat) := hagree.2.imp UInt64.lt_iff_toNat_lt.1
  have hmem : ∀ b, b ∈ cachedRange store startHeight endHeight ↔ b ∈ store.redisStore.blocks ∧
      startHeight.toNat ≤ b.height.toNat ∧ b.height.toNat ≤ endHeight.toNat := by
    intro b
    rw [mem_cachedRange, UInt64.le_iff_toNat_le, UInt64.le_iff_toNat_le]
  generalize cachedRange store startHeight endHeight = dirty at hzero hfull hsorted hmem ⊢
  have hsound : ∀ b ∈ dirty, startHeight.toNat ≤ b.height.toNat ∧
      b.height.toNat ≤ endHeight.toNat ∧ after b := by
    intro b hb
    obtain ⟨hin, hlo, hhi⟩ := (hmem b).1 hb
    exact ⟨hlo, hhi, hcached b hin⟩
  split
  · next heq =>
    -- the cache has the whole range
    refine ⟨hsorted, fun b hb hlo hhi => ?_, hsound⟩
    obtain ⟨c, hc, hheight⟩ := mem_of_full_range hfits hle hsorted
      (fun b hb => ((hmem b).1 hb).2) heq hlo hhi
    exact hone c ((hmem c).1 hc).1 b hb (UInt64.toNat_inj.1 hheight) ▸ hc
  · next hpart =>
    cases dirty with
    | nil =>
      -- what was stored and is not cached is a row
      apply rangeAnswer_uncached ?_ hrows
      intro b hb hlo hhi
      by_cases hin : b ∈ store.redisStore.blocks
      · exact absurd ((hmem b).2 ⟨hin, hlo, hhi⟩) List.not_mem_nil
      · exact (hbelow b hb hin).1
    | cons first rest =>
      have hpos : first.height.toNat ≠ 0 :=
        fun heq => hpart (hfull.2 (hzero first rest rfl heq))
      apply rangeAnswer_below hpos hsorted hsound ?_ hrows
      intro b hb hlo hhi
      by_cases hin : b ∈ store.redisStore.blocks
      · exact .inl ((hmem b).2 ⟨hin, hlo, hhi⟩)
      · obtain ⟨hrow, hlt⟩ := hbelow b hb hin
        exact .inr ⟨hrow, hlt first ((hmem first).1 List.mem_cons_self).1⟩

end Store

end BlockFeed.Spec
