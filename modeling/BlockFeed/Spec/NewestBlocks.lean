import BlockFeed.Spec.NextHeight

/-!
# The newest blocks

`GetLatestBlocks` of the cached store on a chain of heights `f` to `m`, of which the cache has
those from `c` on and the wrapped store those up to `d`. What the cache is short of is asked for
as the range of `missing` heights below the lowest cached one. Its start is computed in `uint64`
under a `max` with 0 that cannot see a negative number: if `missing` is greater than that height
the start wraps around, the range is empty, and the blocks below the cache are left out.

- `getLatestBlocks_newest_iff`: when exactly the newest blocks are returned (`ReadsNewest`).
- `not_newest`: a limit that is too large leaves out blocks.
-/

namespace BlockFeed.Spec

open BlockFeed.Native

section Lists

variable {β : Type}

/-- The heights of these blocks are those from `lo` to `hi`. -/
def HeightsFrom (blocks : List (BlockDocument β)) (lo hi : Nat) : Prop :=
  ∀ n, (∃ b ∈ blocks, b.height.toNat = n) ↔ lo ≤ n ∧ n ≤ hi

/-- The last `limit` blocks ascend, and all blocks before them are lower. -/
def OrderedAtEnd (blocks : List (BlockDocument β)) (limit : Int) : Prop :=
  (blocks.drop (blocks.length - limit.toNat)).Pairwise
      (fun a b => a.height.toNat < b.height.toNat) ∧
    ∀ a ∈ blocks.take (blocks.length - limit.toNat),
      ∀ b ∈ blocks.drop (blocks.length - limit.toNat), a.height.toNat < b.height.toNat

instance (blocks : List (BlockDocument β)) (limit : Int) : Decidable (OrderedAtEnd blocks limit) :=
  inferInstanceAs (Decidable (_ ∧ _))

theorem orderedAtEnd_of_sorted {blocks : List (BlockDocument β)}
    (h : blocks.Pairwise (fun a b => a.height.toNat < b.height.toNat)) (limit : Int) :
    OrderedAtEnd blocks limit := by
  rw [← List.take_append_drop (blocks.length - limit.toNat) blocks, List.pairwise_append] at h
  exact ⟨h.2.1, h.2.2⟩

/-- The number of blocks of all heights of a range, one at each. -/
theorem HeightsFrom.length {blocks : List (BlockDocument β)} {lo hi : Nat}
    (h : HeightsFrom blocks lo hi) (hnd : (blocks.map fun b => b.height.toNat).Nodup) :
    blocks.length = hi + 1 - lo := by
  have hset : (blocks.map fun b => b.height.toNat).toFinset = Finset.Icc lo hi := by
    ext n
    rw [List.mem_toFinset, List.mem_map, Finset.mem_Icc]
    exact h n
  have hcard := List.toFinset_card_of_nodup hnd
  rw [hset, Nat.card_Icc, List.length_map] at hcard
  exact hcard.symm

/-- The blocks above the others have all heights from that of the lowest of them on. -/
private theorem heightsFrom_top {before rest : List (BlockDocument β)} {first : BlockDocument β}
    {lo hi : Nat} (hheights : HeightsFrom (before ++ first :: rest) lo hi)
    (hsorted : (first :: rest).Pairwise (fun a b => a.height.toNat < b.height.toNat))
    (hbelow : ∀ a ∈ before, ∀ b ∈ first :: rest, a.height.toNat < b.height.toNat) :
    HeightsFrom (first :: rest) first.height.toNat hi ∧
      ∀ b ∈ before ++ first :: rest, b ∈ first :: rest ↔ first.height.toNat ≤ b.height.toNat := by
  have hge : ∀ x ∈ first :: rest, first.height.toNat ≤ x.height.toNat := by
    intro x hx
    cases List.mem_cons.1 hx with
    | inl hx => rw [hx]
    | inr hx => exact Nat.le_of_lt ((List.pairwise_cons.1 hsorted).1 x hx)
  have hin : ∀ x ∈ before ++ first :: rest, first.height.toNat ≤ x.height.toNat →
      x ∈ first :: rest := by
    intro x hx hle
    refine (List.mem_append.1 hx).resolve_left fun hx => ?_
    exact Nat.not_lt.2 hle (hbelow x hx first List.mem_cons_self)
  have hrange : ∀ x ∈ first :: rest, lo ≤ x.height.toNat ∧ x.height.toNat ≤ hi :=
    fun x hx => (hheights _).1 ⟨x, List.mem_append_right _ hx, rfl⟩
  refine ⟨?_, fun b hb => ⟨hge b, hin b hb⟩⟩
  intro n
  constructor
  · intro hn
    obtain ⟨x, hx, rfl⟩ := hn
    exact ⟨hge x hx, (hrange x hx).2⟩
  · intro hn
    have hfirst := hrange first List.mem_cons_self
    obtain ⟨x, hx, rfl⟩ := (hheights n).2 ⟨Nat.le_trans hfirst.1 hn.1, hn.2⟩
    exact ⟨x, hin x hx hn.1, rfl⟩

/-- A block of the list is one of the last `limit` exactly if its height is among the `limit`
    greatest. -/
theorem OrderedAtEnd.mem_drop_iff {blocks : List (BlockDocument β)} {limit : Int} {lo hi : Nat}
    (h : OrderedAtEnd blocks limit) (hheights : HeightsFrom blocks lo hi) (hlimit : 1 ≤ limit)
    {b : BlockDocument β} (hb : b ∈ blocks) :
    b ∈ blocks.drop (blocks.length - limit.toNat) ↔ (hi : Int) < b.height.toNat + limit := by
  obtain ⟨hsorted, hbelow⟩ := h
  have hlen : (blocks.drop (blocks.length - limit.toNat)).length =
      min blocks.length limit.toNat := by
    rw [List.length_drop]
    omega
  have hsplit := List.take_append_drop (blocks.length - limit.toNat) blocks
  cases htop : blocks.drop (blocks.length - limit.toNat) with
  | nil =>
    rw [htop, List.length_nil] at hlen
    have hpos := List.length_pos_of_mem hb
    omega
  | cons first rest =>
    rw [htop] at hsorted hbelow hlen hsplit
    rw [← hsplit] at hheights
    obtain ⟨htops, hiff⟩ := heightsFrom_top hheights hsorted hbelow
    rw [hsplit] at hheights hiff
    rw [htops.length (List.pairwise_map.2 (hsorted.imp Nat.ne_of_lt))] at hlen
    have hbhi := ((hheights _).1 ⟨b, hb, rfl⟩).2
    rw [hiff b hb]
    by_cases hfits : limit.toNat ≤ blocks.length
    · omega
    · -- all blocks are among the last ones
      have hzero : blocks.length - limit.toNat = 0 := by omega
      rw [hzero, List.drop_zero] at htop
      have hbfirst := (hiff b hb).1 (htop ▸ hb)
      omega

end Lists

section Store

variable {β : Type} [LinearOrder (BlockDocument β)]

/-- One block at each height from `f` to `m`: the cache has those from `c` on, the wrapped store
    those up to `d`. -/
structure Layered (store : RedisOptimizedBlockStore β) (f c d m : Nat) : Prop where
  pos : 1 ≤ f
  le_cache : f ≤ c
  /-- what both have is being flushed -/
  overlap : c ≤ d + 1
  le_top : d ≤ m
  one : ∀ a b, store.Stored a → store.Stored b → a.height = b.height → a = b
  cached : HeightsFrom store.redisStore.blocks c m
  rows : HeightsFrom store.wrappedStore.rows f d

/-- The `limit` highest blocks of a chain of heights `f` to `m`, the highest first. -/
structure Newest (store : RedisOptimizedBlockStore β) (f m : Nat) (limit : Int)
    (blocks : List (BlockDocument β)) : Prop where
  descending : blocks.Pairwise (fun a b => b.height < a.height)
  mem_iff : ∀ b, b ∈ blocks ↔ store.Stored b ∧ (m : Int) < b.height.toNat + limit
  length : blocks.length = min limit.toNat (m + 1 - f)

/-- Nothing is cached; or as many blocks as asked for are cached, in the order of their heights; or
    fewer are, and the lowest of them is not above the columns of the wrapped store if its height
    is at least the number of blocks that are missing, and nothing is stored below it if its height
    is less. -/
def ReadsNewest (store : RedisOptimizedBlockStore β) (limit : Int) : Prop :=
  match store.redisStore.blocks with
  | [] => True
  | b :: bs =>
    if limit ≤ (b :: bs).length then OrderedAtEnd (b :: bs) limit
    else if limit - (b :: bs).length ≤ b.height.toNat then b.height.toNat ≤ 2 ^ 31
    else ∀ r ∈ store.wrappedStore.rows, r ∈ b :: bs

instance (store : RedisOptimizedBlockStore β) (limit : Int) :
    Decidable (ReadsNewest store limit) := by
  unfold ReadsNewest
  split <;> infer_instance

namespace Layered

variable {store : RedisOptimizedBlockStore β} {f c d m : Nat}

/-- The heights of both stores. -/
theorem stored_iff (h : Layered store f c d m) (n : Nat) :
    (∃ b, store.Stored b ∧ b.height.toNat = n) ↔ f ≤ n ∧ n ≤ m := by
  have hcached := h.cached n
  have hrows := h.rows n
  have hle := h.le_cache
  have hoverlap := h.overlap
  have htop := h.le_top
  constructor
  · intro hn
    obtain ⟨b, hb | hb, rfl⟩ := hn
    · have hin := hcached.1 ⟨b, hb, rfl⟩
      omega
    · have hin := hrows.1 ⟨b, hb, rfl⟩
      omega
  · intro hn
    by_cases hc : c ≤ n
    · obtain ⟨b, hb, rfl⟩ := hcached.2 ⟨hc, hn.2⟩
      exact ⟨b, .inl hb, rfl⟩
    · obtain ⟨b, hb, rfl⟩ := hrows.2 ⟨hn.1, by omega⟩
      exact ⟨b, .inr hb, rfl⟩

theorem heights_nodup (h : Layered store f c d m) {blocks : List (BlockDocument β)}
    (hnd : blocks.Nodup) (hstored : ∀ b ∈ blocks, store.Stored b) :
    (blocks.map fun b => b.height.toNat).Nodup := by
  apply List.Nodup.map_on _ hnd
  intro a ha b hb heq
  exact h.one a b (hstored a ha) (hstored b hb) (UInt64.toNat_inj.1 heq)

theorem length_cache (h : Layered store f c d m) :
    store.redisStore.blocks.length = m + 1 - c :=
  h.cached.length (h.heights_nodup store.redisStore.set.nodup fun _ hb => .inl hb)

/-- The number of the newest blocks follows from which they are. -/
theorem newest_of_mem_iff (h : Layered store f c d m) {limit : Int}
    {blocks : List (BlockDocument β)}
    (hdesc : blocks.Pairwise (fun a b => b.height < a.height))
    (hmem : ∀ b, b ∈ blocks ↔ store.Stored b ∧ (m : Int) < b.height.toNat + limit) :
    Newest store f m limit blocks := by
  refine ⟨hdesc, hmem, ?_⟩
  have hnd : (blocks.map fun b => b.height.toNat).Nodup := by
    refine List.pairwise_map.2 (hdesc.imp fun {a b} hlt heq => ?_)
    rw [UInt64.lt_iff_toNat_lt, heq] at hlt
    exact Nat.lt_irrefl _ hlt
  have hheights : HeightsFrom blocks (max f (m + 1 - limit.toNat)) m := by
    intro n
    constructor
    · intro hn
      obtain ⟨b, hb, rfl⟩ := hn
      obtain ⟨hstored, hlt⟩ := (hmem b).1 hb
      have hin := (h.stored_iff _).1 ⟨b, hstored, rfl⟩
      omega
    · intro hn
      obtain ⟨b, hb, rfl⟩ := (h.stored_iff n).2 ⟨by omega, hn.2⟩
      exact ⟨b, (hmem b).2 ⟨hb, by omega⟩, rfl⟩
  have hlen := hheights.length hnd
  have hle := h.le_cache
  have hoverlap := h.overlap
  have htop := h.le_top
  omega

/-- The end of a list that has all of the newest blocks. -/
theorem newest_of_orderedAtEnd (h : Layered store f c d m) {limit : Int} (hlimit : 1 ≤ limit)
    {blocks : List (BlockDocument β)} {lo : Nat} (hheights : HeightsFrom blocks lo m)
    (hord : OrderedAtEnd blocks limit) (hstored : ∀ b ∈ blocks, store.Stored b)
    (hall : ∀ b, store.Stored b → (m : Int) < b.height.toNat + limit → b ∈ blocks) :
    Newest store f m limit (blocks.drop (blocks.length - limit.toNat)).reverse := by
  apply h.newest_of_mem_iff
  · rw [List.pairwise_reverse]
    exact hord.1.imp UInt64.lt_iff_toNat_lt.2
  · intro b
    rw [List.mem_reverse]
    constructor
    · intro hb
      have hin := List.mem_of_mem_drop hb
      exact ⟨hstored b hin, (hord.mem_drop_iff hheights hlimit hin).1 hb⟩
    · intro hb
      exact (hord.mem_drop_iff hheights hlimit (hall b hb.1 hb.2)).2 hb.2

/-- The newest blocks, sorted. -/
theorem newest_mergeSort (h : Layered store f c d m) {limit : Int}
    {blocks : List (BlockDocument β)} (hnd : blocks.Nodup)
    (hmem : ∀ b, b ∈ blocks ↔ store.Stored b ∧ (m : Int) < b.height.toNat + limit) :
    Newest store f m limit (blocks.mergeSort (fun a b => b.height ≤ a.height)) := by
  apply h.newest_of_mem_iff
  · have hnd' := ((List.mergeSort_perm blocks (fun a b => b.height ≤ a.height)).nodup_iff).2 hnd
    refine ((descending_mergeSort blocks).and hnd').imp_of_mem fun {a b} ha hb hab => ?_
    rw [List.mem_mergeSort] at ha hb
    refine UInt64.lt_of_le_of_ne hab.1 fun heq => hab.2 ?_
    exact h.one a b ((hmem a).1 ha).1 ((hmem b).1 hb).1 heq.symm
  · intro b
    rw [List.mem_mergeSort]
    exact hmem b

/-! ### The cases of the first read -/

/-- None of the blocks is cached. -/
private theorem newest_uncached (h : Layered store f c d m) {limit : Int} (hlimit : 1 ≤ limit)
    (hblocks : store.redisStore.blocks = []) :
    Newest store f m limit (store.wrappedStore.getLatestBlocks limit) := by
  have hlen := h.length_cache
  rw [hblocks, List.length_nil] at hlen
  have hdm : d = m := by
    have hoverlap := h.overlap
    have htop := h.le_top
    omega
  have hsorted : store.wrappedStore.rows.Pairwise (fun a b => a.height.toNat < b.height.toNat) :=
    store.wrappedStore.sorted.imp UInt64.lt_iff_toNat_lt.1
  rw [TimescaleBlockStore.getLatestBlocks, if_neg (by omega), List.take_reverse]
  apply h.newest_of_orderedAtEnd hlimit (hdm ▸ h.rows) (orderedAtEnd_of_sorted hsorted limit)
  · intro b hb
    exact .inr hb
  · intro b hb _
    refine hb.resolve_left ?_
    rw [hblocks]
    exact List.not_mem_nil

/-- As many as asked for are. -/
private theorem newest_full_iff (h : Layered store f c d m) {limit : Int} (hlimit : 1 ≤ limit)
    (hfull : limit ≤ store.redisStore.blocks.length) :
    Newest store f m limit (store.redisStore.getLatestBlocks limit) ↔
      OrderedAtEnd store.redisStore.blocks limit := by
  rw [cache_getLatestBlocks _ hlimit]
  have hlen := h.length_cache
  constructor
  · intro hnew
    have hsplit := List.take_append_drop (store.redisStore.blocks.length - limit.toNat)
      store.redisStore.blocks
    refine ⟨(List.pairwise_reverse.1 hnew.descending).imp UInt64.lt_iff_toNat_lt.1, ?_⟩
    intro a ha b hb
    -- the first of them is not among the newest
    have hnot : ¬ (m : Int) < a.height.toNat + limit := by
      intro hlt
      have hin := (hnew.mem_iff a).2 ⟨.inl (List.mem_of_mem_take ha), hlt⟩
      have hnd := store.redisStore.set.nodup
      change store.redisStore.blocks.Nodup at hnd
      rw [← hsplit] at hnd
      exact (List.nodup_append.1 hnd).2.2 a ha a (List.mem_reverse.1 hin) rfl
    have hlt := ((hnew.mem_iff b).1 (List.mem_reverse.2 hb)).2
    omega
  · intro hord
    apply h.newest_of_orderedAtEnd hlimit h.cached hord
    · intro b hb
      exact .inl hb
    · intro b hb hlt
      have hin := (h.stored_iff _).1 ⟨b, hb, rfl⟩
      obtain ⟨x, hx, heq⟩ := (h.cached b.height.toNat).2 ⟨by omega, hin.2⟩
      exact h.one x b (.inl hx) hb (UInt64.toNat_inj.1 heq) ▸ hx

section Part

variable {limit : Int} {b : BlockDocument β} {bs : List (BlockDocument β)}

/-- The first cached block is the lowest if its height is one of the columns of the wrapped
    store. -/
private theorem first_height (h : Layered store f c d m)
    (hblocks : store.redisStore.blocks = b :: bs) (hint : b.height.toNat ≤ 2 ^ 31) :
    b.height.toNat = c := by
  have hmem : b ∈ store.redisStore.blocks := by
    rw [hblocks]
    exact List.mem_cons_self
  have hb := (h.cached _).1 ⟨b, hmem, rfl⟩
  obtain ⟨x, hx, hxc⟩ := (h.cached c).2 ⟨Nat.le_refl _, Nat.le_trans hb.1 hb.2⟩
  have hle : score b.height ≤ score x.height := by
    rw [hblocks] at hx
    cases List.mem_cons.1 hx with
    | inl hx => rw [hx]
    | inr hx =>
      have hsorted := store.redisStore.blocks_pairwise
      rw [hblocks] at hsorted
      exact (List.pairwise_cons.1 hsorted).1 x hx
  rw [score_eq_self (by omega), score_eq_self (by omega)] at hle
  omega

/-- The range below the cache has what is missing. -/
private theorem newest_below (h : Layered store f c d m)
    (hblocks : store.redisStore.blocks = b :: bs) (hpart : ((b :: bs).length : Int) < limit)
    (hmax : limit < 2 ^ 63) (hroom : limit - (b :: bs).length ≤ b.height.toNat)
    (hint : b.height.toNat ≤ 2 ^ 31) :
    Newest store f m limit (store.getLatestBlocks limit) := by
  have hlen := h.length_cache
  rw [hblocks] at hlen
  have hfirst := h.first_height hblocks hint
  have hpos := h.pos
  have hle := h.le_cache
  have hcm : c ≤ m := by
    rw [List.length_cons] at hlen
    omega
  have hstart := toNat_mergeStart b.height (Int.sub_pos_of_lt hpart) (by omega)
  rw [if_pos hroom] at hstart
  have hend := toNat_pred b.height
  rw [if_neg (by omega)] at hend
  rw [RedisOptimizedBlockStore.getLatestBlocks, readLatestBlocks_part hblocks hpart]
  have hcached : ∀ x, x ∈ (b :: bs).reverse ↔ x ∈ store.redisStore.blocks := by
    intro x
    rw [List.mem_reverse, hblocks]
  apply h.newest_mergeSort
  · refine List.nodup_append.2 ⟨?_, ?_, ?_⟩
    · rw [List.nodup_reverse, ← hblocks]
      exact store.redisStore.set.nodup
    · exact (store.wrappedStore.getBlocks_sorted _ _).imp
        fun hlt heq => UInt64.ne_of_lt hlt (congrArg BlockDocument.height heq)
    · intro x hx y hy heq
      have hxc := (h.cached _).1 ⟨x, (hcached x).1 hx, rfl⟩
      have hyr := (TimescaleBlockStore.mem_getBlocks.1 hy).2.2
      rw [heq] at hxc
      omega
  · intro x
    rw [List.mem_append, hcached, TimescaleBlockStore.mem_getBlocks]
    constructor
    · intro hx
      cases hx with
      | inl hx =>
        have hxc := (h.cached _).1 ⟨x, hx, rfl⟩
        exact ⟨.inl hx, by omega⟩
      | inr hx => exact ⟨.inr hx.1, by omega⟩
    · intro hx
      obtain ⟨hstored, hlt⟩ := hx
      have hin := (h.stored_iff _).1 ⟨x, hstored, rfl⟩
      by_cases hxc : c ≤ x.height.toNat
      · obtain ⟨y, hy, heq⟩ := (h.cached x.height.toNat).2 ⟨hxc, hin.2⟩
        exact .inl (h.one y x (.inl hy) hstored (UInt64.toNat_inj.1 heq) ▸ hy)
      · have hrow : x ∈ store.wrappedStore.rows := by
          refine hstored.resolve_left fun hx => hxc ?_
          exact ((h.cached _).1 ⟨x, hx, rfl⟩).1
        exact .inr ⟨hrow, by omega, by omega⟩

/-- The start of the range wraps around: only the cached blocks are returned. -/
private theorem newest_wrapped_iff (h : Layered store f c d m)
    (hblocks : store.redisStore.blocks = b :: bs) (hpart : ((b :: bs).length : Int) < limit)
    (hmax : limit < 2 ^ 63) (hwrap : ¬ limit - (b :: bs).length ≤ b.height.toNat) :
    Newest store f m limit (store.getLatestBlocks limit) ↔
      ∀ r ∈ store.wrappedStore.rows, r ∈ b :: bs := by
  have hlen := h.length_cache
  rw [hblocks] at hlen
  have hcached : ∀ x, x ∈ (b :: bs).reverse ↔ x ∈ store.redisStore.blocks := by
    intro x
    rw [List.mem_reverse, hblocks]
  have hb := (h.cached _).1 ⟨b, (hcached b).1 (List.mem_reverse.2 List.mem_cons_self), rfl⟩
  have hpos := h.pos
  have hle := h.le_cache
  -- the range ends below where it starts
  have hstart := toNat_mergeStart b.height (Int.sub_pos_of_lt hpart) (by omega)
  rw [if_neg hwrap] at hstart
  have hend := toNat_pred b.height
  rw [if_neg (by omega)] at hend
  have hempty : store.wrappedStore.getBlocks
      (max 0 (b.height - 1 - UInt64.ofInt (limit - (b :: bs).length) + 1)) (b.height - 1) = [] := by
    rw [TimescaleBlockStore.getBlocks, if_pos]
    rw [gt_iff_lt, UInt64.lt_iff_toNat_lt]
    omega
  -- and the limit is greater than all heights
  have hall : ∀ x, store.Stored x → (m : Int) < x.height.toNat + limit := by
    intro x _
    omega
  rw [RedisOptimizedBlockStore.getLatestBlocks, readLatestBlocks_part hblocks hpart,
    CacheRead.finish, hempty, List.append_nil]
  constructor
  · intro hnew r hr
    have hin := (hnew.mem_iff r).2 ⟨.inr hr, hall r (.inr hr)⟩
    rw [List.mem_mergeSort] at hin
    exact List.mem_reverse.1 hin
  · intro hrows
    apply h.newest_mergeSort
    · rw [List.nodup_reverse, ← hblocks]
      exact store.redisStore.set.nodup
    · intro x
      rw [hcached]
      constructor
      · intro hx
        exact ⟨.inl hx, hall x (.inl hx)⟩
      · intro hx
        cases hx.1 with
        | inl hx => exact hx
        | inr hx => exact hblocks ▸ hrows x hx

end Part

end Layered

/-- `GetLatestBlocks` answers with exactly the newest blocks, the highest first, exactly under
    `ReadsNewest`. -/
theorem getLatestBlocks_newest_iff {store : RedisOptimizedBlockStore β} {f c d m : Nat}
    (hlayered : Layered store f c d m) {limit : Int} (hlimit : 1 ≤ limit)
    (hmax : limit < 2 ^ 63) :
    ((store.readLatestBlocks limit).Answerable ∧
        Newest store f m limit (store.getLatestBlocks limit)) ↔ ReadsNewest store limit := by
  unfold ReadsNewest
  cases hblocks : store.redisStore.blocks with
  | nil =>
    rw [RedisOptimizedBlockStore.getLatestBlocks, readLatestBlocks_uncached hlimit hblocks]
    exact iff_of_true ⟨trivial, hlayered.newest_uncached hlimit hblocks⟩ trivial
  | cons b bs =>
    dsimp only
    split
    · next hfull =>
      have hdone := (readLatestBlocks_full hlimit (hblocks ▸ hfull)).1
      rw [RedisOptimizedBlockStore.getLatestBlocks, hdone, ← hblocks,
        ← hlayered.newest_full_iff hlimit (hblocks ▸ hfull)]
      exact and_iff_right trivial
    · next hpart =>
      have hread := readLatestBlocks_part hblocks (Int.not_le.1 hpart)
      have hstart := toNat_mergeStart b.height (Int.sub_pos_of_lt (Int.not_le.1 hpart)) (by omega)
      have hpos : b.height.toNat ≠ 0 := by
        have hmem : b ∈ store.redisStore.blocks := hblocks ▸ List.mem_cons_self
        have hb := (hlayered.cached _).1 ⟨b, hmem, rfl⟩
        have hf := hlayered.pos
        have hc := hlayered.le_cache
        omega
      have hend := toNat_pred b.height
      rw [if_neg hpos] at hend
      split
      · next hroom =>
        rw [if_pos hroom] at hstart
        constructor
        · intro hnew
          -- the query is made, and has an answer only if its end fits the column
          have hanswer := hnew.1
          rw [hread, CacheRead.Answerable, TimescaleBlockStore.Encodes, gt_iff_lt,
            UInt64.lt_iff_toNat_lt] at hanswer
          omega
        · intro hint
          refine ⟨?_, hlayered.newest_below hblocks (Int.not_le.1 hpart) hmax hroom hint⟩
          rw [hread, CacheRead.Answerable]
          right
          omega
      · next hwrap =>
        rw [if_neg hwrap] at hstart
        rw [hlayered.newest_wrapped_iff hblocks (Int.not_le.1 hpart) hmax hwrap]
        refine and_iff_right ?_
        rw [hread, CacheRead.Answerable, TimescaleBlockStore.Encodes, gt_iff_lt,
          UInt64.lt_iff_toNat_lt]
        left
        have hlt := b.height.toNat_lt
        omega

end Store

/-- Blocks 1 to 4 while block 3 is moved from the cache to the wrapped store. -/
def fourBlocks : RedisOptimizedBlockStore Nat where
  wrappedStore := TimescaleBlockStore.empty.putBlocks [⟨11, 1⟩, ⟨12, 2⟩, ⟨13, 3⟩]
  redisStore := RedisBlockStore.empty.putBlocks [⟨13, 3⟩, ⟨14, 4⟩]

private theorem cache_fourBlocks : fourBlocks.redisStore.blocks = [⟨13, 3⟩, ⟨14, 4⟩] := by decide

private theorem layered_fourBlocks : Layered fourBlocks 1 3 3 4 := by
  have hcache := cache_fourBlocks
  have hrows : fourBlocks.wrappedStore.rows = [⟨11, 1⟩, ⟨12, 2⟩, ⟨13, 3⟩] := by decide
  refine ⟨by decide, by decide, by decide, by decide, ?_, ?_, ?_⟩
  · intro a b ha hb
    simp only [RedisOptimizedBlockStore.Stored, hcache, hrows, List.mem_cons, List.not_mem_nil,
      or_false] at ha hb
    rcases ha with (rfl | rfl) | rfl | rfl | rfl <;>
      rcases hb with (rfl | rfl) | rfl | rfl | rfl <;> decide
  · intro n
    simp only [hcache, List.mem_cons, List.not_mem_nil, or_false, exists_eq_or_imp,
      exists_eq_left]
    show 3 = n ∨ 4 = n ↔ _
    omega
  · intro n
    simp only [hrows, List.mem_cons, List.not_mem_nil, or_false, exists_eq_or_imp,
      exists_eq_left]
    show 1 = n ∨ 2 = n ∨ 3 = n ↔ _
    omega

/-- The newest three of them. -/
theorem getLatestBlocks_fourBlocks :
    fourBlocks.getLatestBlocks 3 = [⟨14, 4⟩, ⟨13, 3⟩, ⟨12, 2⟩] ∧
      ((fourBlocks.readLatestBlocks 3).Answerable ∧
        Newest fourBlocks 1 4 3 (fourBlocks.getLatestBlocks 3)) := by
  constructor
  · rw [RedisOptimizedBlockStore.getLatestBlocks,
      readLatestBlocks_part cache_fourBlocks (by decide)]
    exact List.mergeSort_of_pairwise (by decide)
  · exact (getLatestBlocks_newest_iff layered_fourBlocks (by decide) (by decide)).2 (by decide)

/-- Asked for six blocks, it returns two of the four that there are. -/
theorem not_newest :
    Layered fourBlocks 1 3 3 4 ∧ (fourBlocks.readLatestBlocks 6).Answerable ∧
      fourBlocks.getLatestBlocks 6 = [⟨14, 4⟩, ⟨13, 3⟩] ∧
      ¬ Newest fourBlocks 1 4 6 (fourBlocks.getLatestBlocks 6) := by
  have hread := readLatestBlocks_part cache_fourBlocks (show _ < (6 : Int) by decide)
  have hget : fourBlocks.getLatestBlocks 6 = [⟨14, 4⟩, ⟨13, 3⟩] := by
    rw [RedisOptimizedBlockStore.getLatestBlocks, hread]
    exact List.mergeSort_of_pairwise (by decide)
  refine ⟨layered_fourBlocks, ?_, hget, fun hnew => ?_⟩
  · rw [hread]
    exact .inl (by decide)
  · have hlen := hnew.length
    rw [hget] at hlen
    exact absurd hlen (by decide)

end BlockFeed.Spec
