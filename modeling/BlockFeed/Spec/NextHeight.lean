import BlockFeed.Spec.GaplessReads

/-!
# The height of the next job

After a POST `handleMessages` continues at one more than the height of the last block it sent. The
last block is the highest one when the blocks ascend, as those of `GetBlocks` do. A new message is
served with `GetLatestBlocks`, which descends: there the last block is the lowest one, and a job
continues after the newest block only when it is sent a single block.

`ContiguousStore` is what is asked of the block store, `PostedAndAcked` the calls of the handler,
and `SendsOne` the condition on the store under which `GetLatestBlocks` has a single block to
return or fails (`continuesAfter_iff`).
-/

namespace BlockFeed.Spec

open BlockFeed.Native Redis

section Lists

variable {β : Type}

/-- Descending blocks ascend only if there is one of them. -/
theorem ascending_iff_of_descending {blocks : List (BlockDocument β)}
    (hdesc : blocks.Pairwise (fun a b => b.height ≤ a.height)) (hne : blocks ≠ []) :
    blocks.Pairwise (fun a b => a.height < b.height) ↔ blocks.length = 1 := by
  cases blocks with
  | nil => exact absurd rfl hne
  | cons a blocks =>
    cases blocks with
    | nil => simp
    | cons b blocks =>
      -- the first two are in the wrong order
      have hle := (List.pairwise_cons.1 hdesc).1 b List.mem_cons_self
      constructor
      · intro hasc
        have hlt := (List.pairwise_cons.1 hasc).1 b List.mem_cons_self
        rw [UInt64.le_iff_toNat_le] at hle
        rw [UInt64.lt_iff_toNat_lt] at hlt
        omega
      · intro hlen
        simp only [List.length_cons] at hlen
        omega

/-- The last of ascending blocks is the highest. -/
theorem le_getLast_of_ascending {blocks : List (BlockDocument β)} {last : BlockDocument β}
    (hasc : blocks.Pairwise (fun a b => a.height < b.height))
    (hlast : blocks.getLast? = some last) : ∀ b ∈ blocks, b.height ≤ last.height := by
  intro b hb
  obtain ⟨init, rfl⟩ := List.getLast?_eq_some_iff.1 hlast
  cases List.mem_append.1 hb with
  | inl hb =>
    have hlt := (List.pairwise_append.1 hasc).2.2 b hb last (List.mem_singleton.2 rfl)
    exact UInt64.le_of_lt hlt
  | inr hb =>
    rw [List.mem_singleton.1 hb]
    exact UInt64.le_refl _

end Lists

section Store

variable {β : Type} [LinearOrder (BlockDocument β)]

/-! ### The first half of `GetLatestBlocks` -/

section LatestRead

variable {store : RedisOptimizedBlockStore β}

omit [LinearOrder (BlockDocument β)] in
/-- Whatever is merged is sorted. -/
theorem descending_mergeSort (blocks : List (BlockDocument β)) :
    (blocks.mergeSort (fun a b => b.height ≤ a.height)).Pairwise
      (fun a b => b.height ≤ a.height) := by
  have htrans : ∀ a b c : BlockDocument β, decide (b.height ≤ a.height) = true →
      decide (c.height ≤ b.height) = true → decide (c.height ≤ a.height) = true := by
    intro a b c hab hbc
    rw [decide_eq_true_eq] at hab hbc ⊢
    exact UInt64.le_trans hbc hab
  have htotal : ∀ a b : BlockDocument β,
      (decide (b.height ≤ a.height) || decide (a.height ≤ b.height)) = true := by
    intro a b
    rw [Bool.or_eq_true, decide_eq_true_eq, decide_eq_true_eq]
    exact UInt64.le_total _ _
  exact (List.pairwise_mergeSort htrans htotal _).imp of_decide_eq_true

/-- The last blocks of the cache, the highest first. -/
theorem cache_getLatestBlocks (store : RedisBlockStore β) {limit : Int} (hlimit : 1 ≤ limit) :
    store.getLatestBlocks limit =
      (store.blocks.drop (store.blocks.length - limit.toNat)).reverse := by
  rw [store.getLatestBlocks_eq (by omega), List.take_reverse]

/-- Where the merged range starts: `missing` heights below the lowest cached block, unless that
    wraps around. -/
theorem toNat_mergeStart (height : UInt64) {missing : Int} (hpos : 0 < missing)
    (hlt : missing < 2 ^ 64) :
    ((max 0 (height - 1 - UInt64.ofInt missing + 1)).toNat : Int) =
      if missing ≤ height.toNat then height.toNat - missing
      else 2 ^ 64 + height.toNat - missing := by
  have hcast : (UInt64.ofInt missing).toNat = (missing % 2 ^ 64).toNat % 2 ^ 64 :=
    UInt64.toNat_ofNat'
  have hmax : max 0 (height - 1 - UInt64.ofInt missing + 1) =
      height - 1 - UInt64.ofInt missing + 1 :=
    if_pos (UInt64.le_iff_toNat_le.2 (Nat.zero_le _))
  have hheight := height.toNat_lt
  have hpred := toNat_pred height
  rw [hmax, UInt64.toNat_add, UInt64.toNat_sub, hpred]
  rw [hcast]
  show ((((2 ^ 64 - _ + _) % 2 ^ 64 + 1) % 2 ^ 64 : Nat) : Int) = _
  split <;> split <;> omega

/-- As many blocks as asked for are cached. -/
theorem readLatestBlocks_full {limit : Int} (hlimit : 1 ≤ limit)
    (hfull : limit ≤ store.redisStore.blocks.length) :
    store.readLatestBlocks limit = .done (store.redisStore.getLatestBlocks limit) ∧
      ((store.redisStore.getLatestBlocks limit).length : Int) = limit := by
  have hlen : ((store.redisStore.getLatestBlocks limit).length : Int) = limit := by
    rw [cache_getLatestBlocks _ hlimit, List.length_reverse, List.length_drop]
    omega
  refine ⟨?_, hlen⟩
  rw [RedisOptimizedBlockStore.readLatestBlocks, if_neg (by omega)]
  exact if_pos hlen

/-- Fewer are, but some: all of them are taken. -/
theorem readLatestBlocks_part {limit : Int} {b : BlockDocument β}
    {bs : List (BlockDocument β)} (hblocks : store.redisStore.blocks = b :: bs)
    (hpart : ((b :: bs).length : Int) < limit) :
    store.readLatestBlocks limit =
      .mergeBlocks (max 0 (b.height - 1 - UInt64.ofInt (limit - (b :: bs).length) + 1))
        (b.height - 1) (b :: bs).reverse := by
  have hlimit : 1 ≤ limit := by omega
  have hdirty : store.redisStore.getLatestBlocks limit = (b :: bs).reverse := by
    have hzero : (b :: bs).length - limit.toNat = 0 := by omega
    rw [cache_getLatestBlocks _ hlimit, hblocks, hzero, List.drop_zero]
  have hlen : ¬ (((b :: bs).length : Int) = limit) := by omega
  rw [RedisOptimizedBlockStore.readLatestBlocks, if_neg (by omega)]
  simp only [hdirty, List.getLast?_reverse, List.head?_cons, List.length_reverse, if_neg hlen]

/-- None is. -/
theorem readLatestBlocks_uncached {limit : Int} (hlimit : 1 ≤ limit)
    (hblocks : store.redisStore.blocks = []) :
    store.readLatestBlocks limit = .getLatestBlocks limit := by
  have hdirty : store.redisStore.getLatestBlocks limit = [] := by
    rw [cache_getLatestBlocks _ hlimit, hblocks, List.drop_nil, List.reverse_nil]
  have hzero : ¬ ((([] : List (BlockDocument β)).length : Int) = limit) := by
    simp only [List.length_nil]
    omega
  rw [RedisOptimizedBlockStore.readLatestBlocks, if_neg (by omega)]
  simp only [hdirty, if_neg hzero, List.getLast?_nil]

end LatestRead

/-- A block store with one block at each height of an interval. -/
structure ContiguousStore (store : RedisOptimizedBlockStore β) : Prop where
  nonempty : ∃ b, store.Stored b
  one : ∀ a b, store.Stored a → store.Stored b → a.height = b.height → a = b
  between : ∀ a b, store.Stored a → store.Stored b → ∀ height, a.height ≤ height →
    height ≤ b.height → ∃ d, store.Stored d ∧ d.height = height
  /-- the heights fit the column of the wrapped store -/
  int : ∀ b, store.Stored b → b.height.toNat < 2 ^ 31

/-- `GetLatestBlocks` has one block to return, or its call to the wrapped store fails: one is asked
    for; one row is stored and none is cached; one is cached and what is below it does not exist or
    is missed because the start of the range wraps around; or the whole chain from block 0 on is
    cached and shorter than the limit. -/
def SendsOne (store : RedisOptimizedBlockStore β) (limit : Int) : Prop :=
  limit = 1 ∨
  store.redisStore.blocks = [] ∧ store.wrappedStore.rows.length = 1 ∨
  (∃ b, store.redisStore.blocks = [b] ∧
    ((b.height.toNat : Int) + 1 < limit ∨ ∀ r ∈ store.wrappedStore.rows, b.height ≤ r.height)) ∨
  (∃ b ∈ store.redisStore.blocks, b.height = 0) ∧ (store.redisStore.blocks.length : Int) < limit

namespace ContiguousStore

variable {store : RedisOptimizedBlockStore β}

/-- Heights are their own scores. -/
private theorem score_height (h : ContiguousStore store) {b : BlockDocument β}
    (hb : store.Stored b) : score b.height = b.height.toNat := by
  have hint := h.int b hb
  exact score_eq_self (by omega)

/-- The cache lists its blocks by ascending height. -/
theorem cache_sorted (h : ContiguousStore store) :
    store.redisStore.blocks.Pairwise (fun a b => a.height < b.height) := by
  apply RedisBlockStore.blocks_sorted
  · intro b hb
    exact h.score_height (.inl hb)
  · intro a ha b hb heq
    exact h.one a b (.inl ha) (.inl hb) heq

/-- So does a read of a range of it. -/
private theorem range_sorted (h : ContiguousStore store) (startHeight endHeight : UInt64) :
    (store.redisStore.getBlocks startHeight endHeight).Pairwise
      (fun a b => a.height < b.height) := by
  unfold RedisBlockStore.getBlocks
  split
  · exact .nil
  · exact h.cache_sorted.sublist (List.filter_sublist.map _)

/-! ### `GetBlocks` ascends -/

/-- Rows below the first cached block, then the cached blocks. -/
theorem ascending_readBlocks (h : ContiguousStore store) {startHeight endHeight : UInt64}
    (hanswer : (store.readBlocks startHeight endHeight).Answerable) :
    ((store.readBlocks startHeight endHeight).finish store.wrappedStore).Pairwise
      (fun a b => a.height < b.height) := by
  have hsorted := h.range_sorted startHeight endHeight
  simp only [RedisOptimizedBlockStore.readBlocks] at hanswer ⊢
  split
  · exact .nil
  · split
    · exact .nil
    · next hgt hpos =>
      rw [if_neg hgt, if_neg hpos] at hanswer
      generalize store.redisStore.getBlocks startHeight endHeight = dirty at hsorted hanswer ⊢
      split
      · exact hsorted
      · next hfull =>
        rw [if_neg hfull] at hanswer
        cases dirty with
        | nil =>
          show (store.wrappedStore.getBlocks startHeight endHeight ++ []).Pairwise _
          rw [List.append_nil]
          exact store.wrappedStore.getBlocks_sorted _ _
        | cons first rest =>
          have hend : startHeight > first.height - 1 ∨ (first.height - 1).toNat < 2 ^ 31 := hanswer
          refine List.pairwise_append.2 ⟨store.wrappedStore.getBlocks_sorted _ _, hsorted, ?_⟩
          intro a ha b hb
          -- below block 0 there is no range to ask for
          obtain ⟨-, hlo, hhi⟩ := TimescaleBlockStore.mem_getBlocks.1 ha
          have hpred := toNat_pred first.height
          rw [gt_iff_lt, UInt64.lt_iff_toNat_lt] at hend
          have hpos : first.height.toNat ≠ 0 := by
            intro hzero
            rw [if_pos hzero] at hpred
            omega
          rw [if_neg hpos] at hpred
          have hfirst : first.height.toNat ≤ b.height.toNat := by
            cases List.mem_cons.1 hb with
            | inl hb => rw [hb]
            | inr hb =>
              exact Nat.le_of_lt (UInt64.lt_iff_toNat_lt.1 ((List.pairwise_cons.1 hsorted).1 b hb))
          rw [UInt64.lt_iff_toNat_lt]
          omega

/-! ### `GetLatestBlocks` descends -/

omit [LinearOrder (BlockDocument β)] in
private theorem descending_rows (wrappedStore : TimescaleBlockStore β) (limit : Int) :
    (wrappedStore.getLatestBlocks limit).Pairwise (fun a b => b.height ≤ a.height) := by
  unfold TimescaleBlockStore.getLatestBlocks
  split
  · exact .nil
  · refine List.Pairwise.sublist (List.take_sublist _ _) (List.pairwise_reverse.2 ?_)
    exact wrappedStore.sorted.imp UInt64.le_of_lt

theorem descending_readLatestBlocks (h : ContiguousStore store) {limit : Int}
    (hlimit : 1 ≤ limit) :
    ((store.readLatestBlocks limit).finish store.wrappedStore).Pairwise
      (fun a b => b.height ≤ a.height) := by
  simp only [RedisOptimizedBlockStore.readLatestBlocks, if_neg (show ¬ limit ≤ 0 by omega)]
  split
  · rw [cache_getLatestBlocks _ hlimit]
    refine List.pairwise_reverse.2 (List.Pairwise.sublist (List.drop_sublist _ _) ?_)
    exact h.cache_sorted.imp UInt64.le_of_lt
  · split
    · exact descending_rows _ _
    · exact descending_mergeSort _

/-- With one block cached, and not block 0, the second call finds nothing exactly if there is
    nothing below or the range wraps around. -/
private theorem nothing_below_iff (h : ContiguousStore store) {limit : Int} {b : BlockDocument β}
    (hblocks : store.redisStore.blocks = [b]) (hpos : b.height.toNat ≠ 0) (hpart : 1 < limit)
    (hmax : limit < 2 ^ 31) :
    store.wrappedStore.getBlocks (max 0 (b.height - 1 - UInt64.ofInt (limit - 1) + 1))
        (b.height - 1) = [] ↔
      (b.height.toNat : Int) + 1 < limit ∨ ∀ r ∈ store.wrappedStore.rows, b.height ≤ r.height := by
  have hmissing : 0 < limit - 1 := Int.sub_pos_of_lt hpart
  have hstart := toNat_mergeStart b.height hmissing (by omega)
  have hend := toNat_pred b.height
  rw [if_neg hpos] at hend
  have hb : store.Stored b := .inl (by rw [hblocks]; exact List.mem_singleton.2 rfl)
  rw [List.eq_nil_iff_forall_not_mem]
  simp only [TimescaleBlockStore.mem_getBlocks, UInt64.le_iff_toNat_le]
  constructor
  · intro hnone
    by_contra hnot
    rw [not_or] at hnot
    obtain ⟨hwrap, hrow⟩ := hnot
    rw [if_pos (by omega)] at hstart
    -- a row below `b` means that the block right below `b` is stored, and it is not cached
    obtain ⟨r, hr, hlt⟩ : ∃ r ∈ store.wrappedStore.rows, r.height.toNat < b.height.toNat := by
      by_contra hall
      exact hrow fun r hr => Nat.not_lt.1 fun hlt => hall ⟨r, hr, hlt⟩
    obtain ⟨d, hd, hheight⟩ := h.between r b (.inr hr) hb (b.height - 1)
      (UInt64.le_iff_toNat_le.2 (by omega)) (UInt64.le_iff_toNat_le.2 (by omega))
    have hdrow : d ∈ store.wrappedStore.rows := by
      cases hd with
      | inl hd =>
        rw [hblocks, List.mem_singleton] at hd
        rw [hd] at hheight
        rw [← hheight] at hend
        omega
      | inr hd => exact hd
    refine hnone d ⟨hdrow, ?_, ?_⟩
    · rw [hheight]
      omega
    · rw [hheight]
  · intro hcases d hd
    obtain ⟨hrow, hlo, hhi⟩ := hd
    cases hcases with
    | inl hwrap =>
      rw [if_neg (by omega)] at hstart
      have hint := h.int d (.inr hrow)
      omega
    | inr hall =>
      have hle := hall d hrow
      omega

/-- Where only rows are stored. -/
private theorem sendsOne_uncached (h : ContiguousStore store) {limit : Int} (hlimit : 1 ≤ limit)
    (hblocks : store.redisStore.blocks = []) :
    SendsOne store limit ↔ ((store.readLatestBlocks limit).Answerable →
      ((store.readLatestBlocks limit).finish store.wrappedStore).length = 1) := by
  unfold SendsOne
  rw [hblocks, readLatestBlocks_uncached hlimit hblocks]
  obtain ⟨b, hb⟩ := h.nonempty
  have hrow : b ∈ store.wrappedStore.rows := by
    cases hb with
    | inl hb => rw [hblocks] at hb; cases hb
    | inr hb => exact hb
  have hrows := List.length_pos_of_mem hrow
  have hlen : (CacheRead.finish store.wrappedStore (.getLatestBlocks limit)).length =
      min limit.toNat store.wrappedStore.rows.length := by
    rw [CacheRead.finish, TimescaleBlockStore.getLatestBlocks, if_neg (by omega),
      List.length_take, List.length_reverse]
  rw [hlen]
  simp only [CacheRead.Answerable, forall_const, true_and, List.not_mem_nil, false_and,
    exists_false, or_false, List.nil_eq, List.cons_ne_nil]
  omega

/-- Where all blocks come from the cache. -/
private theorem sendsOne_full {limit : Int} (hlimit : 1 ≤ limit) {b : BlockDocument β}
    {bs : List (BlockDocument β)} (hblocks : store.redisStore.blocks = b :: bs)
    (hfull : limit ≤ ((b :: bs).length : Int)) :
    SendsOne store limit ↔ ((store.readLatestBlocks limit).Answerable →
      ((store.readLatestBlocks limit).finish store.wrappedStore).length = 1) := by
  unfold SendsOne
  rw [hblocks]
  obtain ⟨hread, hlen⟩ := readLatestBlocks_full hlimit (hblocks ▸ hfull)
  rw [hread]
  show _ ↔ (True → (store.redisStore.getLatestBlocks limit).length = 1)
  constructor
  · intro hone _
    rcases hone with hone | ⟨hnil, -⟩ | ⟨b', heq, -⟩ | ⟨-, hlt⟩
    · omega
    · cases hnil
    · cases heq
      rw [List.length_singleton] at hfull
      omega
    · omega
  · intro hone
    have hone := hone trivial
    left
    omega

/-- Where block 0 is cached and more are asked for, the call asks for rows below it. -/
private theorem sendsOne_zero {limit : Int} (hmax : limit < 2 ^ 31) {b : BlockDocument β}
    {bs : List (BlockDocument β)} (hblocks : store.redisStore.blocks = b :: bs)
    (hpart : ((b :: bs).length : Int) < limit) (hzero : b.height.toNat = 0) :
    SendsOne store limit ↔ ((store.readLatestBlocks limit).Answerable →
      ((store.readLatestBlocks limit).finish store.wrappedStore).length = 1) := by
  unfold SendsOne
  rw [hblocks, readLatestBlocks_part hblocks hpart]
  have hend := toNat_pred b.height
  have hmissing : 0 < limit - (b :: bs).length := by omega
  have hstart := toNat_mergeStart b.height hmissing (by omega)
  rw [if_neg (by omega)] at hstart
  rw [if_pos hzero] at hend
  apply iff_of_true
  · exact .inr (.inr (.inr ⟨⟨b, List.mem_cons_self, UInt64.toNat_inj.1 hzero⟩, hpart⟩))
  · intro hanswer
    cases hanswer with
    | inl hgt =>
      rw [gt_iff_lt, UInt64.lt_iff_toNat_lt] at hgt
      omega
    | inr hint => omega

/-- Where the cache is not enough, the rows below it are added. -/
private theorem sendsOne_part (h : ContiguousStore store) {limit : Int} (hmax : limit < 2 ^ 31)
    {b : BlockDocument β} {bs : List (BlockDocument β)}
    (hblocks : store.redisStore.blocks = b :: bs) (hpart : ((b :: bs).length : Int) < limit)
    (hzero : b.height.toNat ≠ 0) :
    SendsOne store limit ↔ ((store.readLatestBlocks limit).Answerable →
      ((store.readLatestBlocks limit).finish store.wrappedStore).length = 1) := by
  unfold SendsOne
  rw [hblocks, readLatestBlocks_part hblocks hpart]
  have hlowest : ∀ d ∈ b :: bs, b.height.toNat ≤ d.height.toNat := by
    intro d hd
    have hsorted := h.cache_sorted
    rw [hblocks] at hsorted
    cases List.mem_cons.1 hd with
    | inl hd => rw [hd]
    | inr hd =>
      exact Nat.le_of_lt (UInt64.lt_iff_toNat_lt.1 ((List.pairwise_cons.1 hsorted).1 d hd))
  have hend := toNat_pred b.height
  rw [if_neg hzero] at hend
  have hb : store.Stored b := .inl (by rw [hblocks]; exact List.mem_cons_self)
  have hint := h.int b hb
  have hanswer : (CacheRead.mergeBlocks
      (max 0 (b.height - 1 - UInt64.ofInt (limit - (b :: bs).length) + 1))
      (b.height - 1) (b :: bs).reverse).Answerable := .inr (by omega)
  rw [forall_prop_of_true hanswer]
  show _ ↔ (List.mergeSort _ _).length = 1
  rw [List.length_mergeSort, List.length_append, List.length_reverse]
  cases bs with
  | nil =>
    -- one cached block, so nothing may be added to it
    have hlen : (([b] : List (BlockDocument β)).length : Int) = 1 := rfl
    rw [hlen] at hpart ⊢
    have hbelow := h.nothing_below_iff hblocks hzero hpart hmax
    rw [List.length_singleton, Nat.add_eq_left, List.length_eq_zero_iff, hbelow]
    constructor
    · rintro (hone | ⟨hnil, -⟩ | ⟨b', heq, hcases⟩ | ⟨⟨d, hd, hheight⟩, -⟩)
      · omega
      · cases hnil
      · cases heq
        exact hcases
      · rw [List.mem_singleton.1 hd] at hheight
        rw [hheight] at hzero
        exact absurd rfl hzero
    · intro hcases
      exact .inr (.inr (.inl ⟨b, rfl, hcases⟩))
  | cons b' bs =>
    -- two cached blocks are too many
    apply iff_of_false
    · rintro (hone | ⟨hnil, -⟩ | ⟨d, heq, -⟩ | ⟨⟨d, hd, hheight⟩, -⟩)
      · rw [List.length_cons] at hpart
        omega
      · cases hnil
      · cases heq
      · have hle := hlowest d hd
        rw [hheight] at hle
        exact hzero (Nat.le_zero.1 hle)
    · intro hlen
      simp only [List.length_cons] at hlen
      omega

/-- A single block is returned, or the second call fails, exactly under `SendsOne`. -/
theorem sendsOne_iff (h : ContiguousStore store) {limit : Int} (hlimit : 1 ≤ limit)
    (hmax : limit < 2 ^ 31) :
    SendsOne store limit ↔ ((store.readLatestBlocks limit).Answerable →
      ((store.readLatestBlocks limit).finish store.wrappedStore).length = 1) := by
  cases hblocks : store.redisStore.blocks with
  | nil => exact h.sendsOne_uncached hlimit hblocks
  | cons b bs =>
    by_cases hfull : limit ≤ ((b :: bs).length : Int)
    · exact sendsOne_full hlimit hblocks hfull
    · have hpart : ((b :: bs).length : Int) < limit := by omega
      by_cases hzero : b.height.toNat = 0
      · exact sendsOne_zero hmax hblocks hpart hzero
      · exact h.sendsOne_part hmax hblocks hpart hzero

end ContiguousStore

end Store

/-! ## The calls of the handler -/

section Handler

variable {κ ι T β : Type} [DecidableEq κ] [DecidableEq ι] [LinearOrder T] [JobText ι T]
  [LinearOrder (BlockDocument β)]

/-- The handler reads `body` from the block store, posts it and acknowledges with `newMsg`; every
    call succeeds. -/
structure PostedAndAcked (consumerName : κ) (webhooks : ι → Option Webhook) (shard : Shard κ ι T)
    (store : RedisOptimizedBlockStore β) (msg : ParsedStreamMessage (WebhookStreamMsgData ι))
    (isBacklogMsg : Bool) (webhook : Webhook) (body : List (BlockDocument β))
    (newMsg : WebhookStreamMsgData ι) : Prop where
  answerable : (relayRead store msg.data webhook).Answerable
  body_eq : body = (relayRead store msg.data webhook).finish store.wrappedStore
  readCache : BlockRelay.handleMessages consumerName webhooks shard msg isBacklogMsg
    (.readCache webhook) (.readCache (relayRead store msg.data webhook)) =
      some (shard, some (.readWrapped (relayRead store msg.data webhook)))
  readWrapped : BlockRelay.handleMessages consumerName webhooks shard msg isBacklogMsg
    (.readWrapped (relayRead store msg.data webhook)) (.readWrapped body) =
      some (shard, some (.post body))
  post : BlockRelay.handleMessages consumerName webhooks shard msg isBacklogMsg
    (.post body) .post = some (shard, some (.xAckDel (some newMsg)))
  xAckDel : BlockRelay.handleMessages consumerName webhooks shard msg isBacklogMsg
    (.xAckDel (some newMsg) : RelayCall ι β) .xAckDel =
      some (shard.xAckDel msg (some newMsg), none)

variable {consumerName : κ} {webhooks : ι → Option Webhook} {shard : Shard κ ι T}
  {store : RedisOptimizedBlockStore β} {msg : ParsedStreamMessage (WebhookStreamMsgData ι)}
  {isBacklogMsg : Bool} {webhook : Webhook}

/-- Whatever is sent ascends, and the next job continues after the highest block. -/
def ContinuesAfter (consumerName : κ) (webhooks : ι → Option Webhook) (shard : Shard κ ι T)
    (store : RedisOptimizedBlockStore β) (msg : ParsedStreamMessage (WebhookStreamMsgData ι))
    (isBacklogMsg : Bool) (webhook : Webhook) : Prop :=
  ∀ body newMsg,
    PostedAndAcked consumerName webhooks shard store msg isBacklogMsg webhook body newMsg →
    body.Pairwise (fun a b => a.height < b.height) ∧
      ∃ newest ∈ body, (∀ b ∈ body, b.height ≤ newest.height) ∧
        newMsg.blockHeight.toNat = newest.height.toNat + 1

/-- A body that is not empty goes through, and its last block decides the next height. -/
theorem postedAndAcked_iff {body : List (BlockDocument β)} {newMsg : WebhookStreamMsgData ι} :
    PostedAndAcked consumerName webhooks shard store msg isBacklogMsg webhook body newMsg ↔
      (relayRead store msg.data webhook).Answerable ∧
        body = (relayRead store msg.data webhook).finish store.wrappedStore ∧
        ∃ last, body.getLast? = some last ∧
          newMsg = ⟨msg.data.webhookID, last.height + 1, false⟩ := by
  constructor
  · intro hposted
    have hpost := handlerStep_of_handleMessages hposted.post
    cases hpost with
    | post _ last hlast => exact ⟨hposted.answerable, hposted.body_eq, last, hlast, rfl⟩
  · rintro ⟨hanswer, hbody, last, hlast, rfl⟩
    have hne : body.isEmpty = false := by
      cases body with
      | nil => cases hlast
      | cons b bs => rfl
    refine ⟨hanswer, hbody, rfl, ?_, ?_, rfl⟩
    · simp only [BlockRelay.handleMessages, hne, Bool.false_eq_true, if_false]
    · simp only [BlockRelay.handleMessages, hlast]

omit [DecidableEq ι] in
/-- What is read is stored. -/
private theorem stored_of_mem_relayRead {b : BlockDocument β}
    (hb : b ∈ (relayRead store msg.data webhook).finish store.wrappedStore) : store.Stored b := by
  cases mem_finish hb with
  | inl hdirty =>
    left
    unfold relayRead at hdirty
    split at hdirty
    · exact dirtyBlocks_readLatestBlocks hdirty
    · exact dirtyBlocks_readBlocks hdirty
  | inr hrow => exact .inr hrow

/-- So the handler does what it should exactly when what it reads ascends. -/
private theorem continuesAfter_iff_ascending (h : ContiguousStore store) :
    ContinuesAfter consumerName webhooks shard store msg isBacklogMsg webhook ↔
      ((relayRead store msg.data webhook).Answerable →
        ((relayRead store msg.data webhook).finish store.wrappedStore).Pairwise
          (fun a b => a.height < b.height)) := by
  constructor
  · intro hcont hanswer
    cases hlast : ((relayRead store msg.data webhook).finish store.wrappedStore).getLast? with
    | none => rw [List.getLast?_eq_none_iff.1 hlast]; exact .nil
    | some last => exact (hcont _ _ (postedAndAcked_iff.2 ⟨hanswer, rfl, last, hlast, rfl⟩)).1
  · intro hasc body newMsg hposted
    obtain ⟨hanswer, rfl, last, hlast, rfl⟩ := postedAndAcked_iff.1 hposted
    have hmem := List.mem_of_getLast? hlast
    refine ⟨hasc hanswer, last, hmem, le_getLast_of_ascending (hasc hanswer) hlast, ?_⟩
    -- the heights are far from where they would wrap around
    have hint := h.int last (stored_of_mem_relayRead hmem)
    rw [UInt64.toNat_add]
    show (_ + 1) % 2 ^ 64 = _
    omega

/-- The handler continues after the newest block it sent exactly for the messages that are not
    new, and for a new one only if there is a single block to send or the read fails. -/
theorem continuesAfter_iff (h : ContiguousStore store) (hmin : 1 ≤ webhook.maxBlocks)
    (hmax : webhook.maxBlocks < 2 ^ 31) :
    ContinuesAfter consumerName webhooks shard store msg isBacklogMsg webhook ↔
      msg.data.isNew = false ∨ SendsOne store webhook.maxBlocks := by
  rw [continuesAfter_iff_ascending h]
  cases hnew : msg.data.isNew with
  | false =>
    have hread : relayRead store msg.data webhook = store.readBlocks msg.data.blockHeight
        (msg.data.blockHeight + UInt64.ofInt webhook.maxBlocks - 1) := by
      rw [relayRead, hnew]
      rfl
    rw [hread]
    exact iff_of_true h.ascending_readBlocks (.inl rfl)
  | true =>
    have hread : relayRead store msg.data webhook = store.readLatestBlocks webhook.maxBlocks := by
      rw [relayRead, hnew]
      rfl
    obtain ⟨b, hb⟩ := h.nonempty
    have hne : (store.readLatestBlocks webhook.maxBlocks).finish store.wrappedStore ≠ [] :=
      (sure_readLatestBlocks (by omega) hb).finish_ne_nil
    rw [hread, h.sendsOne_iff hmin hmax,
      ascending_iff_of_descending (h.descending_readLatestBlocks hmin) hne]
    simp

end Handler

/-- Blocks 4, 5 and 6, the first two in the wrapped store and the last two in the cache. -/
def threeBlocks : RedisOptimizedBlockStore Nat where
  wrappedStore := TimescaleBlockStore.empty.putBlocks [⟨14, 4⟩, ⟨15, 5⟩]
  redisStore := RedisBlockStore.empty.putBlocks [⟨15, 5⟩, ⟨16, 6⟩]

private theorem stored_threeBlocks {b : BlockDocument Nat} :
    threeBlocks.Stored b ↔ b = ⟨14, 4⟩ ∨ b = ⟨15, 5⟩ ∨ b = ⟨16, 6⟩ := by
  have hcache : threeBlocks.redisStore.blocks = [⟨15, 5⟩, ⟨16, 6⟩] := by decide
  have hrows : threeBlocks.wrappedStore.rows = [⟨14, 4⟩, ⟨15, 5⟩] := by decide
  simp only [RedisOptimizedBlockStore.Stored, hcache, hrows, List.mem_cons, List.not_mem_nil,
    or_false]
  tauto

private theorem contiguous_threeBlocks : ContiguousStore threeBlocks where
  nonempty := ⟨⟨14, 4⟩, stored_threeBlocks.2 (.inl rfl)⟩
  one := by
    intro a b ha hb
    rcases stored_threeBlocks.1 ha with rfl | rfl | rfl <;>
      rcases stored_threeBlocks.1 hb with rfl | rfl | rfl <;> decide
  between := by
    intro a b ha hb height hlo hhi
    have hrange : 4 ≤ a.height ∧ b.height ≤ 6 := by
      rcases stored_threeBlocks.1 ha with rfl | rfl | rfl <;>
        rcases stored_threeBlocks.1 hb with rfl | rfl | rfl <;> decide
    have hlo' := UInt64.le_iff_toNat_le.1 (UInt64.le_trans hrange.1 hlo)
    have hhi' := UInt64.le_iff_toNat_le.1 (UInt64.le_trans hhi hrange.2)
    have hlo' : 4 ≤ height.toNat := hlo'
    have hhi' : height.toNat ≤ 6 := hhi'
    have hheight : height.toNat = 4 ∨ height.toNat = 5 ∨ height.toNat = 6 := by omega
    rcases hheight with hheight | hheight | hheight
    · exact ⟨_, stored_threeBlocks.2 (.inl rfl), UInt64.toNat_inj.1 hheight.symm⟩
    · exact ⟨_, stored_threeBlocks.2 (.inr (.inl rfl)), UInt64.toNat_inj.1 hheight.symm⟩
    · exact ⟨_, stored_threeBlocks.2 (.inr (.inr rfl)), UInt64.toNat_inj.1 hheight.symm⟩
  int := by
    intro b hb
    rcases stored_threeBlocks.1 hb with rfl | rfl | rfl <;> decide

/-- A job that asks for blocks 4 to 6 goes on at 7. -/
theorem continuesAfter_threeBlocks :
    PostedAndAcked true (fun _ => some ⟨3, 3⟩) (.empty : Shard Bool Nat TupleText) threeBlocks
        ⟨1, 7, 4, false⟩ false ⟨3, 3⟩ [⟨14, 4⟩, ⟨15, 5⟩, ⟨16, 6⟩] ⟨7, 7, false⟩ ∧
      ContinuesAfter true (fun _ => some ⟨3, 3⟩) (.empty : Shard Bool Nat TupleText) threeBlocks
        ⟨1, 7, 4, false⟩ false ⟨3, 3⟩ :=
  ⟨postedAndAcked_iff.2 ⟨.inr (by decide), by decide, _, rfl, rfl⟩,
    (continuesAfter_iff contiguous_threeBlocks (by decide) (by decide)).2 (.inl rfl)⟩

/-- A new job of a webhook with `MaxBlocks` 2 is sent blocks 6 and 5, and goes on at 6. -/
theorem not_continuesAfter :
    PostedAndAcked true (fun _ => some ⟨2, 3⟩) (.empty : Shard Bool Nat TupleText) threeBlocks
        ⟨1, 7, 0, true⟩ false ⟨2, 3⟩ [⟨16, 6⟩, ⟨15, 5⟩] ⟨7, 6, false⟩ ∧
      ¬ ContinuesAfter true (fun _ => some ⟨2, 3⟩) (.empty : Shard Bool Nat TupleText) threeBlocks
        ⟨1, 7, 0, true⟩ false ⟨2, 3⟩ := by
  have hposted : PostedAndAcked true (fun _ => some ⟨2, 3⟩) (.empty : Shard Bool Nat TupleText)
      threeBlocks ⟨1, 7, 0, true⟩ false ⟨2, 3⟩ [⟨16, 6⟩, ⟨15, 5⟩] ⟨7, 6, false⟩ :=
    postedAndAcked_iff.2 ⟨trivial, by decide, _, rfl, rfl⟩
  exact ⟨hposted, fun hcont => absurd (hcont _ _ hposted).1 (by decide)⟩

end BlockFeed.Spec
