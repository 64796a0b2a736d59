import BlockFeed.Spec.CachedStoreCorrect
import BlockFeed.Spec.JobConservation
import BlockFeed.Spec.PendingFreshness
import BlockFeed.Spec.RouterCorrect

/-!
# The relay always finds a block

`handleMessages` panics when its read of the block store returns nothing. As long as the stored
heights have no gap, that cannot happen: a job gets into the stream only when its block and a
later one are stored (`Ready`), and a block that the cache does not have any more is in the wrapped
store, where it stays (`Sure`).

`relay_neverPanics` asks for heights that leave room for the relay's arithmetic. Without room the
height after the last block sent wraps around to 0: `lastHeight`.
-/

namespace BlockFeed.Spec

open BlockFeed.Native Redis Transition

/-! ## Reads that find something -/

section Reads

variable {β : Type}

/-- The blocks that a read has from the cache. -/
def dirtyBlocks : CacheRead β → List (BlockDocument β)
  | .done blocks => blocks
  | .getBlocks _ _ blocks => blocks
  | .getLatestBlocks _ => []
  | .mergeBlocks _ _ blocks => blocks

/-- The call to the wrapped store finds a row. -/
def Finds (rows : List (BlockDocument β)) : CacheRead β → Prop
  | .getBlocks startHeight endHeight _ =>
    ∃ r ∈ rows, startHeight.toNat ≤ r.height.toNat ∧ r.height.toNat ≤ endHeight.toNat
  | .getLatestBlocks limit => 0 < limit ∧ rows ≠ []
  | _ => False

/-- The read returns something, now or after more rows are added. -/
def Sure (rows : List (BlockDocument β)) (read : CacheRead β) : Prop :=
  dirtyBlocks read ≠ [] ∨ Finds rows read

theorem Sure.mono {rows rows' : List (BlockDocument β)} {read : CacheRead β} (h : Sure rows read)
    (hsub : rows ⊆ rows') : Sure rows' read := by
  apply h.imp_right
  intro hfinds
  cases read with
  | getBlocks startHeight endHeight blocks =>
    obtain ⟨r, hr, hrange⟩ := hfinds
    exact ⟨r, hsub hr, hrange⟩
  | getLatestBlocks limit =>
    obtain ⟨r, hr⟩ := List.exists_mem_of_ne_nil _ hfinds.2
    exact ⟨hfinds.1, List.ne_nil_of_mem (hsub hr)⟩
  | _ => exact hfinds

/-- The blocks returned come from the cache or the wrapped store. -/
theorem mem_finish {wrappedStore : TimescaleBlockStore β} {read : CacheRead β}
    {b : BlockDocument β} (h : b ∈ read.finish wrappedStore) :
    b ∈ dirtyBlocks read ∨ b ∈ wrappedStore.rows := by
  cases read with
  | done blocks => exact .inl h
  | getBlocks startHeight endHeight blocks =>
    cases List.mem_append.1 h with
    | inl h => exact .inr (TimescaleBlockStore.mem_getBlocks.1 h).1
    | inr h => exact .inl h
  | getLatestBlocks limit =>
    right
    simp only [CacheRead.finish, TimescaleBlockStore.getLatestBlocks] at h
    split at h
    · cases h
    · exact List.mem_reverse.1 (List.mem_of_mem_take h)
  | mergeBlocks startHeight endHeight blocks =>
    cases List.mem_append.1 (List.mem_mergeSort.1 h) with
    | inl h => exact .inl h
    | inr h => exact .inr (TimescaleBlockStore.mem_getBlocks.1 h).1

theorem Sure.finish_ne_nil {wrappedStore : TimescaleBlockStore β} {read : CacheRead β}
    (h : Sure wrappedStore.rows read) : read.finish wrappedStore ≠ [] := by
  cases h with
  | inl hdirty =>
    obtain ⟨b, hb⟩ := List.exists_mem_of_ne_nil _ hdirty
    apply List.ne_nil_of_mem (a := b)
    cases read with
    | done blocks => exact hb
    | getBlocks startHeight endHeight blocks => exact List.mem_append_right _ hb
    | getLatestBlocks limit => cases hb
    | mergeBlocks startHeight endHeight blocks =>
      exact List.mem_mergeSort.2 (List.mem_append_left _ hb)
  | inr hfinds =>
    cases read with
    | done blocks => exact hfinds.elim
    | getBlocks startHeight endHeight blocks =>
      obtain ⟨r, hr, hrange⟩ := hfinds
      exact List.ne_nil_of_mem
        (List.mem_append_left _ (TimescaleBlockStore.mem_getBlocks.2 ⟨hr, hrange⟩))
    | getLatestBlocks limit =>
      obtain ⟨hlimit, hrows⟩ := hfinds
      simp only [CacheRead.finish, TimescaleBlockStore.getLatestBlocks,
        if_neg (Int.not_le.2 hlimit)]
      intro hnil
      cases List.take_eq_nil_iff.1 hnil with
      | inl hzero => omega
      | inr hrev => exact hrows (List.reverse_eq_nil_iff.1 hrev)
    | mergeBlocks startHeight endHeight blocks => exact hfinds.elim

variable [LinearOrder (BlockDocument β)]

theorem dirtyBlocks_readBlocks {store : RedisOptimizedBlockStore β}
    {startHeight endHeight : UInt64} {b : BlockDocument β}
    (h : b ∈ dirtyBlocks (store.readBlocks startHeight endHeight)) :
    b ∈ store.redisStore.blocks := by
  simp only [RedisOptimizedBlockStore.readBlocks] at h
  split at h
  · cases h
  · split at h
    · cases h
    · have hmem : b ∈ store.redisStore.getBlocks startHeight endHeight := by
        split at h
        · exact h
        · split at h
          · cases h
          · next hcons => rw [hcons]; exact h
      exact (RedisBlockStore.mem_getBlocks.1 hmem).1

theorem mem_getLatestBlocks {store : RedisBlockStore β} {limit : Int} {b : BlockDocument β}
    (h : b ∈ store.getLatestBlocks limit) : b ∈ store.blocks := by
  unfold RedisBlockStore.getLatestBlocks at h
  split at h
  · cases h
  · obtain ⟨e, he, rfl⟩ := List.mem_map.1 (List.mem_reverse.1 h)
    exact RedisBlockStore.mem_blocks_of_entry (store.set.zrange_subset _ _ he)

theorem getLatestBlocks_eq_nil {store : RedisBlockStore β} {limit : Int} (hlimit : 0 < limit)
    (h : store.getLatestBlocks limit = []) : store.blocks = [] := by
  have hk : 0 < limit.toNat := by omega
  have hlim : (limit.toNat : Int) = limit := Int.toNat_of_nonneg (Int.le_of_lt hlimit)
  rw [RedisBlockStore.getLatestBlocks, if_neg (Int.not_le.2 hlimit), List.reverse_eq_nil_iff,
    List.map_eq_nil_iff, ← hlim, store.set.zrange_last hk, List.drop_eq_nil_iff] at h
  have hlen : store.set.entries.length = 0 := by omega
  rw [RedisBlockStore.blocks, SortedSet.members, List.eq_nil_of_length_eq_zero hlen]
  rfl

theorem dirtyBlocks_readLatestBlocks {store : RedisOptimizedBlockStore β} {limit : Int}
    {b : BlockDocument β} (h : b ∈ dirtyBlocks (store.readLatestBlocks limit)) :
    b ∈ store.redisStore.blocks := by
  simp only [RedisOptimizedBlockStore.readLatestBlocks] at h
  split at h
  · cases h
  · have hmem : b ∈ store.redisStore.getLatestBlocks limit := by
      split at h
      · exact h
      · split at h
        · cases h
        · exact h
    exact mem_getLatestBlocks hmem

/-- With anything stored, the latest blocks are not empty. -/
theorem sure_readLatestBlocks {store : RedisOptimizedBlockStore β} {limit : Int}
    (hlimit : 0 < limit) {b : BlockDocument β} (hb : store.Stored b) :
    Sure store.wrappedStore.rows (store.readLatestBlocks limit) := by
  simp only [RedisOptimizedBlockStore.readLatestBlocks, if_neg (Int.not_le.2 hlimit)]
  by_cases hnil : store.redisStore.getLatestBlocks limit = []
  · -- an empty cache leaves the rows
    right
    have hcache := getLatestBlocks_eq_nil hlimit hnil
    have hzero : ¬ ((([] : List (BlockDocument β)).length : Int) = limit) := by
      simp only [List.length_nil]
      omega
    simp only [hnil, if_neg hzero, List.getLast?_nil]
    refine ⟨hlimit, ?_⟩
    cases hb with
    | inl hb => rw [hcache] at hb; cases hb
    | inr hb => exact List.ne_nil_of_mem hb
  · left
    split
    · exact hnil
    · split
      · next hlast => exact absurd (List.getLast?_eq_none_iff.1 hlast) hnil
      · exact hnil

/-- The last height of the range that the relay asks for. -/
theorem toNat_endHeight {startHeight : UInt64} {maxBlocks : Int} (hmax : 1 ≤ maxBlocks)
    (h : startHeight.toNat + maxBlocks ≤ 2 ^ 64) :
    ((startHeight + UInt64.ofInt maxBlocks - 1).toNat : Int) =
      startHeight.toNat + maxBlocks - 1 := by
  have hlt := startHeight.toNat_lt
  have hcast : (UInt64.ofInt maxBlocks).toNat = (maxBlocks % 2 ^ 64).toNat % 2 ^ 64 :=
    UInt64.toNat_ofNat
  rw [UInt64.toNat_sub, UInt64.toNat_add, hcast]
  show (((2 ^ 64 - 1 + _) % 2 ^ 64 : Nat) : Int) = _
  omega

/-- With a block stored at the start of the range, the range is not empty. -/
theorem sure_readBlocks {store : RedisOptimizedBlockStore β} {startHeight : UInt64}
    {maxBlocks : Int} (hstart : 1 ≤ startHeight.toNat) (hmax : 1 ≤ maxBlocks)
    (hroom : startHeight.toNat + maxBlocks ≤ 2 ^ 64) {r : BlockDocument β} (hr : store.Stored r)
    (hheight : r.height = startHeight) :
    Sure store.wrappedStore.rows
      (store.readBlocks startHeight (startHeight + UInt64.ofInt maxBlocks - 1)) := by
  have hend := toNat_endHeight hmax hroom
  generalize startHeight + UInt64.ofInt maxBlocks - 1 = endHeight at hend ⊢
  have hle : startHeight.toNat ≤ endHeight.toNat := by omega
  rw [readBlocks_eq (numBlocks_fits hstart _) hle]
  by_cases hnil : store.redisStore.getBlocks startHeight endHeight = []
  · -- the block at the start is not cached, so it is a row
    right
    have hzero : ¬ UInt64.ofNat ([] : List (BlockDocument β)).length =
        endHeight - startHeight + 1 := by
      intro heq
      apply numBlocks_pos (numBlocks_fits hstart _) hle
      rw [← heq]
      exact UInt64.le_refl _
    simp only [hnil, if_neg hzero]
    cases hr with
    | inl hcached =>
      have hmem : r ∈ store.redisStore.getBlocks startHeight endHeight := by
        rw [RedisBlockStore.mem_getBlocks, hheight]
        exact ⟨hcached, hle, Nat.le_refl _, score_mono hle⟩
      rw [hnil] at hmem
      cases hmem
    | inr hrow => exact ⟨r, hrow, by rw [hheight], by rw [hheight]; exact hle⟩
  · left
    split
    · exact hnil
    · split
      · next h => exact absurd h hnil
      · next h => exact List.cons_ne_nil _ _

end Reads

/-! ## Heights without a gap -/

/-- Between two of these heights there is none missing. -/
def Contiguous (put : UInt64 → Prop) : Prop :=
  ∀ a b height, put a → put b → a.toNat ≤ height.toNat → height.toNat ≤ b.toNat → put height

theorem Contiguous.congr {put put' : UInt64 → Prop} (h : Contiguous put)
    (hiff : ∀ x, put x ↔ put' x) : Contiguous put' := by
  intro a b height ha hb hlo hhi
  exact (hiff height).1 (h a b height ((hiff a).2 ha) ((hiff b).2 hb) hlo hhi)

/-- The first height, or one between these heights, or one above the largest. -/
def Follows (heights : UInt64 → Prop) (height : UInt64) : Prop :=
  (∀ x, ¬ heights x) ∨
    ∃ a b, heights a ∧ heights b ∧ a.toNat ≤ height.toNat ∧ height.toNat ≤ b.toNat + 1

instance (heights : List UInt64) (height : UInt64) : Decidable (Follows (· ∈ heights) height) :=
  decidable_of_iff (heights = [] ∨ ∃ a ∈ heights, ∃ b ∈ heights,
    a.toNat ≤ height.toNat ∧ height.toNat ≤ b.toNat + 1) (by
      rw [List.eq_nil_iff_forall_not_mem]
      simp only [Follows, exists_and_left])

theorem Follows.congr {put put' : UInt64 → Prop} {height : UInt64} (h : Follows put height)
    (hiff : ∀ x, put x ↔ put' x) : Follows put' height := by
  cases h with
  | inl hnone => exact .inl fun x hx => hnone x ((hiff x).2 hx)
  | inr hsome =>
    obtain ⟨a, b, ha, hb, hle⟩ := hsome
    exact .inr ⟨a, b, (hiff a).1 ha, (hiff b).1 hb, hle⟩

theorem Contiguous.insert {put : UInt64 → Prop} (h : Contiguous put) {height : UInt64}
    (hfollows : Follows put height) : Contiguous (fun x => put x ∨ x = height) := by
  intro a b n ha hb hlo hhi
  by_cases hn : n = height
  · exact .inr hn
  left
  have hne : n.toNat ≠ height.toNat := fun hnat => hn (UInt64.toNat_inj.1 hnat)
  -- an end of the range on the far side of the new height is an old one
  have hold : ∀ x, (put x ∨ x = height) → x.toNat ≠ height.toNat → put x := by
    intro x hx hxne
    exact hx.resolve_right fun heq => hxne (heq ▸ rfl)
  cases hfollows with
  | inl hnone =>
    have ha' := ha.resolve_left (hnone a)
    have hb' := hb.resolve_left (hnone b)
    subst ha' hb'
    omega
  | inr hsome =>
    obtain ⟨lo, hi, hputLo, hputHi, hle, hge⟩ := hsome
    by_cases hlt : n.toNat < height.toNat
    · exact h a hi n (hold a ha (by omega)) hputHi hlo (by omega)
    · exact h lo b n hputLo (hold b hb (by omega)) (by omega) hhi

/-- A height that is there already, the first one, or one above the largest. -/
def NextHeight (heights : List UInt64) (height : UInt64) : Prop :=
  height ∈ heights ∨ heights = [] ∧ 0 < height ∨
    ∃ largest ∈ heights, (∀ h ∈ heights, h ≤ largest) ∧ height.toNat = largest.toNat + 1

theorem follows_of_nextHeight {heights : List UInt64} {height : UInt64}
    (h : NextHeight heights height) : Follows (· ∈ heights) height := by
  cases h with
  | inl hold => exact .inr ⟨height, height, hold, hold, Nat.le_refl _, Nat.le_succ _⟩
  | inr hnew =>
    cases hnew with
    | inl hfirst =>
      obtain ⟨rfl, -⟩ := hfirst
      exact .inl fun x hx => List.not_mem_nil hx
    | inr hnext =>
      obtain ⟨largest, hmem, -, heq⟩ := hnext
      exact .inr ⟨largest, largest, hmem, hmem, by omega, by omega⟩

/-- Heights that come one after the other. -/
def PutsNext : List UInt64 → List UInt64 → Prop
  | _, [] => True
  | heights, height :: more => NextHeight heights height ∧ PutsNext (height :: heights) more

instance (heights : List UInt64) (height : UInt64) : Decidable (NextHeight heights height) :=
  inferInstanceAs (Decidable (height ∈ heights ∨ heights = [] ∧ 0 < height ∨
    ∃ largest ∈ heights, (∀ h ∈ heights, h ≤ largest) ∧ height.toNat = largest.toNat + 1))

instance : ∀ heights more : List UInt64, Decidable (PutsNext heights more) := fun heights more =>
  match more with
  | [] => .isTrue trivial
  | height :: more =>
    have := instDecidablePutsNext (height :: heights) more
    inferInstanceAs (Decidable (NextHeight heights height ∧ PutsNext (height :: heights) more))

theorem contiguous_putsNext {heights more : List UInt64} (h : Contiguous (· ∈ heights))
    (hnext : PutsNext heights more) : Contiguous (fun x => x ∈ heights ∨ x ∈ more) := by
  induction more generalizing heights with
  | nil => simpa using h
  | cons height more ih =>
    obtain ⟨hheight, hmore⟩ := hnext
    have hcons : Contiguous (· ∈ height :: heights) := by
      refine (h.insert (follows_of_nextHeight hheight)).congr fun x => ?_
      rw [List.mem_cons]
      exact or_comm
    refine (ih hcons hmore).congr fun x => ?_
    simp only [List.mem_cons]
    exact or_assoc.trans or_left_comm

theorem pos_putsNext {heights more : List UInt64} (h : ∀ x ∈ heights, 1 ≤ x.toNat)
    (hnext : PutsNext heights more) : ∀ x ∈ more, 1 ≤ x.toNat := by
  induction more generalizing heights with
  | nil => intro x hx; cases hx
  | cons height more ih =>
    obtain ⟨hheight, hmore⟩ := hnext
    have hpos : 1 ≤ height.toNat := by
      cases hheight with
      | inl hold => exact h height hold
      | inr hnew =>
        cases hnew with
        | inl hfirst => exact UInt64.lt_iff_toNat_lt.1 hfirst.2
        | inr hnext =>
          obtain ⟨largest, -, -, heq⟩ := hnext
          omega
    intro x hx
    cases List.mem_cons.1 hx with
    | inl hx => exact hx ▸ hpos
    | inr hx =>
      apply ih ?_ hmore x hx
      intro y hy
      cases List.mem_cons.1 hy with
      | inl hy => exact hy ▸ hpos
      | inr hy => exact h y hy

/-! ## The jobs of a shard -/

section Shard

variable {κ ι T β : Type}

/-- A job that is not new is for a height at or above some stored one. -/
def Sent (put : UInt64 → Prop) (data : WebhookStreamMsgData ι) : Prop :=
  data.isNew = false → ∃ a, put a ∧ a.toNat ≤ data.blockHeight.toNat

/-- Something is stored; and the block of a job that is not new, and a later one. -/
def Ready (put : UInt64 → Prop) (data : WebhookStreamMsgData ι) : Prop :=
  (∃ h, put h) ∧
    (data.isNew = false → put data.blockHeight ∧ ∃ h, put h ∧ data.blockHeight.toNat < h.toNat)

/-- What the next call of a handler may rely on. -/
def CallReady (put : UInt64 → Prop) (rows : List (BlockDocument β)) (maxBlocks : Int) :
    RelayCall ι β → Prop
  | .webhooksFindOne => True
  | .getPendingMsg webhook | .readCache webhook =>
    1 ≤ webhook.maxBlocks ∧ webhook.maxBlocks ≤ maxBlocks
  | .readWrapped read => Sure rows read ∧ ∀ b ∈ dirtyBlocks read, put b.height
  | .post blocks => ∀ b ∈ blocks, put b.height
  | .xAckDel newMsg => ∀ data, newMsg = some data → (∃ h, put h) ∧ Sent put data
  | .panicked => False

/-- The invariant of a shard and its consumers, for the heights put so far and the rows of the
    wrapped store. -/
structure ShardInv [LinearOrder T] [JobText ι T] (put : UInt64 → Prop)
    (rows : List (BlockDocument β)) (maxBlocks : Int) (s : RelayState κ ι T β) : Prop where
  latest : ∀ latest, s.shard.latestBlockHeight = some latest → ∃ h, put h ∧ latest ≤ score h
  stream : ∀ e ∈ s.shard.webhookStream.entries, ∀ data, JobText.parse e.2 = some data →
    Ready put data
  pending : ∀ e ∈ s.shard.pendingSet.entries, ∀ data, JobText.parse e.2 = some data →
    Sent put data
  scored : Scored s.shard
  webhooks : ∀ id webhook, s.webhooks id = some webhook →
    1 ≤ webhook.maxBlocks ∧ webhook.maxBlocks ≤ maxBlocks
  calls : ∀ c, CallReady put rows maxBlocks (s.consumers c).call

theorem CallReady.mono {put put' : UInt64 → Prop} {rows rows' : List (BlockDocument β)}
    {maxBlocks : Int} {call : RelayCall ι β} (h : CallReady put rows maxBlocks call)
    (hput : ∀ x, put x → put' x) (hrows : rows ⊆ rows') :
    CallReady put' rows' maxBlocks call := by
  cases call with
  | readWrapped read => exact ⟨h.1.mono hrows, fun b hb => hput _ (h.2 b hb)⟩
  | post blocks => exact fun b hb => hput _ (h b hb)
  | xAckDel newMsg =>
    intro data hdata
    obtain ⟨⟨x, hx⟩, hsent⟩ := h data hdata
    refine ⟨⟨x, hput x hx⟩, fun hold => ?_⟩
    obtain ⟨a, ha, hle⟩ := hsent hold
    exact ⟨a, hput a ha, hle⟩
  | _ => exact h

variable [LinearOrder T] [JobText ι T]

theorem shardInv_init (put : UInt64 → Prop) (rows : List (BlockDocument β)) (maxBlocks : Int) :
    ShardInv put rows maxBlocks (.init : RelayState κ ι T β) where
  latest := by simp [RelayState.init, Shard.empty]
  stream := by simp [RelayState.init, Shard.empty, GroupStream.empty]
  pending := by simp [RelayState.init, Shard.empty]
  scored := scored_empty
  webhooks := by simp [RelayState.init]
  calls := fun _ => trivial

/-- More heights and more rows change nothing. -/
theorem ShardInv.mono {put put' : UInt64 → Prop} {rows rows' : List (BlockDocument β)}
    {maxBlocks : Int} {s : RelayState κ ι T β} (h : ShardInv put rows maxBlocks s)
    (hput : ∀ x, put x → put' x) (hrows : rows ⊆ rows') : ShardInv put' rows' maxBlocks s where
  latest := by
    intro latest hlatest
    obtain ⟨x, hx, hle⟩ := h.latest latest hlatest
    exact ⟨x, hput x hx, hle⟩
  stream := by
    intro e he data hdata
    obtain ⟨⟨x, hx⟩, hold⟩ := h.stream e he data hdata
    refine ⟨⟨x, hput x hx⟩, fun hnew => ?_⟩
    obtain ⟨hown, y, hy, hlt⟩ := hold hnew
    exact ⟨hput _ hown, y, hput y hy, hlt⟩
  pending := by
    intro e he data hdata hold
    obtain ⟨a, ha, hle⟩ := h.pending e he data hdata hold
    exact ⟨a, hput a ha, hle⟩
  scored := h.scored
  webhooks := h.webhooks
  calls := fun c => (h.calls c).mono hput hrows

/-- A job below a stored height is for a stored height itself. -/
theorem ready_of_sent {put : UInt64 → Prop} (hcont : Contiguous put)
    {data : WebhookStreamMsgData ι} (hsent : Sent put data) {h : UInt64} (hput : put h)
    (hlt : score data.blockHeight < score h) : Ready put data := by
  have hlt' := lt_of_score_lt hlt
  refine ⟨⟨h, hput⟩, fun hold => ?_⟩
  obtain ⟨a, ha, hle⟩ := hsent hold
  exact ⟨hcont a h data.blockHeight ha hput hle (Nat.le_of_lt hlt'), h, hput, hlt'⟩

variable [DecidableEq κ] [DecidableEq ι]

omit [DecidableEq κ] in
private theorem shardInv_activate {put : UInt64 → Prop} {rows : List (BlockDocument β)}
    {maxBlocks : Int} {s : RelayState κ ι T β} (h : ShardInv put rows maxBlocks s)
    (ids : List ι) : ShardInv put rows maxBlocks { s with shard := s.shard.activate ids } where
  latest := by
    rw [Shard.latestBlockHeight_activate]
    exact h.latest
  stream := by
    rw [Shard.webhookStream_activate]
    exact h.stream
  pending := by
    intro e he data hdata
    cases Shard.mem_pendingSet_activate he with
    | inl he => exact h.pending e he data hdata
    | inr hnew =>
      -- a job that an activation adds is new
      obtain ⟨id, -, -, rfl⟩ := hnew
      rw [JobText.parse_encode] at hdata
      cases hdata
      intro hold
      cases hold
  scored := scored_activate h.scored ids
  webhooks := h.webhooks
  calls := h.calls

omit [DecidableEq κ] [DecidableEq ι] in
/-- A flush at or below a stored height moves jobs that are ready. -/
private theorem shardInv_flush {put : UInt64 → Prop} (hcont : Contiguous put)
    {rows : List (BlockDocument β)} {maxBlocks : Int} {s : RelayState κ ι T β}
    (h : ShardInv put rows maxBlocks s) {height top : UInt64} (hput : put top)
    (hle : height ≤ top) :
    ShardInv put rows maxBlocks { s with shard := s.shard.flush height } := by
  have hscore : score height ≤ score top := score_mono (UInt64.le_iff_toNat_le.1 hle)
  refine ⟨?_, ?_, ?_, scored_flush h.scored height, h.webhooks, h.calls⟩
  · rw [Shard.flush_eq]
    intro latest hlatest
    cases hlatest
    exact ⟨top, hput, hscore⟩
  · rw [Shard.flush_eq]
    intro e he data hdata
    cases GroupStream.mem_entries_xaddAll he with
    | inl hold => exact h.stream e hold data hdata
    | inr hmoved =>
      obtain ⟨p, hp, heq⟩ := List.mem_map.1 hmoved
      obtain ⟨hmem, hlt⟩ := List.mem_filter.1 hp
      have hlt := of_decide_eq_true hlt
      -- a parked job that is moved is scored below the height of the flush
      rw [← heq] at hdata
      obtain ⟨data', hdata', hscored⟩ := h.scored p hmem
      have hsame : data' = data := Option.some.inj (hdata'.symm.trans hdata)
      rw [hsame] at hscored
      exact ready_of_sent hcont (h.pending p hmem data hdata) hput (by omega)
  · rw [Shard.flush_eq]
    exact fun e he => h.pending e (List.mem_of_mem_filter he)

omit [DecidableEq κ] in
/-- What `XAckDel` does to the jobs. -/
private theorem shardInv_xAckDel {put : UInt64 → Prop} (hcont : Contiguous put)
    {rows : List (BlockDocument β)} {maxBlocks : Int} {s : RelayState κ ι T β}
    (h : ShardInv put rows maxBlocks s) (msg : ParsedStreamMessage (WebhookStreamMsgData ι))
    {newMsg : Option (WebhookStreamMsgData ι)}
    (hcall : CallReady put rows maxBlocks (.xAckDel newMsg : RelayCall ι β)) :
    ShardInv put rows maxBlocks { s with shard := s.shard.xAckDel msg newMsg } := by
  refine ⟨?_, ?_, ?_, scored_xAckDel h.scored msg newMsg, h.webhooks, h.calls⟩
  · rw [Shard.latestBlockHeight_xAckDel]
    exact h.latest
  · intro e he data hdata
    cases newMsg with
    | none => exact h.stream e (List.mem_of_mem_filter he) data hdata
    | some new =>
      by_cases hb : s.shard.Behind new.blockHeight
      · rw [Shard.xAckDel_behind hb] at he
        cases List.mem_append.1 he with
        | inl hold => exact h.stream e (List.mem_of_mem_filter hold) data hdata
        | inr hnew =>
          -- the new job is below the latest height
          rw [List.mem_singleton.1 hnew, JobText.parse_marshal] at hdata
          cases hdata
          obtain ⟨latest, hlatest, hlt⟩ := hb
          obtain ⟨x, hx, hle⟩ := h.latest latest hlatest
          exact ready_of_sent hcont (hcall _ rfl).2 hx (by omega)
      · rw [Shard.xAckDel_parked hb] at he
        exact h.stream e (List.mem_of_mem_filter he) data hdata
  · intro e he data hdata
    cases Shard.mem_pendingSet_xAckDel he with
    | inl hold => exact h.pending e hold data hdata
    | inr hnew =>
      obtain ⟨new, rfl, -, rfl⟩ := hnew
      rw [JobText.parse_marshal] at hdata
      cases hdata
      exact (hcall _ rfl).2

/-- What the block store answers: reads that find something, and blocks that were put. -/
structure Answers (put : UInt64 → Prop) (rows : List (BlockDocument β))
    (action : ConsumerAction β) : Prop where
  readCache : ∀ answer, action = .readCache answer →
    Sure rows answer ∧ ∀ b ∈ dirtyBlocks answer, put b.height
  readWrapped : ∀ blocks, action = .readWrapped blocks →
    blocks ≠ [] ∧ ∀ b ∈ blocks, put b.height

/-- The next call of a handler may rely on what it needs. -/
private theorem callReady_next {put : UInt64 → Prop} {top : Nat} (htop : top + 1 < 2 ^ 64)
    (hbound : ∀ x, put x → x.toNat ≤ top) {rows : List (BlockDocument β)} {maxBlocks : Int}
    {webhooks : ι → Option Webhook}
    (hwebhooks : ∀ id webhook, webhooks id = some webhook →
      1 ≤ webhook.maxBlocks ∧ webhook.maxBlocks ≤ maxBlocks)
    {c : κ} {shard shard' : Shard κ ι T} {msg : ParsedStreamMessage (WebhookStreamMsgData ι)}
    {isBacklogMsg : Bool} {call next : RelayCall ι β} {action : ConsumerAction β}
    (hready : Ready put msg.data) (hcall : CallReady put rows maxBlocks call)
    (hanswers : Answers put rows action)
    (hstep : HandlerStep c webhooks shard msg isBacklogMsg call action shard' (some next)) :
    CallReady put rows maxBlocks next := by
  have hone : (1 : UInt64).toNat = 1 := rfl
  cases hstep with
  | noWebhook _ => exact fun data hdata => by cases hdata
  | backlogMsg webhook hw _ => exact hwebhooks _ webhook hw
  | newMsg webhook hw _ => exact hwebhooks _ webhook hw
  | exhausted webhook pendingMsg _ _ =>
    intro data hdata
    cases hdata
    refine ⟨hready.1, fun hold => ?_⟩
    -- a later block is stored, so the next height does not wrap around
    obtain ⟨hown, x, hx, hlt⟩ := hready.2 hold
    have hroom := hbound x hx
    refine ⟨msg.data.blockHeight, hown, ?_⟩
    rw [UInt64.toNat_add, hone]
    omega
  | retry webhook _ _ _ => exact hcall
  | readCache webhook answer => exact hanswers.readCache answer rfl
  -- this is the branch that panics
  | noBlocks _ => exact absurd rfl (hanswers.readWrapped [] rfl).1
  | blocks _ blocks _ => exact (hanswers.readWrapped blocks rfl).2
  | post blocks last hlast =>
    intro data hdata
    cases hdata
    have hput := hcall last (List.mem_of_getLast? hlast)
    -- the next job is for the height after the last block, which does not wrap around
    refine ⟨⟨last.height, hput⟩, fun _ => ⟨last.height, hput, ?_⟩⟩
    have hroom := hbound last.height hput
    show last.height.toNat ≤ (last.height + 1).toNat
    rw [UInt64.toNat_add, hone]
    omega

omit [DecidableEq ι] in
/-- A consumer that moves on changes its own call only. -/
private theorem ShardInv.update {put : UInt64 → Prop} {rows : List (BlockDocument β)}
    {maxBlocks : Int} {s : RelayState κ ι T β} {shard : Shard κ ι T}
    (h : ShardInv put rows maxBlocks { s with shard := shard }) (c : κ)
    (consumer : RelayConsumer ι β) (hcall : CallReady put rows maxBlocks consumer.call) :
    ShardInv put rows maxBlocks
      { s with shard := shard, consumers := Function.update s.consumers c consumer } := by
  refine ⟨h.latest, h.stream, h.pending, h.scored, h.webhooks, fun d => ?_⟩
  by_cases hd : d = c
  · subst hd
    simp only [Function.update_self]
    exact hcall
  · simp only [Function.update_of_ne hd]
    exact h.calls d

/-- The message of a handler is for a job that is ready. -/
theorem ready_of_handed {put : UInt64 → Prop} {rows : List (BlockDocument β)} {maxBlocks : Int}
    {s : RelayState κ ι T β} (h : ShardInv put rows maxBlocks s) (hcons : ConservationInv s)
    {c : κ} {msg : ParsedStreamMessage (WebhookStreamMsgData ι)}
    (hmsg : msg ∈ handed (s.consumers c).loop) : Ready put msg.data := by
  obtain ⟨-, job, hentry, hjob⟩ := hcons.handed c msg hmsg
  exact h.stream _ hentry _ hjob

/-- Every action of a shard keeps the invariant. -/
theorem shardInv_step {put : UInt64 → Prop} (hcont : Contiguous put) {top : Nat}
    (htop : top + 1 < 2 ^ 64) (hbound : ∀ x, put x → x.toNat ≤ top)
    {rows : List (BlockDocument β)} {maxBlocks : Int} {s s' : RelayState κ ι T β}
    {a : RelayAction κ ι β} (hstep : s.step a = some s') (hcons : ConservationInv s)
    (hflush : ∀ height, a = .flush height → ∃ x, put x ∧ height ≤ x)
    (hwebhook : ∀ id webhook, a = .setWebhook id (some webhook) →
      1 ≤ webhook.maxBlocks ∧ webhook.maxBlocks ≤ maxBlocks)
    (hanswers : ∀ c action, a = .consumer c action → Answers put rows action)
    (h : ShardInv put rows maxBlocks s) : ShardInv put rows maxBlocks s' := by
  cases a with
  | activate ids =>
    cases hstep
    exact shardInv_activate h ids
  | flush height =>
    cases hstep
    obtain ⟨x, hx, hle⟩ := hflush height rfl
    exact shardInv_flush hcont h hx hle
  | setWebhook id webhook =>
    cases hstep
    refine ⟨h.latest, h.stream, h.pending, h.scored, fun id' webhook' hid => ?_, h.calls⟩
    by_cases heq : id' = id
    · subst heq
      simp only [Function.update_self] at hid
      exact hwebhook id' webhook' (by rw [hid])
    · simp only [Function.update_of_ne heq] at hid
      exact h.webhooks id' webhook' hid
  | consumer c action =>
    obtain ⟨shard, consumer, hmove, rfl⟩ := consumerStep_of_relayStep hstep
    have hcall := h.calls c
    have hready : ∀ msg ∈ handed (s.consumers c).loop, Ready put msg.data :=
      fun msg hmsg => ready_of_handed h hcons hmsg
    generalize s.consumers c = old at hmove hcall hready
    cases hmove with
    | crash => exact h.update c _ trivial
    | readBacklog cursorId call loop stream hread =>
      obtain ⟨rfl, -⟩ := readBacklog_cases hread
      have hsame : ShardInv put rows maxBlocks { s with shard :=
          { s.shard with webhookStream :=
            (s.shard.webhookStream.xreadgroupFrom c cursorId 1).2 } } :=
        ⟨h.latest, h.stream, h.pending, h.scored, h.webhooks, h.calls⟩
      exact hsame.update c _ trivial
    | readNew call loop stream hread =>
      obtain ⟨rfl, -, -⟩ := readNew_cases hread
      have hsame : ShardInv put rows maxBlocks { s with shard :=
          { s.shard with webhookStream := (s.shard.webhookStream.xreadgroupNew c 1).2 } } :=
        ⟨h.latest, h.stream, h.pending, h.scored, h.webhooks, h.calls⟩
      exact hsame.update c _ trivial
    | call msg msgs isBacklogMsg call call' _ _ hcallStep =>
      have hshard : shard = s.shard := by
        cases hcallStep <;> rfl
      subst hshard
      apply h.update c
      exact callReady_next htop hbound h.webhooks (hready msg List.mem_cons_self) hcall
        (hanswers c action rfl) hcallStep
    | handled msg msgs isBacklogMsg call _ _ hcallStep =>
      cases handlerStep_shard hcallStep with
      | inl hshard =>
        subst hshard
        exact h.update c _ trivial
      | inr hack =>
        obtain ⟨newMsg, rfl, rfl⟩ := hack
        exact (shardInv_xAckDel hcont h msg hcall).update c _ trivial

end Shard

/-! ## The whole feed -/

section Feed

variable {δ κ ι T β : Type} [DecidableEq δ] [DecidableEq κ] [DecidableEq ι] [LinearOrder T]
  [JobText ι T] [LinearOrder (BlockDocument β)]

/-- The heights of everything stored. -/
def storedHeights (store : RedisOptimizedBlockStore β) : List UInt64 :=
  (store.redisStore.blocks ++ store.wrappedStore.rows).map BlockDocument.height

/-- The heights that an action puts. -/
def putHeights (batchSize : Nat) (webhookStreams : List δ) (s : Feed δ κ ι T β)
    (action : FeedAction δ κ ι β) : List UInt64 :=
  (written (s.storeAction batchSize webhookStreams action).toList).map BlockDocument.height

/-- A webhook asks for at least one block and at most this many. -/
def WebhookFits (maxBlocks : Int) : FeedAction δ κ ι β → Prop
  | .shard _ (.setWebhook _ (some webhook)) =>
    1 ≤ webhook.maxBlocks ∧ webhook.maxBlocks ≤ maxBlocks
  | _ => True

/-- The actions without surprises: heights come one after the other and leave room for the
    relay's arithmetic, and so do the webhooks. -/
structure Orderly (top : Nat) (maxBlocks : Int) (batchSize : Nat) (webhookStreams : List δ)
    (s : Feed δ κ ι T β) (action : FeedAction δ κ ι β) : Prop where
  next : PutsNext (storedHeights s.stores.store) (putHeights batchSize webhookStreams s action)
  room : ∀ h ∈ putHeights batchSize webhookStreams s action, h.toNat ≤ top
  fits : WebhookFits maxBlocks action

instance (maxBlocks : Int) (action : FeedAction δ κ ι β) :
    Decidable (WebhookFits maxBlocks action) :=
  match action with
  | .shard _ (.setWebhook _ (some webhook)) =>
    inferInstanceAs (Decidable (1 ≤ webhook.maxBlocks ∧ webhook.maxBlocks ≤ maxBlocks))
  | .shard _ (.setWebhook _ none) | .shard _ (.activate _) | .shard _ (.flush _)
  | .shard _ (.consumer _ _) | .router _ | .forwarderReadCache | .forwarderReadWrapped _
  | .forward _ | .forwarderCrash | .xAdd _ | .flusher _ | .consumerReadCache _ _
  | .consumerReadWrapped _ _ => .isTrue trivial

instance (top : Nat) (maxBlocks : Int) (batchSize : Nat) (webhookStreams : List δ)
    (s : Feed δ κ ι T β) (action : FeedAction δ κ ι β) :
    Decidable (Orderly top maxBlocks batchSize webhookStreams s action) :=
  decidable_of_iff
    (PutsNext (storedHeights s.stores.store) (putHeights batchSize webhookStreams s action) ∧
      (∀ h ∈ putHeights batchSize webhookStreams s action, h.toNat ≤ top) ∧
        WebhookFits maxBlocks action)
    ⟨fun h => ⟨h.1, h.2.1, h.2.2⟩, fun h => ⟨h.1, h.2, h.3⟩⟩

omit [DecidableEq δ] [DecidableEq κ] [DecidableEq ι] [LinearOrder T] [JobText ι T] in
theorem mem_storedHeights {store : RedisOptimizedBlockStore β} {height : UInt64} :
    height ∈ storedHeights store ↔ ∃ r, store.Stored r ∧ r.height = height := by
  simp [storedHeights, RedisOptimizedBlockStore.Stored, or_and_right, exists_or]

omit [DecidableEq δ] in
/-- What a consumer is answered finds something. -/
theorem answers_of_answered {put : UInt64 → Prop} {top : Nat} {maxBlocks : Int}
    (hroom : top + maxBlocks ≤ 2 ^ 64 + 1) (hbound : ∀ x, put x → 1 ≤ x.toNat ∧ x.toNat ≤ top)
    {s : Feed δ κ ι T β} {d : δ}
    (hstored : ∀ x, put x ↔ ∃ r, s.stores.store.Stored r ∧ r.height = x)
    (hshard : ShardInv put s.stores.store.wrappedStore.rows maxBlocks (s.shards d))
    (hcons : ConservationInv (s.shards d)) {c : κ} {action : ConsumerAction β}
    (hanswered : Answered s d (.consumer c action)) :
    Answers put s.stores.store.wrappedStore.rows action where
  readCache := by
    intro answer heq
    subst heq
    obtain ⟨msg, msgs, isBacklogMsg, webhook, hc, rfl⟩ := hanswered
    have hwebhook := hshard.calls c
    have hready : Ready put msg.data :=
      ready_of_handed hshard hcons (c := c) (by rw [hc]; exact List.mem_cons_self)
    rw [hc] at hwebhook
    obtain ⟨hmin, hmax⟩ := hwebhook
    unfold relayRead
    split
    · -- a new job reads the latest blocks, so any stored block will do
      obtain ⟨x, hx⟩ := hready.1
      obtain ⟨r, hr, -⟩ := (hstored x).1 hx
      refine ⟨sure_readLatestBlocks (by omega) hr, fun b hb => ?_⟩
      exact (hstored _).2 ⟨b, .inl (dirtyBlocks_readLatestBlocks hb), rfl⟩
    · next hold =>
      obtain ⟨hown, x, hx, hlt⟩ := hready.2 (Bool.not_eq_true _ ▸ hold)
      obtain ⟨r, hr, hheight⟩ := (hstored _).1 hown
      have hxtop := (hbound x hx).2
      refine ⟨sure_readBlocks (hbound _ hown).1 hmin (by omega) hr hheight, fun b hb => ?_⟩
      exact (hstored _).2 ⟨b, .inl (dirtyBlocks_readBlocks hb), rfl⟩
  readWrapped := by
    intro blocks heq
    subst heq
    obtain ⟨loop, read, hc, rfl⟩ := hanswered
    have hread := hshard.calls c
    rw [hc] at hread
    obtain ⟨hsure, hdirty⟩ := hread
    refine ⟨hsure.finish_ne_nil, fun b hb => ?_⟩
    cases mem_finish hb with
    | inl hb => exact hdirty b hb
    | inr hb => exact (hstored _).2 ⟨b, .inr hb, rfl⟩

/-- The invariant of the feed. -/
structure RelayInv (top : Nat) (maxBlocks : Int) (webhookStreams : List δ) (s : Feed δ κ ι T β)
    (log : List (Event δ β)) : Prop where
  router : RouterInv webhookStreams s.blockStream s.router log
  stores : StoresReached s log
  contiguous : Contiguous (PutAt log)
  bounded : ∀ x, PutAt log x → 1 ≤ x.toNat ∧ x.toNat ≤ top
  conservation : ∀ d, ConservationInv (s.shards d)
  shards : ∀ d, ShardInv (PutAt log) s.stores.store.wrappedStore.rows maxBlocks (s.shards d)

omit [DecidableEq δ] in
theorem relayInv_init (top : Nat) (maxBlocks : Int) (webhookStreams : List δ) :
    RelayInv top maxBlocks webhookStreams (.init : Feed δ κ ι T β) [] where
  router := routerInv_init webhookStreams
  stores := storesReached_init
  contiguous := by
    intro a b n ha
    obtain ⟨x, hx, -⟩ := ha
    cases hx
  bounded := by
    intro x hx
    obtain ⟨b, hb, -⟩ := hx
    cases hb
  conservation := fun _ => conservationInv_init
  shards := fun _ => shardInv_init _ _ _

omit [DecidableEq δ] [DecidableEq κ] [DecidableEq ι] [JobText ι T] in
/-- A height is stored just when it was put. -/
theorem putAt_iff {s : Feed δ κ ι T β} {log : List (Event δ β)}
    (h : StoresReached s log) (x : UInt64) :
    PutAt log x ↔ ∃ r, s.stores.store.Stored r ∧ r.height = x := by
  have hinv := h.flushInv
  constructor
  · intro hput
    obtain ⟨b, hb, rfl⟩ := hput
    exact hinv.kept b hb
  · intro hstored
    obtain ⟨r, hr, rfl⟩ := hstored
    exact ⟨r, hinv.genuine r hr, rfl⟩

/-- What an action adds to the heights that were put. -/
theorem putAt_events {batchSize : Nat} {webhookStreams : List δ} {s s' : Feed δ κ ι T β}
    {action : FeedAction δ κ ι β} (h : FeedStep batchSize webhookStreams s action s')
    (log : List (Event δ β)) (x : UInt64) :
    PutAt (log ++ events batchSize webhookStreams s action) x ↔
      PutAt log x ∨ x ∈ putHeights batchSize webhookStreams s action := by
  simp only [PutAt, blocksPut_append, blocksPut_events h, putHeights, List.mem_append,
    List.mem_map, or_and_right, exists_or]

/-- The wrapped store loses no row by an action of the feed. -/
theorem rows_subset_feedStep {batchSize : Nat} {webhookStreams : List δ} {s s' : Feed δ κ ι T β}
    {action : FeedAction δ κ ι β} (h : FeedStep batchSize webhookStreams s action s') :
    s.stores.store.wrappedStore.rows ⊆ s'.stores.store.wrappedStore.rows := by
  have hstores := stores_step h
  cases hstore : s.storeAction batchSize webhookStreams action with
  | none =>
    rw [hstore] at hstores
    rw [hstores]
    exact List.Subset.refl _
  | some a =>
    rw [hstore] at hstores
    have hrun : run StoreState.step s.stores [a] = some s'.stores :=
      run_cons.2 ⟨_, hstores, rfl⟩
    exact rows_subset_run hrun

/-- An action of the feed keeps the jobs of every shard. -/
theorem conservationInv_feedStep {batchSize : Nat} {webhookStreams : List δ}
    {s s' : Feed δ κ ι T β} {action : FeedAction δ κ ι β}
    (hfeed : FeedStep batchSize webhookStreams s action s') {d : δ}
    (h : ConservationInv (s.shards d)) : ConservationInv (s'.shards d) := by
  cases shardView_of_feedStep hfeed d with
  | same heffect haction hshard =>
    rw [hshard]
    exact h
  | flush height heffect haction hshard =>
    rw [hshard]
    exact conservationInv_step (a := .flush height) rfl h
  | relay a hanswered haction heffect hstores hstep => exact conservationInv_step hstep h

/-- An action keeps the invariant if the heights put so far have no gap after it. -/
theorem RelayInv.step {top : Nat} {maxBlocks : Int} (htop : top + 1 < 2 ^ 64)
    (hroom : top + maxBlocks ≤ 2 ^ 64 + 1) {batchSize : Nat} (hbatch : 0 < batchSize)
    {webhookStreams : List δ} {s s' : Feed δ κ ι T β} {log : List (Event δ β)}
    {action : FeedAction δ κ ι β} (hfeed : FeedStep batchSize webhookStreams s action s')
    (hfits : WebhookFits maxBlocks action)
    (hcont : Contiguous (PutAt (log ++ events batchSize webhookStreams s action)))
    (hbound : ∀ x, PutAt (log ++ events batchSize webhookStreams s action) x →
      1 ≤ x.toNat ∧ x.toNat ≤ top)
    (h : RelayInv top maxBlocks webhookStreams s log) :
    RelayInv top maxBlocks webhookStreams s'
      (log ++ events batchSize webhookStreams s action) := by
  have hrouter := h.router.feedStep hbatch hfeed
  have hstores := h.stores.step hfeed
  have hput : ∀ x, PutAt log x → PutAt (log ++ events batchSize webhookStreams s action) x :=
    fun x hx => hx.append _
  refine ⟨hrouter, hstores, hcont, hbound,
    fun d => conservationInv_feedStep hfeed (h.conservation d), fun d => ?_⟩
  have hshard := (h.shards d).mono hput (rows_subset_feedStep hfeed)
  have htopBound : ∀ x, PutAt (log ++ events batchSize webhookStreams s action) x →
      x.toNat ≤ top := fun x hx => (hbound x hx).2
  cases shardView_of_feedStep hfeed d with
  | same heffect haction hsame =>
    rw [hsame]
    exact hshard
  | flush height heffect haction hsame =>
    rw [hsame]
    -- the router flushes at most up to what it has put
    have hmem : Event.executed (.flush d height) ∈
        log ++ events batchSize webhookStreams s action :=
      List.mem_append_right _ (mem_events_executed.2 heffect)
    obtain ⟨b, hb, hle⟩ := hrouter.flushed d height hmem
    exact shardInv_flush hcont hshard ⟨b, hb, rfl⟩ hle
  | relay a hanswered haction heffect hsame hstep =>
    have hstored := putAt_iff hstores
    rw [hsame] at hstored hshard ⊢
    apply shardInv_step hcont htop htopBound hstep (h.conservation d) ?_ ?_ ?_ hshard
    · intro height heq
      subst heq
      exact hanswered.elim
    · intro id webhook heq
      subst heq
      rw [Feed.eq_of_shardAction haction nofun] at hfits
      exact hfits
    · intro c b heq
      subst heq
      exact answers_of_answered hroom hbound hstored hshard (h.conservation d) hanswered

/-- Every orderly action keeps the invariant. -/
theorem relayInv_step {top : Nat} {maxBlocks : Int} (htop : top + 1 < 2 ^ 64)
    (hroom : top + maxBlocks ≤ 2 ^ 64 + 1) {batchSize : Nat} (hbatch : 0 < batchSize)
    {webhookStreams : List δ} {s s' : Feed δ κ ι T β} {log : List (Event δ β)}
    {action : FeedAction δ κ ι β} (hfeed : FeedStep batchSize webhookStreams s action s')
    (horderly : Orderly top maxBlocks batchSize webhookStreams s action)
    (h : RelayInv top maxBlocks webhookStreams s log) :
    RelayInv top maxBlocks webhookStreams s'
      (log ++ events batchSize webhookStreams s action) := by
  have hadds := putAt_events hfeed log
  have hheights : ∀ x, x ∈ storedHeights s.stores.store ↔ PutAt log x := fun x =>
    mem_storedHeights.trans (putAt_iff h.stores x).symm
  apply h.step htop hroom hbatch hfeed horderly.fits
  · have hold : Contiguous (· ∈ storedHeights s.stores.store) :=
      h.contiguous.congr fun x => (hheights x).symm
    refine (contiguous_putsNext hold horderly.next).congr fun x => ?_
    rw [hheights, hadds]
  · intro x hx
    cases (hadds x).1 hx with
    | inl hold => exact h.bounded x hold
    | inr hnew =>
      have hpos : ∀ y ∈ storedHeights s.stores.store, 1 ≤ y.toNat := fun y hy =>
        (h.bounded y ((hheights y).1 hy)).1
      exact ⟨pos_putsNext hpos horderly.next x hnew, horderly.room x hnew⟩

/-- As long as heights come one after the other and leave room for the relay's arithmetic, every
    read of the block store that a consumer completes finds a block, and no consumer panics. -/
theorem relay_neverPanics {top : Nat} {maxBlocks : Int} (htop : top + 1 < 2 ^ 64)
    (hroom : top + maxBlocks ≤ 2 ^ 64 + 1) {batchSize : Nat} (hbatch : 0 < batchSize)
    {webhookStreams : List δ} {as : List (FeedAction δ κ ι β)} {s : Feed δ κ ι T β}
    (h : run (Feed.step batchSize webhookStreams) .init as = some s)
    (horderly : Meets (Feed.step batchSize webhookStreams)
      (Orderly top maxBlocks batchSize webhookStreams) (.init : Feed δ κ ι T β) as) :
    ∀ d c, ((s.shards d).consumers c).call ≠ .panicked ∧
      ∀ read, ((s.shards d).consumers c).call = .readWrapped read →
        read.finish s.stores.store.wrappedStore ≠ [] := by
  have hinv : ∃ log, RelayInv top maxBlocks webhookStreams s log := by
    apply run_invariant_of_meets
      (P := fun s => ∃ log, RelayInv top maxBlocks webhookStreams s log) ?_ h horderly
      ⟨[], relayInv_init top maxBlocks webhookStreams⟩
    intro s action s' hstep horderly hlog
    obtain ⟨log, hinv⟩ := hlog
    exact ⟨_, relayInv_step htop hroom hbatch (feedStep_of_step hstep) horderly hinv⟩
  obtain ⟨log, hinv⟩ := hinv
  intro d c
  have hcall := (hinv.shards d).calls c
  constructor
  · intro hpanicked
    rw [hpanicked] at hcall
    exact hcall
  · intro read hread
    rw [hread] at hcall
    exact hcall.1.finish_ne_nil

end Feed

/-- A webhook is served its first blocks from the wrapped store. The next ones are moved there
    between the two reads of its consumer. -/
def flushedWhileRead : List (FeedAction Nat Unit Nat Nat) :=
  [.shard 0 (.setWebhook 7 (some ⟨3, 3⟩)), .shard 0 (.activate [7]), .forwarderReadCache,
    .forwarderReadWrapped 5, .forward 50, .forward 60, .router .readBacklog, .router .readNew,
    .router (.putBlocks .ok), .router (.flush 0 .ok), .router (.xAckDel .ok),
    .shard 0 (.consumer () .readBacklog), .shard 0 (.consumer () .readNew),
    .shard 0 (.consumer () .webhooksFindOne), .flusher (.flushRead () 2),
    .flusher (.flushInsert ()), .flusher (.flushDelete ()), .consumerReadCache 0 (),
    .consumerReadWrapped 0 (), .shard 0 (.consumer () .post), .shard 0 (.consumer () .xAckDel),
    .forward 70, .forward 80, .router .readBacklog, .router .readNew, .router (.putBlocks .ok),
    .router (.flush 0 .ok), .shard 0 (.consumer () .readBacklog), .shard 0 (.consumer () .readNew),
    .shard 0 (.consumer () .webhooksFindOne), .flusher (.flushRead () 2), .consumerReadCache 0 (),
    .flusher (.flushInsert ()), .flusher (.flushDelete ())]

theorem relay_neverPanics_flushedWhileRead :
    ∃ s : Feed Nat Unit Nat TupleText Nat,
      run (Feed.step 2 [0]) .init flushedWhileRead = some s ∧
        ∀ d c, ((s.shards d).consumers c).call ≠ .panicked ∧
          ∀ read, ((s.shards d).consumers c).call = .readWrapped read →
            read.finish s.stores.store.wrappedStore ≠ [] :=
  ⟨_, rfl, relay_neverPanics (show 8 + 1 < 2 ^ 64 by decide)
    (show ((8 : Nat) : Int) + 3 ≤ 2 ^ 64 + 1 by decide) (show 0 < 2 by decide)
    (show run (Feed.step 2 [0]) .init flushedWhileRead = some _ from rfl) (by decide)⟩

/-- The only block is at the greatest height there is, so the next height to send is 0. -/
def lastHeight : List (FeedAction Nat Unit Nat Nat) :=
  [.shard 0 (.setWebhook 7 (some ⟨1, 3⟩)), .shard 0 (.activate [7]), .forwarderReadCache,
    .forwarderReadWrapped 18446744073709551615, .forward 50, .router .readBacklog,
    .router .readNew, .router (.putBlocks .ok), .router (.flush 0 .ok), .router (.xAckDel .ok),
    .shard 0 (.consumer () .readBacklog), .shard 0 (.consumer () .readNew),
    .shard 0 (.consumer () .webhooksFindOne), .consumerReadCache 0 (), .consumerReadWrapped 0 (),
    .shard 0 (.consumer () .post), .shard 0 (.consumer () .xAckDel),
    .shard 0 (.consumer () .readBacklog), .shard 0 (.consumer () .readNew),
    .shard 0 (.consumer () .webhooksFindOne), .consumerReadCache 0 (), .consumerReadWrapped 0 ()]

/-- The heights come one after the other, the webhook asks for one block, and the relay panics. -/
theorem relay_panics :
    Meets (Feed.step 1 [0])
      (fun s action => PutsNext (storedHeights s.stores.store) (putHeights 1 [0] s action))
      (.init : Feed Nat Unit Nat TupleText Nat) lastHeight ∧
    ∃ s : Feed Nat Unit Nat TupleText Nat,
      run (Feed.step 1 [0]) .init lastHeight = some s ∧
        ((s.shards 0).consumers ()).call = .panicked :=
  ⟨by decide, _, rfl, rfl⟩

end BlockFeed.Spec
