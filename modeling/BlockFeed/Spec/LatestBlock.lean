import BlockFeed.Spec.CachedStoreCorrect
import BlockFeed.Spec.FeedHistory

/-!
# The latest block

`GetLatestBlock` asks the wrapped store only when the cache is empty. That is right while the
cache, if it holds anything, holds a block at least as high as every row: `Covers`. Two calls can
break it: a write of old blocks into an empty cache, and a deletion that takes the highest cached
block away and leaves a lower one.

`always_latestCorrect_iff` says that these are the only ways. A forwarder that restarts while the
router lags behind causes the first one: `repostedAfterFlush`.
-/

namespace BlockFeed.Spec

open BlockFeed.Native Transition

section Stores

variable {β : Type} [LinearOrder (BlockDocument β)]

/-- `GetLatestBlock` returns a block of the greatest stored height, or nothing is stored. -/
def LatestCorrect (store : RedisOptimizedBlockStore β) : Prop :=
  match store.getLatestBlock with
  | some block => store.Stored block ∧ ∀ b, store.Stored b → b.height ≤ block.height
  | none => ∀ b, ¬ store.Stored b

/-- The cache is empty or as high as the wrapped store. -/
def Covers (store : RedisOptimizedBlockStore β) : Prop :=
  store.redisStore.blocks = [] ∨
    ∀ r ∈ store.wrappedStore.rows, ∃ b ∈ store.redisStore.blocks, r.height ≤ b.height

/-- The calls that keep the latest block right: no write below the wrapped store into an empty
    cache, and no deletion of the highest cached block that leaves a lower one. -/
def KeepsCover (s : StoreState Unit β) : StoreAction Unit β → Prop
  | .putBlocks blocks =>
    s.store.redisStore.blocks = [] → blocks = [] ∨
      ∀ r ∈ s.store.wrappedStore.rows, ∃ b ∈ blocks, r.height ≤ b.height
  | .flushDelete _ =>
    (s.store.redisStore.deleteBlocks (s.held ())).blocks = [] ∨
      ∀ c ∈ s.store.redisStore.blocks,
        ∃ b ∈ (s.store.redisStore.deleteBlocks (s.held ())).blocks, c.height ≤ b.height
  | _ => True

instance [DecidableEq β] (s : StoreState Unit β) (a : StoreAction Unit β) :
    Decidable (KeepsCover s a) :=
  match a with
  | .putBlocks blocks =>
    inferInstanceAs (Decidable (s.store.redisStore.blocks = [] → blocks = [] ∨
      ∀ r ∈ s.store.wrappedStore.rows, ∃ b ∈ blocks, r.height ≤ b.height))
  | .flushDelete _ =>
    inferInstanceAs (Decidable ((s.store.redisStore.deleteBlocks (s.held ())).blocks = [] ∨
      ∀ c ∈ s.store.redisStore.blocks,
        ∃ b ∈ (s.store.redisStore.deleteBlocks (s.held ())).blocks, c.height ≤ b.height))
  | .flushRead _ _ | .flushInsert _ | .flushCrash _ => .isTrue trivial

/-- Where heights are exact, the fast path is right just when the cache covers the rows. -/
theorem latestCorrect_iff {heights : List UInt64} (hexact : Exact heights)
    {store : RedisOptimizedBlockStore β} (hheights : ∀ b, store.Stored b → b.height ∈ heights) :
    LatestCorrect store ↔ Covers store := by
  unfold LatestCorrect RedisOptimizedBlockStore.getLatestBlock
  cases hcache : store.redisStore.getLatestBlock with
  | some block =>
    -- the block with the greatest score has the greatest height of the cache
    obtain ⟨hblock, hscore⟩ := RedisBlockStore.getLatestBlock_eq_some hcache
    have hmax : ∀ c ∈ store.redisStore.blocks, c.height ≤ block.height := by
      intro c hc
      rw [UInt64.le_iff_toNat_le]
      exact (hexact.le_iff (hheights c (.inl hc)) (hheights block (.inl hblock))).1 (hscore c hc)
    constructor
    · intro hlatest
      exact .inr fun r hr => ⟨block, hblock, hlatest.2 r (.inr hr)⟩
    · intro hcovers
      refine ⟨.inl hblock, fun b hb => ?_⟩
      cases hb with
      | inl hb => exact hmax b hb
      | inr hb =>
        have hne : store.redisStore.blocks ≠ [] := List.ne_nil_of_mem hblock
        obtain ⟨c, hc, hle⟩ := hcovers.resolve_left hne b hb
        exact UInt64.le_trans hle (hmax c hc)
  | none =>
    -- the wrapped store is asked, and it has all blocks
    have hnil := RedisBlockStore.getLatestBlock_eq_none.1 hcache
    refine iff_of_true ?_ (.inl hnil)
    cases hrows : store.wrappedStore.getLatestBlock with
    | some block =>
      obtain ⟨hblock, hmax⟩ := TimescaleBlockStore.getLatestBlock_eq_some hrows
      refine ⟨.inr hblock, fun b hb => ?_⟩
      cases hb with
      | inl hb =>
        rw [hnil] at hb
        cases hb
      | inr hb => exact UInt64.le_iff_toNat_le.2 (hmax b hb)
    | none =>
      intro b hb
      rw [RedisOptimizedBlockStore.Stored, hnil,
        TimescaleBlockStore.getLatestBlock_eq_none.1 hrows] at hb
      cases hb with
      | inl hb => cases hb
      | inr hb => cases hb

/-- What a single flusher carries is in the cache. -/
theorem held_cached {as : List (StoreAction Unit β)} {s : StoreState Unit β}
    (h : run StoreState.step .init as = some s) :
    ∀ b ∈ s.held (), b ∈ s.store.redisStore.blocks := by
  apply run_invariant
    (P := fun s : StoreState Unit β => ∀ b ∈ s.held (), b ∈ s.store.redisStore.blocks) ?_ h
    (by simp [StoreState.held, StoreState.init])
  intro s a s' hstep hinv
  cases a with
  | putBlocks bs =>
    rw [StoreState.step_putBlocks.1 hstep]
    exact fun b hb => RedisBlockStore.mem_putBlocks.2 (.inl (hinv b hb))
  | flushRead f t =>
    obtain ⟨-, rfl | rfl⟩ := StoreState.step_flushRead hstep
    · intro b hb
      simp only [StoreState.held, StoreState.flushers_setFlusher_self] at hb
      exact RedisBlockStore.mem_of_mem_getEarliestBlocks hb
    · exact hinv
  | flushInsert f =>
    obtain ⟨bs, hf, rfl⟩ := StoreState.step_flushInsert hstep
    intro b hb
    have hheld : s.held () = bs := by simp only [StoreState.held, hf]
    simp only [StoreState.held, StoreState.flushers_setFlusher_self] at hb
    exact hinv b (hheld ▸ hb)
  | flushDelete f =>
    obtain ⟨bs, -, rfl⟩ := StoreState.step_flushDelete hstep
    simp [StoreState.held, StoreState.setFlusher]
  | flushCrash f =>
    rw [StoreState.step_flushCrash.1 hstep]
    simp [StoreState.held, StoreState.setFlusher]

/-- A write into a cache that is not empty keeps the cover; into an empty one it has to reach
    the rows. -/
private theorem covers_putBlocks {s : StoreState Unit β} (h : Covers s.store)
    (bs : List (BlockDocument β)) :
    Covers (s.store.putBlocks bs) ↔ KeepsCover s (.putBlocks bs) := by
  have hcache : ∀ b, b ∈ (s.store.putBlocks bs).redisStore.blocks ↔
      b ∈ s.store.redisStore.blocks ∨ b ∈ bs := fun b => RedisBlockStore.mem_putBlocks
  constructor
  · intro hcovers hnil
    cases hcovers with
    | inl hempty =>
      -- the cache is empty after the write, so nothing was written
      left
      apply List.eq_nil_iff_forall_not_mem.2
      intro b hb
      have hmem := (hcache b).2 (.inr hb)
      rw [hempty] at hmem
      cases hmem
    | inr hcovers =>
      -- what covers a row now has just been written
      right
      intro r hr
      obtain ⟨b, hb, hle⟩ := hcovers r hr
      have hb' := (hcache b).1 hb
      rw [hnil] at hb'
      exact ⟨b, hb'.resolve_left List.not_mem_nil, hle⟩
  · intro hkeeps
    cases h with
    | inr hcovers =>
      right
      intro r hr
      obtain ⟨b, hb, hle⟩ := hcovers r hr
      exact ⟨b, (hcache b).2 (.inl hb), hle⟩
    | inl hnil =>
      cases hkeeps hnil with
      | inl hbs =>
        left
        apply List.eq_nil_iff_forall_not_mem.2
        intro b hb
        cases (hcache b).1 hb with
        | inl hb => rw [hnil] at hb; cases hb
        | inr hb => rw [hbs] at hb; cases hb
      | inr hreach =>
        right
        intro r hr
        obtain ⟨b, hb, hle⟩ := hreach r hr
        exact ⟨b, (hcache b).2 (.inr hb), hle⟩

/-- An insert copies cached blocks, so the cache still covers the rows. -/
private theorem covers_insert {s : StoreState Unit β} (h : Covers s.store)
    {bs : List (BlockDocument β)} (hcached : ∀ b ∈ bs, b ∈ s.store.redisStore.blocks) :
    Covers { s.store with wrappedStore := s.store.wrappedStore.putBlocks bs } := by
  by_cases hnil : s.store.redisStore.blocks = []
  · exact .inl hnil
  · right
    intro r hr
    cases TimescaleBlockStore.mem_putBlocks hr with
    | inl hr => exact h.resolve_left hnil r hr
    | inr hr => exact ⟨r, hcached r hr, UInt64.le_refl _⟩

/-- A deletion keeps the cover when it leaves nothing or one of the highest cached blocks. The
    heights it deletes are in the wrapped store, so nothing less is enough. -/
private theorem covers_delete {s : StoreState Unit β} (h : Covers s.store)
    (hinserted : ∀ b ∈ s.held (), ∃ r ∈ s.store.wrappedStore.rows, r.height = b.height) :
    Covers { s.store with redisStore := s.store.redisStore.deleteBlocks (s.held ()) } ↔
      KeepsCover s (.flushDelete ()) := by
  constructor
  · intro hcovers
    apply hcovers.imp_right
    intro hcovers c hc
    by_cases hheld : c ∈ s.held ()
    · -- its height is a row by now
      obtain ⟨r, hr, hheight⟩ := hinserted c hheld
      obtain ⟨b, hb, hle⟩ := hcovers r hr
      exact ⟨b, hb, hheight ▸ hle⟩
    · exact ⟨c, RedisBlockStore.mem_deleteBlocks.2 ⟨hc, hheld⟩, UInt64.le_refl _⟩
  · intro hkeeps
    by_cases hrest : (s.store.redisStore.deleteBlocks (s.held ())).blocks = []
    · exact .inl hrest
    · -- row, cached block above it, remaining block above that
      right
      intro r hr
      obtain ⟨c₀, hc₀⟩ := List.exists_mem_of_ne_nil _ hrest
      have hne : s.store.redisStore.blocks ≠ [] :=
        List.ne_nil_of_mem (RedisBlockStore.mem_deleteBlocks.1 hc₀).1
      obtain ⟨c, hc, hle⟩ := h.resolve_left hne r hr
      obtain ⟨b, hb, hle'⟩ := hkeeps.resolve_left hrest c hc
      exact ⟨b, hb, UInt64.le_trans hle hle'⟩

/-- From covered stores, a call keeps them covered exactly when it is one that `KeepsCover`. -/
theorem covers_step {as : List (StoreAction Unit β)} {s s' : StoreState Unit β}
    {a : StoreAction Unit β} (hrun : run StoreState.step .init as = some s)
    (hstep : s.step a = some s') (h : Covers s.store) : Covers s'.store ↔ KeepsCover s a := by
  have hcached := held_cached hrun
  have hinserted := (flushInv_run hrun).inserted ()
  cases a with
  | putBlocks bs =>
    rw [StoreState.step_putBlocks.1 hstep]
    exact covers_putBlocks h bs
  | flushRead f t =>
    apply iff_of_true ?_ trivial
    obtain ⟨-, rfl | rfl⟩ := StoreState.step_flushRead hstep
    · exact h
    · exact h
  | flushInsert f =>
    apply iff_of_true ?_ trivial
    obtain ⟨bs, hf, rfl⟩ := StoreState.step_flushInsert hstep
    apply covers_insert h
    intro b hb
    exact hcached b (by simpa [StoreState.held, hf] using hb)
  | flushDelete f =>
    obtain ⟨bs, hf, rfl⟩ := StoreState.step_flushDelete hstep
    have hheld : s.held () = bs := by simp only [StoreState.held, hf]
    rw [← covers_delete h (hheld ▸ hinserted bs hf), hheld]
  | flushCrash f =>
    apply iff_of_true ?_ trivial
    rw [StoreState.step_flushCrash.1 hstep]
    exact h

end Stores

section Feed

variable {δ κ ι T β : Type} [DecidableEq δ] [DecidableEq κ] [DecidableEq ι] [LinearOrder T]
  [JobText ι T] [LinearOrder (BlockDocument β)]

/-- Everything that is put has one of these heights. -/
def PutsWithin (heights : List UInt64) (batchSize : Nat) (webhookStreams : List δ)
    (s : Feed δ κ ι T β) (action : FeedAction δ κ ι β) : Prop :=
  ∀ b ∈ written (s.storeAction batchSize webhookStreams action).toList, b.height ∈ heights

/-- What an action does to the block store keeps the latest block right. -/
def KeepsLatestBlock (batchSize : Nat) (webhookStreams : List δ) (s : Feed δ κ ι T β)
    (action : FeedAction δ κ ι β) : Prop :=
  ∀ a ∈ s.storeAction batchSize webhookStreams action, KeepsCover s.stores a

instance (heights : List UInt64) (batchSize : Nat) (webhookStreams : List δ)
    (s : Feed δ κ ι T β) (action : FeedAction δ κ ι β) :
    Decidable (PutsWithin heights batchSize webhookStreams s action) :=
  inferInstanceAs (Decidable (∀ b ∈ written
    (s.storeAction batchSize webhookStreams action).toList, b.height ∈ heights))

instance [DecidableEq β] (batchSize : Nat) (webhookStreams : List δ) (s : Feed δ κ ι T β)
    (action : FeedAction δ κ ι β) :
    Decidable (KeepsLatestBlock batchSize webhookStreams s action) :=
  inferInstanceAs (Decidable (∀ a ∈ s.storeAction batchSize webhookStreams action,
    KeepsCover s.stores a))

/-- The block store has been reached by writes at these heights. -/
def ReachedWithin (heights : List UInt64) (s : Feed δ κ ι T β) : Prop :=
  ∃ as, run StoreState.step .init as = some s.stores ∧ ∀ b ∈ written as, b.height ∈ heights

theorem ReachedWithin.step {heights : List UInt64} {batchSize : Nat} {webhookStreams : List δ}
    {s s' : Feed δ κ ι T β} {action : FeedAction δ κ ι β} (h : ReachedWithin heights s)
    (hfeed : FeedStep batchSize webhookStreams s action s')
    (hputs : PutsWithin heights batchSize webhookStreams s action) :
    ReachedWithin heights s' := by
  obtain ⟨as, hrun, hheights⟩ := h
  have hstores := stores_step hfeed
  unfold PutsWithin at hputs
  cases hstore : s.storeAction batchSize webhookStreams action with
  | none =>
    rw [hstore] at hstores
    exact ⟨as, hstores ▸ hrun, hheights⟩
  | some a =>
    rw [hstore] at hstores hputs
    refine ⟨as ++ [a], run_concat.2 ⟨_, hrun, hstores⟩, fun b hb => ?_⟩
    rw [written, List.flatMap_append] at hb
    cases List.mem_append.1 hb with
    | inl hb => exact hheights b hb
    | inr hb => exact hputs b hb

/-- At heights that Redis can tell apart, `GetLatestBlock` is right in every state of a run if and
    only if no call of the run puts old blocks into an empty cache or deletes the highest cached
    block and leaves a lower one. -/
theorem always_latestCorrect_iff {heights : List UInt64} (hexact : Exact heights) {batchSize : Nat}
    {webhookStreams : List δ} {as : List (FeedAction δ κ ι β)}
    (hputs : Meets (Feed.step batchSize webhookStreams)
      (PutsWithin heights batchSize webhookStreams) (.init : Feed δ κ ι T β) as) :
    Always (Feed.step batchSize webhookStreams) (fun s => LatestCorrect s.stores.store)
        (.init : Feed δ κ ι T β) as ↔
      Meets (Feed.step batchSize webhookStreams) (KeepsLatestBlock batchSize webhookStreams)
        (.init : Feed δ κ ι T β) as := by
  -- at exact heights the property is the one about the order of the stores
  have hcorrect : ∀ s : Feed δ κ ι T β, ReachedWithin heights s →
      (LatestCorrect s.stores.store ↔ Covers s.stores.store) := by
    intro s ⟨as, hrun, hheights⟩
    apply latestCorrect_iff hexact
    intro b hb
    exact hheights b ((flushInv_run hrun).genuine b hb)
  apply always_iff_meets_within (I := ReachedWithin heights) ?_ ?_ hputs ?_ ?_
  · intro s action s' hstep hput hreached
    exact hreached.step (feedStep_of_step hstep) hput
  · intro s action s' hstep hput hreached hlatest
    have hfeed := feedStep_of_step hstep
    have hreached' := hreached.step hfeed hput
    show LatestCorrect s'.stores.store ↔ _
    rw [hcorrect s' hreached']
    have hcovers : Covers s.stores.store := (hcorrect s hreached).1 hlatest
    have hstores := stores_step hfeed
    unfold KeepsLatestBlock
    cases hstore : s.storeAction batchSize webhookStreams action with
    | none =>
      rw [hstore] at hstores
      rw [hstores]
      exact iff_of_true hcovers (by simp)
    | some a =>
      rw [hstore] at hstores
      obtain ⟨bs, hrun, -⟩ := hreached
      rw [covers_step hrun hstores hcovers]
      simp
  · exact ⟨[], rfl, by simp [written]⟩
  · exact fun b => RedisOptimizedBlockStore.not_stored_empty b

end Feed

/-- Blocks 1 and 2 are stored and moved to the wrapped store together with the only cached
    blocks, while block 3 arrives. -/
def flushedBehind : List (FeedAction Nat Unit Nat Nat) :=
  [.forwarderReadCache, .forwarderReadWrapped 1, .forward 10, .forward 20, .router .readBacklog,
    .router .readNew, .router (.putBlocks .ok), .router (.flush 0 .ok), .router (.xAckDel .ok),
    .flusher (.flushRead () 2), .forward 30, .router .readBacklog, .router .readNew,
    .router (.putBlocks .ok), .flusher (.flushInsert ()), .flusher (.flushDelete ())]

theorem always_latestCorrect_flushedBehind :
    (∃ s : Feed Nat Unit Nat TupleText Nat,
      run (Feed.step 2 [0]) .init flushedBehind = some s) ∧
    (Always (Feed.step 2 [0]) (fun s => LatestCorrect s.stores.store)
        (.init : Feed Nat Unit Nat TupleText Nat) flushedBehind ↔
      Meets (Feed.step 2 [0]) (KeepsLatestBlock 2 [0])
        (.init : Feed Nat Unit Nat TupleText Nat) flushedBehind) :=
  ⟨⟨_, rfl⟩, always_latestCorrect_iff (show Exact [1, 2, 3] by unfold Exact; decide)
    (by decide)⟩

/-- Blocks 1 and 2 are posted; the router has stored block 1 when the forwarder restarts and posts
    it again. Once block 2 is stored, the flusher moves both blocks away, and the router stores
    block 1 in the empty cache. -/
def repostedAfterFlush : List (FeedAction Nat Unit Nat Nat) :=
  [.forwarderReadCache, .forwarderReadWrapped 1, .forward 10, .forward 20, .router .readBacklog,
    .router .readNew, .router (.putBlocks .ok), .router (.flush 0 .ok), .router (.xAckDel .ok),
    .forwarderCrash, .forwarderReadCache, .forward 10, .router .readBacklog, .router .readNew,
    .router (.putBlocks .ok), .router (.flush 0 .ok), .router (.xAckDel .ok),
    .flusher (.flushRead () 2), .flusher (.flushInsert ()), .flusher (.flushDelete ()),
    .router .readBacklog, .router .readNew, .router (.putBlocks .ok)]

/-- `GetLatestBlock` returns block 1 although block 2 is stored. -/
theorem not_latestCorrect :
    ∃ s : Feed Nat Unit Nat TupleText Nat,
      run (Feed.step 1 [0]) .init repostedAfterFlush = some s ∧
        ¬ LatestCorrect s.stores.store := by
  refine ⟨_, rfl, fun hlatest => ?_⟩
  have hle := hlatest.2 ⟨20, 2⟩ (.inr (by decide))
  exact absurd hle (by decide)

end BlockFeed.Spec
