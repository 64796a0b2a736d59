import BlockFeed.Spec.CachedRead

/-!
# Range reads while blocks are flushed

`GetBlocks` reads the cache first and the wrapped store later, and a flusher moves blocks from
the one to the other in between. It still finds every block because of how the two stores lie
relative to each other, `OrderInv`: a block that is in the wrapped store only is below all
cached ones, and what the flusher carries is the lower end of the cache.

Both need heights that Redis can tell apart. Scores are doubles, so the results ask for
heights with distinct doubles (`Exact`); `getBlocks_sharedScore` shows what happens otherwise.
The second half has an answer only if its query fits in the columns of the wrapped store.
-/

namespace BlockFeed.Spec

open BlockFeed.Native Transition

section Order

variable {β : Type} [LinearOrder (BlockDocument β)]

/-- The `PutBlocks` calls of a run. -/
def puts {φ : Type} (as : List (StoreAction φ β)) : List (List (BlockDocument β)) :=
  as.filterMap fun
    | .putBlocks bs => some bs
    | _ => none

omit [LinearOrder (BlockDocument β)] in
theorem written_eq_flatten {φ : Type} (as : List (StoreAction φ β)) :
    written as = (puts as).flatten := by
  induction as with
  | nil => rfl
  | cons a as ih =>
    cases a with
    | putBlocks bs => exact congrArg (bs ++ ·) ih
    | flushRead f t => exact ih
    | flushInsert f => exact ih
    | flushDelete f => exact ih
    | flushCrash f => exact ih

/-- Positive heights, distinct within a call and above those of earlier calls. -/
structure Ascending (calls : List (List (BlockDocument β))) : Prop where
  positive : ∀ bs ∈ calls, ∀ b ∈ bs, 1 ≤ b.height
  distinct : ∀ bs ∈ calls, bs.Pairwise (fun a b => a.height ≠ b.height)
  above : calls.Pairwise (fun earlier later => ∀ a ∈ earlier, ∀ b ∈ later, a.height < b.height)

omit [LinearOrder (BlockDocument β)] in
/-- Along ascending calls a height belongs to one block. -/
theorem Ascending.block_unique {calls : List (List (BlockDocument β))} (h : Ascending calls)
    {a b : BlockDocument β} (ha : a ∈ calls.flatten) (hb : b ∈ calls.flatten)
    (heq : a.height = b.height) : a = b := by
  have hnd : (calls.flatten.map BlockDocument.height).Nodup := by
    rw [List.Nodup, List.pairwise_map, List.pairwise_flatten]
    refine ⟨h.distinct, h.above.imp fun hlt a ha b hb => ?_⟩
    exact UInt64.ne_of_lt (hlt a ha b hb)
  exact List.inj_on_of_nodup_map hnd ha hb heq

omit [LinearOrder (BlockDocument β)] in
theorem Ascending.append_left {calls calls' : List (List (BlockDocument β))}
    (h : Ascending (calls ++ calls')) : Ascending calls where
  positive := fun bs hbs => h.positive bs (List.mem_append_left _ hbs)
  distinct := fun bs hbs => h.distinct bs (List.mem_append_left _ hbs)
  above := (List.pairwise_append.1 h.above).1

/-- How cache, wrapped store and flusher lie relative to each other. -/
structure OrderInv (ws : List (BlockDocument β)) (s : StoreState Unit β) : Prop where
  /-- exactly what was written is stored -/
  stored : ∀ b, s.store.Stored b ↔ b ∈ ws
  /-- what is in the wrapped store only is below the cache -/
  below : ∀ b ∈ s.store.wrappedStore.rows, b ∉ s.store.redisStore.blocks →
    ∀ c ∈ s.store.redisStore.blocks, b.height.toNat < c.height.toNat
  /-- the flusher carries the lower end of the cache -/
  lowest : ∀ b ∈ s.held (), b ∈ s.store.redisStore.blocks ∧
    ∀ c ∈ s.store.redisStore.blocks, c ∉ s.held () → b.height.toNat < c.height.toNat
  /-- what the flusher is about to delete is in the wrapped store -/
  inserted : ∀ bs, s.flushers () = .deleteBlocks bs → bs ⊆ s.store.wrappedStore.rows

theorem orderInv_init : OrderInv [] (.init : StoreState Unit β) where
  stored := fun b => iff_of_false (RedisOptimizedBlockStore.not_stored_empty b) List.not_mem_nil
  below := by simp [StoreState.init, RedisOptimizedBlockStore.empty]
  lowest := by simp [StoreState.held, StoreState.init]
  inserted := by simp [StoreState.init]

/-- A write above everything written before. -/
private theorem orderInv_putBlocks {ws bs : List (BlockDocument β)} {s : StoreState Unit β}
    (h : OrderInv ws s) (habove : ∀ a ∈ ws, ∀ b ∈ bs, a.height.toNat < b.height.toNat) :
    OrderInv (ws ++ bs) { s with store := s.store.putBlocks bs } where
  stored := by
    intro b
    rw [RedisOptimizedBlockStore.stored_putBlocks, h.stored, List.mem_append]
  below := by
    intro b hb hnot c hc
    have hnot' : b ∉ s.store.redisStore.blocks :=
      fun hin => hnot (RedisBlockStore.mem_putBlocks.2 (.inl hin))
    cases RedisBlockStore.mem_putBlocks.1 hc with
    | inl hc => exact h.below b hb hnot' c hc
    | inr hc => exact habove b ((h.stored b).1 (.inr hb)) c hc
  lowest := by
    intro b hb
    have hb' : b ∈ s.held () := hb
    obtain ⟨hin, hlow⟩ := h.lowest b hb'
    refine ⟨RedisBlockStore.mem_putBlocks.2 (.inl hin), fun c hc hnot => ?_⟩
    cases RedisBlockStore.mem_putBlocks.1 hc with
    | inl hc => exact hlow c hc hnot
    | inr hc => exact habove b ((h.stored b).1 (.inl hin)) c hc
  inserted := h.inserted

/-- Back to the timer. -/
private theorem orderInv_idle {ws : List (BlockDocument β)} {s : StoreState Unit β}
    (h : OrderInv ws s) : OrderInv ws (s.setFlusher () .getEarliestBlocks) where
  stored := h.stored
  below := h.below
  lowest := by simp [StoreState.held]
  inserted := by simp

/-- The read takes the lower end of the cache. -/
private theorem orderInv_read {ws : List (BlockDocument β)} (hsep : Separate ws)
    {s : StoreState Unit β} (h : OrderInv ws s) (limit : Int) :
    OrderInv ws (s.setFlusher () (.putBlocks (s.store.redisStore.getEarliestBlocks limit))) where
  stored := h.stored
  below := h.below
  lowest := by
    have hheld : (s.setFlusher ()
        (.putBlocks (s.store.redisStore.getEarliestBlocks limit))).held () =
        s.store.redisStore.getEarliestBlocks limit := by
      simp only [StoreState.held, StoreState.flushers_setFlusher_self]
    rw [hheld]
    intro b hb
    have hin := RedisBlockStore.mem_of_mem_getEarliestBlocks hb
    refine ⟨hin, fun c hc hnot => ?_⟩
    have hle := RedisBlockStore.score_le_of_mem_getEarliestBlocks hb hc hnot
    have hne : b ≠ c := fun heq => hnot (heq ▸ hb)
    exact hsep.lt_of_le ((h.stored b).1 (.inl hin)) ((h.stored c).1 (.inl hc)) hne hle
  inserted := by simp

/-- The insert copies the lower end of the cache to the wrapped store. -/
private theorem orderInv_insert {ws : List (BlockDocument β)} (hsep : Separate ws)
    {s : StoreState Unit β} (h : OrderInv ws s) {bs : List (BlockDocument β)}
    (hf : s.flushers () = .putBlocks bs) :
    OrderInv ws { s.setFlusher () (.deleteBlocks bs) with
      store := { s.store with wrappedStore := s.store.wrappedStore.putBlocks bs } } := by
  have hheld : s.held () = bs := by simp only [StoreState.held, hf]
  have hcached : ∀ b ∈ bs, b ∈ s.store.redisStore.blocks :=
    fun b hb => (h.lowest b (hheld ▸ hb)).1
  have hws : ∀ b ∈ bs, b ∈ ws := fun b hb => (h.stored b).1 (.inl (hcached b hb))
  refine ⟨?_, ?_, ?_, ?_⟩
  · -- stored: what is copied is in the cache
    intro b
    rw [← h.stored]
    constructor
    · intro hb
      cases hb with
      | inl hb => exact .inl hb
      | inr hb =>
        cases TimescaleBlockStore.mem_putBlocks hb with
        | inl hb => exact .inr hb
        | inr hb => exact .inl (hcached b hb)
    · exact Or.imp_right (TimescaleBlockStore.mem_putBlocks_of_mem bs)
  · -- below: the new rows are still cached
    intro b hb hnot
    cases TimescaleBlockStore.mem_putBlocks hb with
    | inl hb => exact h.below b hb hnot
    | inr hb => exact absurd (hcached b hb) hnot
  · -- lowest: the flusher goes on with the same blocks
    have hlow := h.lowest
    rw [hheld] at hlow
    simp only [StoreState.held, StoreState.flushers_setFlusher_self]
    exact hlow
  · -- inserted
    intro cs hcs b hb
    simp only [StoreState.flushers_setFlusher_self, Flusher.deleteBlocks.injEq] at hcs
    subst hcs
    -- the row of the height of `b` was written, so it is `b`
    have hrow : ∃ r ∈ (s.store.wrappedStore.putBlocks bs).rows, r.height = b.height :=
      TimescaleBlockStore.exists_height_putBlocks hb
    obtain ⟨r, hr, hh⟩ := hrow
    have hrws : r ∈ ws := by
      cases TimescaleBlockStore.mem_putBlocks hr with
      | inl hr' => exact (h.stored r).1 (.inr hr')
      | inr hr' => exact hws r hr'
    have hsame : r = b := hsep r hrws b (hws b hb) (by rw [hh])
    exact hsame ▸ hr

/-- The delete takes the lower end off the cache. -/
private theorem orderInv_delete {ws : List (BlockDocument β)} {s : StoreState Unit β}
    (h : OrderInv ws s) {bs : List (BlockDocument β)} (hf : s.flushers () = .deleteBlocks bs) :
    OrderInv ws { s.setFlusher () .getEarliestBlocks with
      store := { s.store with redisStore := s.store.redisStore.deleteBlocks bs } } := by
  have hheld : s.held () = bs := by simp only [StoreState.held, hf]
  refine ⟨?_, ?_, by simp [StoreState.held, StoreState.setFlusher], by simp⟩
  · -- stored: what is deleted has been inserted
    intro b
    rw [← h.stored]
    constructor
    · exact Or.imp_left fun hb => (RedisBlockStore.mem_deleteBlocks.1 hb).1
    · intro hb
      by_cases hbs : b ∈ bs
      · exact .inr (h.inserted bs hf hbs)
      · exact hb.imp_left fun hb => RedisBlockStore.mem_deleteBlocks.2 ⟨hb, hbs⟩
  · -- below: what has just been deleted was the lower end
    intro b hb hnot c hc
    obtain ⟨hc, hcbs⟩ := RedisBlockStore.mem_deleteBlocks.1 hc
    by_cases hbs : b ∈ bs
    · exact (h.lowest b (hheld ▸ hbs)).2 c hc (hheld ▸ hcbs)
    · have hnot' : b ∉ s.store.redisStore.blocks :=
        fun hin => hnot (RedisBlockStore.mem_deleteBlocks.2 ⟨hin, hbs⟩)
      exact h.below b hb hnot' c hc

/-- Every action keeps the invariant, as long as writes are above what was written and scores
    stay distinct. -/
theorem orderInv_step {as : List (StoreAction Unit β)} {s s' : StoreState Unit β}
    {a : StoreAction Unit β} (hstep : s.step a = some s')
    (hputs : Ascending (puts (as ++ [a]))) (hsep : Separate (written (as ++ [a])))
    (h : OrderInv (written as) s) : OrderInv (written (as ++ [a])) s' := by
  cases a with
  | putBlocks bs =>
    rw [written_concat_putBlocks, StoreState.step_putBlocks.1 hstep]
    apply orderInv_putBlocks h
    -- an earlier block comes from an earlier call
    intro a ha b hb
    have habove := hputs.above
    simp only [puts, List.filterMap_append, List.filterMap_cons, List.filterMap_nil] at habove
    rw [written_eq_flatten] at ha
    obtain ⟨earlier, hearlier, ha⟩ := List.mem_flatten.1 ha
    have hlt := (List.pairwise_append.1 habove).2.2 earlier hearlier bs (List.mem_singleton.2 rfl)
    exact UInt64.lt_iff_toNat_lt.1 (hlt a ha b hb)
  | flushRead f t =>
    rw [written_concat_flush as (a := .flushRead f t) nofun] at hsep ⊢
    obtain ⟨_, rfl | rfl⟩ := StoreState.step_flushRead hstep
    · exact orderInv_read hsep h _
    · exact h
  | flushInsert f =>
    rw [written_concat_flush as (a := .flushInsert f) nofun] at hsep ⊢
    obtain ⟨bs, hf, rfl⟩ := StoreState.step_flushInsert hstep
    exact orderInv_insert hsep h hf
  | flushDelete f =>
    rw [written_concat_flush as (a := .flushDelete f) nofun] at hsep ⊢
    obtain ⟨bs, hf, rfl⟩ := StoreState.step_flushDelete hstep
    exact orderInv_delete h hf
  | flushCrash f =>
    rw [written_concat_flush as (a := .flushCrash f) nofun] at hsep ⊢
    rw [StoreState.step_flushCrash.1 hstep]
    exact orderInv_idle h

omit [LinearOrder (BlockDocument β)] in
/-- Ascending writes at exact heights are separate blocks. -/
theorem separate_of_ascending {φ : Type} {as : List (StoreAction φ β)}
    (hputs : Ascending (puts as)) (hexact : Exact ((written as).map BlockDocument.height)) :
    Separate (written as) := by
  intro a ha b hb hscore
  have hheight := hexact _ (List.mem_map_of_mem ha) _ (List.mem_map_of_mem hb) hscore
  rw [written_eq_flatten] at ha hb
  exact hputs.block_unique ha hb hheight

theorem orderInv_run {as : List (StoreAction Unit β)} {s : StoreState Unit β}
    (h : run StoreState.step .init as = some s) (hputs : Ascending (puts as))
    (hexact : Exact ((written as).map BlockDocument.height)) : OrderInv (written as) s := by
  apply run_invariant_history (P := fun as s => Ascending (puts as) →
    Exact ((written as).map BlockDocument.height) → OrderInv (written as) s) ?_ h
    (fun _ _ => orderInv_init) hputs hexact
  -- the conditions on the whole run are conditions on what came before, too
  intro as s a s' hstep ih hputs hexact
  have hputs' : Ascending (puts as) := by
    rw [puts, List.filterMap_append] at hputs
    exact hputs.append_left
  have hexact' : Exact ((written as).map BlockDocument.height) := by
    apply hexact.subset
    rw [written, written, List.flatMap_append, List.map_append]
    exact List.subset_append_left _ _
  exact orderInv_step hstep hputs (separate_of_ascending hputs hexact) (ih hputs' hexact')

/-- The wrapped store never loses a row. -/
theorem rows_subset_run {φ : Type} [DecidableEq φ] {as : List (StoreAction φ β)}
    {s t : StoreState φ β} (h : run StoreState.step s as = some t) :
    s.store.wrappedStore.rows ⊆ t.store.wrappedStore.rows := by
  apply run_invariant (P := fun t => s.store.wrappedStore.rows ⊆ t.store.wrappedStore.rows) ?_ h
    (List.Subset.refl _)
  intro t a t' hstep hsub
  cases a with
  | putBlocks bs =>
    rw [StoreState.step_putBlocks.1 hstep]
    exact hsub
  | flushRead f limit =>
    obtain ⟨_, rfl | rfl⟩ := StoreState.step_flushRead hstep
    · exact hsub
    · exact hsub
  | flushInsert f =>
    -- the only action that writes to the wrapped store adds rows
    obtain ⟨bs, _, rfl⟩ := StoreState.step_flushInsert hstep
    exact fun b hb => TimescaleBlockStore.mem_putBlocks_of_mem bs (hsub hb)
  | flushDelete f =>
    obtain ⟨bs, _, rfl⟩ := StoreState.step_flushDelete hstep
    exact hsub
  | flushCrash f =>
    rw [StoreState.step_flushCrash.1 hstep]
    exact hsub

/-! ## The two reads -/

/-- What the cache returns for a range of exact heights. -/
theorem cached_range {ws : List (BlockDocument β)} {store : RedisBlockStore β}
    (hcached : store.blocks ⊆ ws) {startHeight endHeight : UInt64}
    (hexact : Exact (startHeight :: endHeight :: ws.map BlockDocument.height))
    (hsep : Separate ws) (hle : startHeight.toNat ≤ endHeight.toNat) :
    (store.getBlocks startHeight endHeight).Pairwise
        (fun a b => a.height.toNat < b.height.toNat) ∧
      ∀ b, b ∈ store.getBlocks startHeight endHeight ↔
        b ∈ store.blocks ∧ startHeight.toNat ≤ b.height.toNat ∧
          b.height.toNat ≤ endHeight.toNat := by
  constructor
  · have hsorted := store.getBlocks_sorted startHeight endHeight
    have hnd := store.getBlocks_nodup startHeight endHeight
    refine (hsorted.and hnd).imp_of_mem fun {a b} ha hb hab => ?_
    have ha' := hcached (RedisBlockStore.mem_getBlocks.1 ha).1
    have hb' := hcached (RedisBlockStore.mem_getBlocks.1 hb).1
    exact hsep.lt_of_le ha' hb' hab.2 hab.1
  · intro b
    rw [RedisBlockStore.mem_getBlocks]
    constructor
    · intro hb
      obtain ⟨hin, -, hlo, hhi⟩ := hb
      have hheight : b.height ∈ startHeight :: endHeight :: ws.map BlockDocument.height :=
        List.mem_cons_of_mem _ (List.mem_cons_of_mem _ (List.mem_map_of_mem (hcached hin)))
      exact ⟨hin, (hexact.le_iff List.mem_cons_self hheight).1 hlo,
        (hexact.le_iff hheight (List.mem_cons_of_mem _ List.mem_cons_self)).1 hhi⟩
    · intro hb
      exact ⟨hb.1, hle, score_mono hb.2.1, score_mono hb.2.2⟩

/-- The scores of exact heights tell which cached blocks are in the range. -/
theorem doublesAgree_of_exact {ws : List (BlockDocument β)} {store : RedisOptimizedBlockStore β}
    (hcached : store.redisStore.blocks ⊆ ws) {startHeight endHeight : UInt64}
    (hexact : Exact (startHeight :: endHeight :: ws.map BlockDocument.height))
    (hsep : Separate ws) (hle : startHeight.toNat ≤ endHeight.toNat) :
    DoublesAgree store startHeight endHeight := by
  obtain ⟨hsorted, hmem⟩ := cached_range hcached hexact hsep hle
  have hagree : ∀ b ∈ store.redisStore.blocks, score startHeight ≤ score b.height →
      score b.height ≤ score endHeight → startHeight ≤ b.height ∧ b.height ≤ endHeight := by
    intro b hb hlo hhi
    have hrange := ((hmem b).1 (RedisBlockStore.mem_getBlocks.2 ⟨hb, hle, hlo, hhi⟩)).2
    exact ⟨UInt64.le_iff_toNat_le.2 hrange.1, UInt64.le_iff_toNat_le.2 hrange.2⟩
  rw [getBlocks_eq_cachedRange hle hagree] at hsorted
  exact ⟨hagree, hsorted.imp UInt64.lt_iff_toNat_lt.2⟩

/-- The two halves of a read, at a state in which the invariant holds and at a later one. -/
private theorem OrderInv.rangeAnswer {ws : List (BlockDocument β)} {s₁ s₂ : StoreState Unit β}
    (hinv : OrderInv ws s₁) {startHeight endHeight : UInt64}
    (hagree : DoublesAgree s₁.store startHeight endHeight) (hsep : Separate ws)
    (hstart : 1 ≤ startHeight.toNat) (hle : startHeight.toNat ≤ endHeight.toNat)
    (hrows : s₁.store.wrappedStore.rows ⊆ s₂.store.wrappedStore.rows)
    (hstored : ∀ b, s₁.store.Stored b → s₂.store.Stored b) :
    RangeAnswer s₁.store.Stored s₂.store.Stored startHeight endHeight
      ((s₁.store.readBlocks startHeight endHeight).finish s₂.store.wrappedStore) := by
  apply rangeAnswer_finish hagree (numBlocks_fits hstart _) hle
  · -- block 0 is below the range
    intro b bs hblocks hzero
    have hlo := cachedRange_head_le hblocks
    omega
  · intro a ha b hb heq
    exact hsep a ((hinv.stored a).1 (.inl ha)) b ((hinv.stored b).1 hb) (by rw [heq])
  · -- what is in the wrapped store only is below the cache, and stays in the wrapped store
    intro b hb hnot
    have hrow := hb.resolve_left hnot
    exact ⟨hrows hrow, hinv.below b hrow hnot⟩
  · exact fun b hb => hstored b (.inl hb)
  · exact fun b hb => .inr hb

/-- A range read whose two halves happen at any two points of a run with ascending writes and
    one flusher has an answer, a strictly ascending list that has every block of the range stored
    when the read began, and only blocks of the range stored when it ended, exactly if the query
    that is left for the second half fits. -/
theorem getBlocks_whileFlushing {as₀ as₁ as₂ : List (StoreAction Unit β)}
    {s₀ s₁ s₂ : StoreState Unit β} {startHeight endHeight : UInt64}
    (h₀ : run StoreState.step .init as₀ = some s₀) (h₁ : run StoreState.step s₀ as₁ = some s₁)
    (h₂ : run StoreState.step s₁ as₂ = some s₂) (hputs : Ascending (puts (as₀ ++ as₁ ++ as₂)))
    (hexact : Exact (startHeight :: endHeight ::
      (written (as₀ ++ as₁ ++ as₂)).map BlockDocument.height))
    (hstart : 1 ≤ startHeight) (hle : startHeight ≤ endHeight) :
    ((s₁.store.readBlocks startHeight endHeight).Answerable ∧
      ((s₁.store.readBlocks startHeight endHeight).finish s₂.store.wrappedStore).Pairwise
        (fun a b => a.height < b.height) ∧
      (∀ b, s₀.store.Stored b → startHeight ≤ b.height → b.height ≤ endHeight →
        b ∈ (s₁.store.readBlocks startHeight endHeight).finish s₂.store.wrappedStore) ∧
      ∀ b ∈ (s₁.store.readBlocks startHeight endHeight).finish s₂.store.wrappedStore,
        startHeight ≤ b.height ∧ b.height ≤ endHeight ∧ s₂.store.Stored b) ↔
    QueryFits s₁.store startHeight endHeight := by
  simp only [UInt64.le_iff_toNat_le, UInt64.lt_iff_toNat_lt] at hstart hle ⊢
  have hstart : 1 ≤ startHeight.toNat := hstart
  -- the invariant at the three points
  have hwritten : ∀ as bs : List (StoreAction Unit β),
      written (as ++ bs) = written as ++ written bs := fun as bs => List.flatMap_append
  have hrun₁ := run_append.2 ⟨s₀, h₀, h₁⟩
  have hrun₂ := run_append.2 ⟨s₁, hrun₁, h₂⟩
  have hputs₁ : Ascending (puts (as₀ ++ as₁)) := by
    rw [puts, List.filterMap_append] at hputs
    exact hputs.append_left
  have hputs₀ : Ascending (puts as₀) := by
    rw [puts, List.filterMap_append] at hputs₁
    exact hputs₁.append_left
  have hexact₂ := hexact.subset (List.subset_cons_of_subset _ (List.subset_cons_self _ _))
  have hsub₁ : written (as₀ ++ as₁) ⊆ written (as₀ ++ as₁ ++ as₂) := by
    rw [hwritten (as₀ ++ as₁)]
    exact List.subset_append_left _ _
  have hsub₀ : written as₀ ⊆ written (as₀ ++ as₁) := by
    rw [hwritten]
    exact List.subset_append_left _ _
  have hexact₁ := hexact₂.subset (List.map_subset BlockDocument.height hsub₁)
  have hexact₀ := hexact₁.subset (List.map_subset BlockDocument.height hsub₀)
  have hinv₀ := orderInv_run h₀ hputs₀ hexact₀
  have hinv₁ := orderInv_run hrun₁ hputs₁ hexact₁
  have hinv₂ := orderInv_run hrun₂ hputs hexact₂
  -- what is stored at the first point is stored at the second, and so on
  have hstored₁ : ∀ b, s₀.store.Stored b → s₁.store.Stored b :=
    fun b hb => (hinv₁.stored b).2 (hsub₀ ((hinv₀.stored b).1 hb))
  have hstored₂ : ∀ b, s₁.store.Stored b → s₂.store.Stored b :=
    fun b hb => (hinv₂.stored b).2 (hsub₁ ((hinv₁.stored b).1 hb))
  have hexactRange : Exact (startHeight :: endHeight ::
      (written (as₀ ++ as₁)).map BlockDocument.height) := by
    apply hexact.subset
    intro h hmem
    simp only [List.mem_cons] at hmem ⊢
    exact hmem.imp_right (Or.imp_right fun hmem => List.map_subset _ hsub₁ hmem)
  have hcached : s₁.store.redisStore.blocks ⊆ written (as₀ ++ as₁) :=
    fun b hb => (hinv₁.stored b).1 (.inl hb)
  have hsep := separate_of_ascending hputs₁ hexact₁
  have hagree := doublesAgree_of_exact hcached hexactRange hsep hle
  have hanswer := hinv₁.rangeAnswer hagree hsep hstart hle (rows_subset_run h₂) hstored₂
  rw [answerable_iff hagree (numBlocks_fits hstart _) hle]
  apply and_iff_left
  exact ⟨hanswer.sorted, fun b hb => hanswer.complete b (hstored₁ b hb), hanswer.sound⟩

/-- Three blocks, a flush of two of them between the two halves of a read. -/
def flushBetweenReads : List (StoreAction Unit Nat) × List (StoreAction Unit Nat) :=
  ([.putBlocks [⟨10, 1⟩, ⟨11, 2⟩], .putBlocks [⟨12, 3⟩], .flushRead () 2, .flushInsert ()],
    [.flushDelete (), .putBlocks [⟨13, 4⟩]])

private theorem flushBetweenReads_ascending :
    Ascending (puts (flushBetweenReads.1 ++ [] ++ flushBetweenReads.2)) where
  positive := by decide
  distinct := by decide
  above := by decide

theorem getBlocks_whileFlushing_flushBetweenReads :
    ∃ s₀ s₂ : StoreState Unit Nat,
      run StoreState.step .init flushBetweenReads.1 = some s₀ ∧
        run StoreState.step s₀ flushBetweenReads.2 = some s₂ ∧
        ((s₀.store.readBlocks 1 4).Answerable ∧
          ((s₀.store.readBlocks 1 4).finish s₂.store.wrappedStore).Pairwise
            (fun a b => a.height < b.height) ∧
          (∀ b, s₀.store.Stored b → 1 ≤ b.height → b.height ≤ 4 →
            b ∈ (s₀.store.readBlocks 1 4).finish s₂.store.wrappedStore) ∧
          ∀ b ∈ (s₀.store.readBlocks 1 4).finish s₂.store.wrappedStore,
            1 ≤ b.height ∧ b.height ≤ 4 ∧ s₂.store.Stored b) :=
  ⟨_, _, rfl, rfl,
    (getBlocks_whileFlushing rfl (run_nil _) rfl flushBetweenReads_ascending
      (by unfold Exact; decide) (by decide) (by decide)).2 (by decide)⟩

/-- Whenever the heights of two blocks share a double, a read of the one returns the other too. -/
theorem mem_getBlocks_of_sharedScore {a b : BlockDocument β} {store : RedisOptimizedBlockStore β}
    (hscore : score a.height = score b.height) (hb : 1 ≤ b.height.toNat)
    (ha : a ∈ store.redisStore.blocks) : a ∈ store.getBlocks b.height b.height := by
  have hin : a ∈ store.redisStore.getBlocks b.height b.height :=
    RedisBlockStore.mem_getBlocks.2 ⟨ha, Nat.le_refl _, hscore.ge, hscore.le⟩
  show a ∈ (store.readBlocks b.height b.height).finish store.wrappedStore
  rw [finish_readBlocks (numBlocks_fits hb _) (Nat.le_refl _)]
  split
  · exact hin
  · -- it is cached, so it is returned whatever the wrapped store adds
    cases hdirty : store.redisStore.getBlocks b.height b.height with
    | nil =>
      rw [hdirty] at hin
      cases hin
    | cons first rest =>
      rw [hdirty] at hin
      exact List.mem_append_right _ hin

/-- Two blocks whose heights share a double. -/
def sharedScore : List (StoreAction Unit Nat) :=
  [.putBlocks [⟨10, 9007199254740992⟩], .putBlocks [⟨11, 9007199254740993⟩]]

/-- Asked for the second block only, `GetBlocks` returns the first one too. -/
theorem getBlocks_sharedScore :
    Ascending (puts sharedScore) ∧
      ∃ s : StoreState Unit Nat, run StoreState.step .init sharedScore = some s ∧
        s.store.getBlocks 9007199254740993 9007199254740993 =
          [⟨10, 9007199254740992⟩, ⟨11, 9007199254740993⟩] ∧
        ¬ ∀ b ∈ s.store.getBlocks 9007199254740993 9007199254740993,
          9007199254740993 ≤ b.height :=
  ⟨⟨by decide, by decide, by decide⟩, _, rfl, by decide, by decide⟩

end Order

end BlockFeed.Spec
