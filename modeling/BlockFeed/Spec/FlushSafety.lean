import BlockFeed.ForStd.Transition
import BlockFeed.Native.CachedStore

/-!
# Flushing loses no block

Writers and any number of flushers work on the two stores in any order; flushers fail or
crash between any two of their calls. `FlushInv` is what survives: a height that was written
has a block in one of the stores, and a flusher that is about to delete has already put a
block of every height it deletes into the wrapped store.

The main result is `written_stays_stored`. Nothing here depends on the order of the cache,
so it holds for all heights, thresholds and payloads.
-/

namespace BlockFeed.Spec

open BlockFeed.Native Transition

variable {φ β : Type} [DecidableEq φ] [LinearOrder (BlockDocument β)]

/-- The blocks given to `PutBlocks` along a run. -/
def written (as : List (StoreAction φ β)) : List (BlockDocument β) :=
  as.flatMap fun
    | .putBlocks bs => bs
    | _ => []

omit [DecidableEq φ] [LinearOrder (BlockDocument β)] in
theorem written_concat_putBlocks (as : List (StoreAction φ β)) (bs : List (BlockDocument β)) :
    written (as ++ [.putBlocks bs]) = written as ++ bs := by
  simp [written]

omit [DecidableEq φ] [LinearOrder (BlockDocument β)] in
/-- A flusher writes nothing new. -/
theorem written_concat_flush (as : List (StoreAction φ β)) {a : StoreAction φ β}
    (h : ∀ bs, a ≠ .putBlocks bs) : written (as ++ [a]) = written as := by
  cases a with
  | putBlocks bs => exact absurd rfl (h bs)
  | _ => simp [written]

/-- The run-time invariant of the two stores; `ws` is everything written so far. -/
structure FlushInv (ws : List (BlockDocument β)) (s : StoreState φ β) : Prop where
  /-- no written height is missing -/
  kept : ∀ b ∈ ws, ∃ r, s.store.Stored r ∧ r.height = b.height
  /-- no stored block was made up -/
  genuine : ∀ r, s.store.Stored r → r ∈ ws
  /-- nor one that a flusher carries -/
  held : ∀ f, ∀ b ∈ s.held f, b ∈ ws
  /-- what is about to be deleted has its height in the wrapped store -/
  inserted : ∀ f bs, s.flushers f = .deleteBlocks bs →
    ∀ b ∈ bs, ∃ r ∈ s.store.wrappedStore.rows, r.height = b.height

omit [DecidableEq φ] in
theorem flushInv_init : FlushInv [] (StoreState.init : StoreState φ β) where
  kept := by simp
  genuine := fun r h => absurd h (RedisOptimizedBlockStore.not_stored_empty r)
  held := by simp [StoreState.held, StoreState.init]
  inserted := by simp [StoreState.init]

/-- Moving one flusher is harmless if its new position is. -/
private theorem FlushInv.setFlusher {ws : List (BlockDocument β)} {s : StoreState φ β}
    (h : FlushInv ws s) (f : φ) (pc : Flusher β)
    (hheld : ∀ b ∈ (s.setFlusher f pc).held f, b ∈ ws)
    (hpc : ∀ bs, pc = .deleteBlocks bs →
      ∀ b ∈ bs, ∃ r ∈ s.store.wrappedStore.rows, r.height = b.height) :
    FlushInv ws (s.setFlusher f pc) where
  kept := h.kept
  genuine := h.genuine
  held := by
    intro g
    by_cases hg : g = f
    · subst hg; exact hheld
    · have hsame : (s.setFlusher f pc).held g = s.held g := by
        simp only [StoreState.held, StoreState.flushers_setFlusher_ne s hg]
      rw [hsame]
      exact h.held g
  inserted := by
    intro g bs hbs
    by_cases hg : g = f
    · subst hg
      rw [StoreState.flushers_setFlusher_self] at hbs
      exact hpc bs hbs
    · rw [StoreState.flushers_setFlusher_ne s hg] at hbs
      exact h.inserted g bs hbs

omit [DecidableEq φ] in
/-- A write adds its blocks to the cache and to nothing else. -/
private theorem flushInv_putBlocks {ws : List (BlockDocument β)} {s : StoreState φ β}
    (h : FlushInv ws s) (bs : List (BlockDocument β)) :
    FlushInv (ws ++ bs) { s with store := s.store.putBlocks bs } where
  kept := by
    intro b hb
    cases List.mem_append.1 hb with
    | inl hb =>
      obtain ⟨r, hr, hh⟩ := h.kept b hb
      exact ⟨r, RedisOptimizedBlockStore.stored_putBlocks.2 (.inl hr), hh⟩
    | inr hb => exact ⟨b, RedisOptimizedBlockStore.stored_putBlocks.2 (.inr hb), rfl⟩
  genuine := by
    intro r hr
    cases RedisOptimizedBlockStore.stored_putBlocks.1 hr with
    | inl hr => exact List.mem_append_left _ (h.genuine r hr)
    | inr hr => exact List.mem_append_right _ hr
  held := fun f b hb => List.mem_append_left _ (h.held f b hb)
  inserted := h.inserted

/-- The insert puts a row under each height it was given and keeps the other rows. -/
private theorem flushInv_insert {ws : List (BlockDocument β)} {s : StoreState φ β}
    (h : FlushInv ws s) {f : φ} {bs : List (BlockDocument β)} (hf : s.flushers f = .putBlocks bs) :
    FlushInv ws { s.setFlusher f (.deleteBlocks bs) with
      store := { s.store with wrappedStore := s.store.wrappedStore.putBlocks bs } } := by
  have hbs : ∀ b ∈ bs, b ∈ ws := fun b hb => h.held f b (by simpa [StoreState.held, hf] using hb)
  refine ⟨?_, ?_, ?_, ?_⟩
  · -- kept: no row goes away
    intro b hb
    obtain ⟨r, hr, hh⟩ := h.kept b hb
    exact ⟨r, hr.imp_right (TimescaleBlockStore.mem_putBlocks_of_mem bs), hh⟩
  · -- genuine: a new row is one of the blocks the flusher carries
    intro r hr
    cases hr with
    | inl hr => exact h.genuine r (.inl hr)
    | inr hr =>
      cases TimescaleBlockStore.mem_putBlocks hr with
      | inl hr => exact h.genuine r (.inr hr)
      | inr hr => exact hbs r hr
  · -- held: the flusher goes on with the same blocks
    intro g b hb
    by_cases hg : g = f
    · subst hg
      exact hbs b (by simpa [StoreState.held, StoreState.setFlusher] using hb)
    · have hpc := StoreState.flushers_setFlusher_ne s hg (.deleteBlocks bs)
      refine h.held g b ?_
      simpa only [StoreState.held, hpc] using hb
  · -- inserted: the call has just put a row under each of its heights
    intro g cs hcs b hb
    by_cases hg : g = f
    · subst hg
      have heq : Flusher.deleteBlocks bs = .deleteBlocks cs :=
        (StoreState.flushers_setFlusher_self s g _).symm.trans hcs
      cases heq
      exact TimescaleBlockStore.exists_height_putBlocks hb
    · have hcs' := (StoreState.flushers_setFlusher_ne s hg _).symm.trans hcs
      obtain ⟨r, hr, hh⟩ := h.inserted g cs hcs' b hb
      exact ⟨r, TimescaleBlockStore.mem_putBlocks_of_mem bs hr, hh⟩

/-- The delete takes away cached blocks only, and their heights are in the wrapped store. -/
private theorem flushInv_delete {ws : List (BlockDocument β)} {s : StoreState φ β}
    (h : FlushInv ws s) {f : φ} {bs : List (BlockDocument β)}
    (hf : s.flushers f = .deleteBlocks bs) :
    FlushInv ws { s.setFlusher f .getEarliestBlocks with
      store := { s.store with redisStore := s.store.redisStore.deleteBlocks bs } } := by
  have hidle : FlushInv ws (s.setFlusher f .getEarliestBlocks) :=
    h.setFlusher f _ (by simp [StoreState.held]) (by simp)
  refine ⟨?_, ?_, hidle.held, hidle.inserted⟩
  · -- kept
    intro b hb
    obtain ⟨r, hr, hh⟩ := h.kept b hb
    cases hr with
    | inl hr =>
      by_cases hrbs : r ∈ bs
      · -- `r` goes; its height stays behind in the wrapped store
        obtain ⟨r', hr', hh'⟩ := h.inserted f bs hf r hrbs
        exact ⟨r', .inr hr', hh'.trans hh⟩
      · exact ⟨r, .inl (RedisBlockStore.mem_deleteBlocks.2 ⟨hr, hrbs⟩), hh⟩
    | inr hr => exact ⟨r, .inr hr, hh⟩
  · -- genuine
    intro r hr
    cases hr with
    | inl hr => exact h.genuine r (.inl (RedisBlockStore.mem_deleteBlocks.1 hr).1)
    | inr hr => exact h.genuine r (.inr hr)

/-- Every action keeps the invariant. -/
theorem flushInv_step {as : List (StoreAction φ β)} {s s' : StoreState φ β} {a : StoreAction φ β}
    (hstep : s.step a = some s') (h : FlushInv (written as) s) :
    FlushInv (written (as ++ [a])) s' := by
  cases a with
  | putBlocks bs =>
    rw [written_concat_putBlocks, StoreState.step_putBlocks.1 hstep]
    exact flushInv_putBlocks h bs
  | flushRead f t =>
    rw [written_concat_flush as (a := .flushRead f t) nofun]
    obtain ⟨_, rfl | rfl⟩ := StoreState.step_flushRead hstep
    · -- what the flusher takes along comes from the cache
      refine h.setFlusher f _ (fun b hb => ?_) (by simp)
      have hb' : b ∈ s.store.redisStore.getEarliestBlocks (flushThreshold t) := by
        simpa [StoreState.held] using hb
      exact h.genuine b (.inl (RedisBlockStore.mem_of_mem_getEarliestBlocks hb'))
    · exact h
  | flushInsert f =>
    rw [written_concat_flush as (a := .flushInsert f) nofun]
    obtain ⟨bs, hf, rfl⟩ := StoreState.step_flushInsert hstep
    exact flushInv_insert h hf
  | flushDelete f =>
    rw [written_concat_flush as (a := .flushDelete f) nofun]
    obtain ⟨bs, hf, rfl⟩ := StoreState.step_flushDelete hstep
    exact flushInv_delete h hf
  | flushCrash f =>
    rw [written_concat_flush as (a := .flushCrash f) nofun]
    rw [StoreState.step_flushCrash.1 hstep]
    exact h.setFlusher f _ (by simp [StoreState.held]) (by simp)

/-- Every run keeps the invariant. -/
theorem flushInv_run {as : List (StoreAction φ β)} {s : StoreState φ β}
    (h : run StoreState.step .init as = some s) : FlushInv (written as) s :=
  run_invariant_history (P := fun as s => FlushInv (written as) s)
    (fun _ _ _ _ hstep => flushInv_step hstep) h flushInv_init

/-- Whatever writers and flushers do, every height that was written has a block in one of the
    stores, and every stored block is one that was written. -/
theorem written_stays_stored {as : List (StoreAction φ β)} {s : StoreState φ β}
    (h : run StoreState.step .init as = some s) :
    (∀ b ∈ written as, ∃ r, s.store.Stored r ∧ r.height = b.height) ∧
      ∀ r, s.store.Stored r → r ∈ written as :=
  ⟨(flushInv_run h).kept, (flushInv_run h).genuine⟩

/-- Two flushers over two payloads of one height: the second flusher deletes a block whose
    height the first one has already moved. -/
def twoFlushers : List (StoreAction (Fin 2) Nat) :=
  [.putBlocks [⟨0, 5⟩], .flushRead 0 1, .flushInsert 0, .putBlocks [⟨1, 5⟩], .flushDelete 0,
    .flushRead 1 1, .flushInsert 1, .flushDelete 1]

theorem written_stays_stored_twoFlushers :
    ∃ s, run StoreState.step .init twoFlushers = some s ∧
      (∀ b ∈ written twoFlushers, ∃ r, s.store.Stored r ∧ r.height = b.height) ∧
        ∀ r, s.store.Stored r → r ∈ written twoFlushers :=
  ⟨_, rfl, written_stays_stored rfl⟩

end BlockFeed.Spec
