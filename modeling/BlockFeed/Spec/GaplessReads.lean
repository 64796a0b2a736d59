import BlockFeed.Spec.RelayNonEmpty

/-!
# Reads without a gap

What the flusher moves is the lower end of the cache, so the wrapped store has no gap: `MoveInv`.
The cache may have one, since a height that has been moved can be put again. Where the cache has
none, `NoGap`, a read of the block store returns the blocks from its first height on (`From`),
whatever the flusher does between the two halves of the read.
-/

namespace BlockFeed.Spec

open BlockFeed.Native Transition

section From

variable {β : Type}

/-- These are blocks of all heights from this one on. -/
def From (start : Nat) (blocks : List (BlockDocument β)) : Prop :=
  blocks.map (fun b => b.height.toNat) = List.range' start blocks.length

/-- Ascending numbers with nothing left out. -/
private theorem eq_range'_of_dense {l : List Nat} {start : Nat} (hsorted : l.Pairwise (· < ·))
    (hge : ∀ n ∈ l, start ≤ n) (hdense : ∀ n ∈ l, ∀ m, start ≤ m → m ≤ n → m ∈ l) :
    l = List.range' start l.length := by
  induction l generalizing start with
  | nil => rfl
  | cons a l ih =>
    obtain ⟨hlt, hrest⟩ := List.pairwise_cons.1 hsorted
    -- the first number is the start, for nothing below it is in the list
    have hfirst : a = start := by
      have hstart := hdense a List.mem_cons_self start (Nat.le_refl _) (hge a List.mem_cons_self)
      cases List.mem_cons.1 hstart with
      | inl heq => exact heq.symm
      | inr hmem =>
        have hge' := hge a List.mem_cons_self
        have hlt' := hlt start hmem
        omega
    subst hfirst
    rw [List.length_cons, List.range'_succ]
    congr 1
    apply ih hrest
    · intro n hn
      exact hlt n hn
    · intro n hn m hlo hhi
      have hmem := hdense n (List.mem_cons_of_mem _ hn) m (by omega) hhi
      exact (List.mem_cons.1 hmem).resolve_left (by omega)

theorem from_of_dense {blocks : List (BlockDocument β)} {start : Nat}
    (hsorted : blocks.Pairwise (fun a b => a.height.toNat < b.height.toNat))
    (hge : ∀ b ∈ blocks, start ≤ b.height.toNat)
    (hdense : ∀ b ∈ blocks, ∀ n, start ≤ n → n ≤ b.height.toNat →
      ∃ c ∈ blocks, c.height.toNat = n) : From start blocks := by
  unfold From
  rw [← List.length_map (fun b : BlockDocument β => b.height.toNat)]
  apply eq_range'_of_dense (List.pairwise_map.2 hsorted)
  · intro n hn
    obtain ⟨b, hb, rfl⟩ := List.mem_map.1 hn
    exact hge b hb
  · intro n hn m hlo hhi
    obtain ⟨b, hb, rfl⟩ := List.mem_map.1 hn
    exact List.mem_map.2 (hdense b hb m hlo hhi)

theorem From.sorted {blocks : List (BlockDocument β)} {start : Nat} (h : From start blocks) :
    blocks.Pairwise (fun a b => a.height.toNat < b.height.toNat) := by
  have hlt : (blocks.map fun b => b.height.toNat).Pairwise (· < ·) := by
    rw [h]
    exact List.pairwise_lt_range'
  exact List.pairwise_map.1 hlt

/-- Which heights are there. -/
theorem From.mem_iff {blocks : List (BlockDocument β)} {start : Nat} (h : From start blocks)
    (n : Nat) : (∃ b ∈ blocks, b.height.toNat = n) ↔ start ≤ n ∧ n < start + blocks.length := by
  rw [← List.mem_range'_1, ← h, List.mem_map]

/-- The height after the last block. -/
theorem From.getLast {blocks : List (BlockDocument β)} {start : Nat} (h : From start blocks)
    {last : BlockDocument β} (hlast : blocks.getLast? = some last) :
    last.height.toNat + 1 = start + blocks.length := by
  have hmap := congrArg List.getLast? h
  rw [List.getLast?_map, hlast, List.getLast?_range'] at hmap
  split at hmap
  · cases hmap
  · have heq := Option.some.inj hmap
    have hpos : 0 < blocks.length := by omega
    simp only at heq
    omega

/-- As many consecutive blocks as the range has heights start where the range does. -/
private theorem From.of_full {blocks : List (BlockDocument β)} {low : Nat}
    {startHeight endHeight : UInt64} (h : From low blocks) (hne : 0 < blocks.length)
    (hlow : startHeight.toNat ≤ low) (hhigh : ∀ b ∈ blocks, b.height.toNat ≤ endHeight.toNat)
    (hfits : endHeight.toNat + 1 - startHeight.toNat < 2 ^ 64)
    (hfull : UInt64.ofNat blocks.length = endHeight - startHeight + 1) :
    From startHeight.toNat blocks := by
  obtain ⟨last, hlast, hlastHeight⟩ := (h.mem_iff (low + blocks.length - 1)).2
    ⟨by omega, by omega⟩
  have hlastHigh := hhigh last hlast
  have hle : startHeight.toNat ≤ endHeight.toNat := by omega
  have hlen : blocks.length < UInt64.size := by
    show _ < 2 ^ 64
    omega
  have hnat := congrArg UInt64.toNat hfull
  rw [toNat_numBlocks hfits hle, UInt64.toNat_ofNat_of_lt' hlen] at hnat
  have hsame : low = startHeight.toNat := by omega
  exact hsame ▸ h

/-- Some row has this height. -/
def RowAt (rows : List (BlockDocument β)) (height : Nat) : Prop :=
  ∃ r ∈ rows, r.height.toNat = height

/-- The read returns the blocks from this height on: what it does not have from the cache is in
    the wrapped store. -/
def Serves (rows : List (BlockDocument β)) (start : UInt64) : CacheRead β → Prop
  | .done blocks => From start.toNat blocks
  | .getBlocks startHeight _ [] => startHeight = start ∧ RowAt rows start.toNat
  | .getBlocks startHeight endHeight (b :: bs) =>
    startHeight = start ∧ start.toNat ≤ b.height.toNat ∧
      endHeight.toNat + 1 = b.height.toNat ∧ From b.height.toNat (b :: bs) ∧
        ∀ n, start.toNat ≤ n → n < b.height.toNat → RowAt rows n
  | .getLatestBlocks _ | .mergeBlocks _ _ _ => False

theorem Serves.mono {rows rows' : List (BlockDocument β)} {start : UInt64} {read : CacheRead β}
    (h : Serves rows start read) (hsub : rows ⊆ rows') : Serves rows' start read := by
  have hrow : ∀ n, RowAt rows n → RowAt rows' n := fun n hn =>
    hn.imp fun r hr => ⟨hsub hr.1, hr.2⟩
  cases read with
  | getBlocks startHeight endHeight blocks =>
    cases blocks with
    | nil => exact ⟨h.1, hrow _ h.2⟩
    | cons b bs =>
      obtain ⟨hstart, hle, hend, hfrom, hrows⟩ := h
      exact ⟨hstart, hle, hend, hfrom, fun n hlo hhi => hrow n (hrows n hlo hhi)⟩
  | _ => exact h

/-- The second half of the read, on rows that have no gap. -/
theorem Serves.finish {wrappedStore : TimescaleBlockStore β} {start : UInt64} {read : CacheRead β}
    (h : Serves wrappedStore.rows start read)
    (hdense : RowAt wrappedStore.rows start.toNat → ∀ r ∈ wrappedStore.rows, ∀ n,
      start.toNat ≤ n → n ≤ r.height.toNat → RowAt wrappedStore.rows n) :
    From start.toNat (read.finish wrappedStore) := by
  cases read with
  | done blocks => exact h
  | getBlocks startHeight endHeight blocks =>
    have hsorted : (wrappedStore.getBlocks startHeight endHeight).Pairwise
        (fun a b => a.height.toNat < b.height.toNat) :=
      (wrappedStore.getBlocks_sorted _ _).imp UInt64.lt_iff_toNat_lt.1
    cases blocks with
    | nil =>
      obtain ⟨rfl, hrow⟩ := h
      simp only [CacheRead.finish, List.append_nil]
      apply from_of_dense hsorted
      · intro b hb
        exact (TimescaleBlockStore.mem_getBlocks.1 hb).2.1
      · intro b hb n hlo hhi
        obtain ⟨hmem, -, hend⟩ := TimescaleBlockStore.mem_getBlocks.1 hb
        obtain ⟨r, hr, rfl⟩ := hdense hrow b hmem n hlo hhi
        exact ⟨r, TimescaleBlockStore.mem_getBlocks.2 ⟨hr, hlo, by omega⟩, rfl⟩
    | cons first rest =>
      obtain ⟨rfl, hle, hend, hfrom, hrows⟩ := h
      have hmem : ∀ b, b ∈ first :: rest → first.height.toNat ≤ b.height.toNat := fun b hb =>
        ((hfrom.mem_iff _).1 ⟨b, hb, rfl⟩).1
      apply from_of_dense
      · simp only [CacheRead.finish]
        rw [List.pairwise_append]
        refine ⟨hsorted, hfrom.sorted, fun a ha b hb => ?_⟩
        have hlt := (TimescaleBlockStore.mem_getBlocks.1 ha).2.2
        have hle := hmem b hb
        omega
      · intro b hb
        cases List.mem_append.1 hb with
        | inl hb => exact (TimescaleBlockStore.mem_getBlocks.1 hb).2.1
        | inr hb => exact Nat.le_trans hle (hmem b hb)
      · intro b hb n hlo hhi
        by_cases hn : n < first.height.toNat
        · -- below the cached blocks everything is a row
          obtain ⟨r, hr, rfl⟩ := hrows n hlo hn
          have hle' : r.height.toNat ≤ endHeight.toNat := by omega
          have hrange := TimescaleBlockStore.mem_getBlocks.2 ⟨hr, hlo, hle'⟩
          exact ⟨r, List.mem_append_left _ hrange, rfl⟩
        · have hlast : b.height.toNat < first.height.toNat + (first :: rest).length := by
            cases List.mem_append.1 hb with
            | inl hb =>
              have hle := (TimescaleBlockStore.mem_getBlocks.1 hb).2.2
              omega
            | inr hb => exact ((hfrom.mem_iff _).1 ⟨b, hb, rfl⟩).2
          obtain ⟨c, hc, rfl⟩ := (hfrom.mem_iff n).2 ⟨by omega, by omega⟩
          exact ⟨c, List.mem_append_right _ hc, rfl⟩
  | getLatestBlocks limit => exact h.elim
  | mergeBlocks startHeight endHeight blocks => exact h.elim

end From

/-! ## The first half of the read -/

section Reads

variable {β : Type} [LinearOrder (BlockDocument β)]

/-- Between two cached heights of the range none is missing in the cache. -/
def NoGap (store : RedisBlockStore β) (startHeight endHeight : UInt64) : Prop :=
  ∀ a ∈ store.blocks, ∀ b ∈ store.blocks,
    startHeight ≤ a.height → a.height < b.height → b.height ≤ endHeight →
      ∃ c ∈ store.blocks, c.height = a.height + 1

instance (store : RedisBlockStore β) (startHeight endHeight : UInt64) :
    Decidable (NoGap store startHeight endHeight) :=
  inferInstanceAs (Decidable (∀ a ∈ store.blocks, ∀ b ∈ store.blocks,
    startHeight ≤ a.height → a.height < b.height → b.height ≤ endHeight →
      ∃ c ∈ store.blocks, c.height = a.height + 1))

/-- Below `2 ^ 53` a height is its own score. -/
theorem score_eq_self {height : UInt64} (h : height.toNat < 2 ^ 53) :
    score height = height.toNat :=
  Double.round_eq_self h

/-- Such heights are exact, and so they are together with any one height more. -/
theorem exact_of_lt {heights : List UInt64} (h : ∀ a ∈ heights, a.toNat < 2 ^ 53) (e : UInt64) :
    Exact (e :: heights) := by
  have hlarge : ∀ a ∈ heights, score a = score e → a = e := by
    intro a ha heq
    have ha' := h a ha
    rw [score_eq_self ha'] at heq
    by_cases he : e.toNat < 2 ^ 53
    · rw [score_eq_self he] at heq
      exact UInt64.toNat_inj.1 heq
    · -- a larger height has a larger score
      have hround : Double.round (2 ^ 53) = 2 ^ 53 := by decide
      have hmono : Double.round (2 ^ 53) ≤ score e := Double.round_mono (Nat.not_lt.1 he)
      omega
  intro a ha b hb heq
  cases List.mem_cons.1 ha with
  | inl ha =>
    cases List.mem_cons.1 hb with
    | inl hb => rw [ha, hb]
    | inr hb =>
      rw [ha] at heq ⊢
      exact (hlarge b hb heq.symm).symm
  | inr ha =>
    cases List.mem_cons.1 hb with
    | inl hb =>
      rw [hb] at heq ⊢
      exact hlarge a ha heq
    | inr hb =>
      rw [score_eq_self (h a ha), score_eq_self (h b hb)] at heq
      exact UInt64.toNat_inj.1 heq

/-- Cached blocks of the range, as long as heights below `2 ^ 53` have one payload each. -/
private theorem dirty_range {chain : UInt64 → β} {store : RedisBlockStore β}
    (hpayload : ∀ b ∈ store.blocks, b.data = chain b.height)
    (hbound : ∀ b ∈ store.blocks, b.height.toNat < 2 ^ 53) {startHeight endHeight : UInt64}
    (hstart : startHeight.toNat < 2 ^ 53) (hle : startHeight.toNat ≤ endHeight.toNat) :
    (store.getBlocks startHeight endHeight).Pairwise
        (fun a b => a.height.toNat < b.height.toNat) ∧
      ∀ b, b ∈ store.getBlocks startHeight endHeight ↔
        b ∈ store.blocks ∧ startHeight.toNat ≤ b.height.toNat ∧
          b.height.toNat ≤ endHeight.toNat := by
  have hheights : ∀ a ∈ startHeight :: store.blocks.map BlockDocument.height,
      a.toNat < 2 ^ 53 := by
    intro a ha
    cases List.mem_cons.1 ha with
    | inl ha => exact ha ▸ hstart
    | inr ha =>
      obtain ⟨b, hb, rfl⟩ := List.mem_map.1 ha
      exact hbound b hb
  have hexact := exact_of_lt hheights endHeight
  apply cached_range (List.Subset.refl _) (hexact.subset ?_) ?_ hle
  · intro a ha
    simp only [List.mem_cons] at ha ⊢
    exact or_left_comm.1 ha
  · intro a ha b hb hscore
    have hheight := hexact _ (List.mem_cons_of_mem _ (List.mem_cons_of_mem _
      (List.mem_map_of_mem ha))) _ (List.mem_cons_of_mem _ (List.mem_cons_of_mem _
      (List.mem_map_of_mem hb))) hscore
    have hdata : a.data = b.data := by rw [hpayload a ha, hpayload b hb, hheight]
    cases a
    cases b
    exact BlockDocument.mk.injEq .. ▸ ⟨hdata, hheight⟩

/-- Without a gap in the cache the blocks of a range start somewhere and go on from there. -/
private theorem from_dirty {store : RedisBlockStore β} {startHeight endHeight : UInt64}
    (hnoGap : NoGap store startHeight endHeight) {first : BlockDocument β}
    {rest : List (BlockDocument β)}
    (hsorted : (first :: rest).Pairwise (fun a b => a.height.toNat < b.height.toNat))
    (hmem : ∀ b, b ∈ first :: rest ↔ b ∈ store.blocks ∧
      startHeight.toNat ≤ b.height.toNat ∧ b.height.toNat ≤ endHeight.toNat) :
    From first.height.toNat (first :: rest) := by
  have hone : (1 : UInt64).toNat = 1 := rfl
  have hge : ∀ b ∈ first :: rest, first.height.toNat ≤ b.height.toNat := by
    intro b hb
    cases List.mem_cons.1 hb with
    | inl hb => rw [hb]
    | inr hb => exact Nat.le_of_lt ((List.pairwise_cons.1 hsorted).1 b hb)
  apply from_of_dense hsorted hge
  intro b hb n hlo hhi
  obtain ⟨hbin, hblo, hbhi⟩ := (hmem b).1 hb
  -- one height after the other, up from the first
  induction n with
  | zero => exact ⟨first, List.mem_cons_self, by omega⟩
  | succ n ih =>
    by_cases hfirst : first.height.toNat = n + 1
    · exact ⟨first, List.mem_cons_self, hfirst⟩
    · obtain ⟨a, ha, han⟩ := ih (by omega) (by omega)
      obtain ⟨hain, halo, -⟩ := (hmem a).1 ha
      have hlt : a.height < b.height := by
        rw [UInt64.lt_iff_toNat_lt]
        omega
      obtain ⟨c, hc, hcheight⟩ := hnoGap a hain b hbin (UInt64.le_iff_toNat_le.2 halo) hlt
        (UInt64.le_iff_toNat_le.2 hbhi)
      have hbsize := b.height.toNat_lt
      have hcn : c.height.toNat = n + 1 := by
        rw [hcheight, UInt64.toNat_add, hone, han]
        omega
      exact ⟨c, (hmem c).2 ⟨hc, by omega, by omega⟩, hcn⟩

/-- A read from a stored height on, of a range in which the cache has no gap. -/
theorem serves_readBlocks {chain : UInt64 → β} {store : RedisOptimizedBlockStore β}
    (hpayload : ∀ b ∈ store.redisStore.blocks, b.data = chain b.height) {put : UInt64 → Prop}
    (hput : ∀ x, put x ↔ ∃ r, store.Stored r ∧ r.height = x) (hcont : Contiguous put)
    (hbound : ∀ x, put x → 1 ≤ x.toNat ∧ x.toNat < 2 ^ 53) {start : UInt64} (hstart : put start)
    {maxBlocks : Int} (hmax : 1 ≤ maxBlocks) (hroom : start.toNat + maxBlocks ≤ 2 ^ 64)
    (hnoGap : NoGap store.redisStore start (start + UInt64.ofInt maxBlocks - 1)) :
    Serves store.wrappedStore.rows start
      (store.readBlocks start (start + UInt64.ofInt maxBlocks - 1)) := by
  have hone : (1 : UInt64).toNat = 1 := rfl
  obtain ⟨hstartPos, hstartLt⟩ := hbound start hstart
  have hend := toNat_endHeight hmax hroom
  generalize start + UInt64.ofInt maxBlocks - 1 = endHeight at hend hnoGap ⊢
  have hle : start.toNat ≤ endHeight.toNat := by omega
  have hcached : ∀ b ∈ store.redisStore.blocks, put b.height :=
    fun b hb => (hput _).2 ⟨b, .inl hb, rfl⟩
  obtain ⟨hsorted, hdirty⟩ := dirty_range hpayload (fun b hb => (hbound _ (hcached b hb)).2)
    hstartLt hle
  rw [readBlocks_eq (numBlocks_fits hstartPos _) hle]
  -- a stored height that is not cached is a row
  have hrow : ∀ x, put x → (∀ b ∈ store.redisStore.blocks, b.height ≠ x) →
      RowAt store.wrappedStore.rows x.toNat := by
    intro x hx hnot
    obtain ⟨r, hr, hheight⟩ := (hput x).1 hx
    exact ⟨r, hr.resolve_left fun hin => hnot r hin hheight, by rw [hheight]⟩
  cases hblocks : store.redisStore.getBlocks start endHeight with
  | nil =>
    rw [hblocks] at hdirty
    have hzero : ¬ UInt64.ofNat ([] : List (BlockDocument β)).length =
        endHeight - start + 1 := by
      intro heq
      apply numBlocks_pos (numBlocks_fits hstartPos _) hle
      rw [← heq]
      exact UInt64.le_refl _
    rw [if_neg hzero]
    refine ⟨rfl, hrow start hstart fun b hb heq => ?_⟩
    have hmem := (hdirty b).2 ⟨hb, by rw [heq], by rw [heq]; exact hle⟩
    cases hmem
  | cons first rest =>
    rw [hblocks] at hsorted hdirty
    obtain ⟨hfirstIn, hfirstLo, hfirstHi⟩ := (hdirty first).1 List.mem_cons_self
    have hfrom := from_dirty hnoGap hsorted hdirty
    split
    · next hfull =>
      -- as many blocks as heights, so the first one is at the start
      exact hfrom.of_full (Nat.succ_pos _) hfirstLo (fun b hb => ((hdirty b).1 hb).2.2)
        (numBlocks_fits hstartPos _) hfull
    · have hpred := toNat_pred first.height
      rw [if_neg (by omega)] at hpred
      refine ⟨rfl, hfirstLo, by omega, hfrom, fun n hlo hhi => ?_⟩
      have hfirstPut := hcached first hfirstIn
      have hn : (UInt64.ofNat n).toNat = n := by
        apply UInt64.toNat_ofNat_of_lt'
        show n < 2 ^ 64
        omega
      have hputN := hcont start first.height (UInt64.ofNat n) hstart hfirstPut
        (by omega) (by omega)
      have hrowN := hrow _ hputN fun b hb heq => ?_
      · rwa [hn] at hrowN
      · -- the first cached block of the range is above it
        have hbn : b.height.toNat = n := by rw [heq, hn]
        have hin := (hdirty b).2 ⟨hb, by omega, by omega⟩
        have hge := ((hfrom.mem_iff _).1 ⟨b, hin, rfl⟩).1
        omega

/-- The condition is needed: a read that answers the blocks from its first height on has met no
    gap, whatever the wrapped store holds. -/
theorem noGap_of_from {chain : UInt64 → β} {store : RedisOptimizedBlockStore β}
    (hpayload : ∀ b ∈ store.redisStore.blocks, b.data = chain b.height)
    (hbound : ∀ b ∈ store.redisStore.blocks, b.height.toNat < 2 ^ 53)
    {startHeight endHeight : UInt64} (hstart : 1 ≤ startHeight.toNat)
    (hlt : startHeight.toNat < 2 ^ 53) (hle : startHeight.toNat ≤ endHeight.toNat)
    {wrappedStore : TimescaleBlockStore β}
    (h : From startHeight.toNat ((store.readBlocks startHeight endHeight).finish wrappedStore)) :
    NoGap store.redisStore startHeight endHeight := by
  obtain ⟨hsorted, hdirty⟩ := dirty_range hpayload hbound hlt hle
  rw [finish_readBlocks (numBlocks_fits hstart _) hle] at h
  intro a ha b hb hlo hab hhi
  rw [UInt64.le_iff_toNat_le] at hlo hhi
  rw [UInt64.lt_iff_toNat_lt] at hab
  have haIn := (hdirty a).2 ⟨ha, hlo, by omega⟩
  have hbIn := (hdirty b).2 ⟨hb, by omega, hhi⟩
  cases hblocks : store.redisStore.getBlocks startHeight endHeight with
  | nil =>
    rw [hblocks] at haIn
    cases haIn
  | cons first rest =>
    rw [hblocks] at h hsorted hdirty haIn hbIn
    -- the height after `a` is answered, and not from the wrapped store
    have hnext : ∃ c ∈ first :: rest, c.height.toNat = a.height.toNat + 1 := by
      split at h
      · apply (h.mem_iff _).2
        have ha' := (h.mem_iff _).1 ⟨a, haIn, rfl⟩
        have hb' := (h.mem_iff _).1 ⟨b, hbIn, rfl⟩
        omega
      · have ha' := (h.mem_iff _).1 ⟨a, List.mem_append_right _ haIn, rfl⟩
        have hb' := (h.mem_iff _).1 ⟨b, List.mem_append_right _ hbIn, rfl⟩
        obtain ⟨c, hc, hheight⟩ := (h.mem_iff (a.height.toNat + 1)).2 (by omega)
        cases List.mem_append.1 hc with
        | inl hrow =>
          have hbelow := (TimescaleBlockStore.mem_getBlocks.1 hrow).2.2
          have hfirst := ((hdirty first).1 List.mem_cons_self).2.1
          have hge : first.height.toNat ≤ a.height.toNat := by
            cases List.mem_cons.1 haIn with
            | inl heq => rw [heq]
            | inr hin => exact Nat.le_of_lt ((List.pairwise_cons.1 hsorted).1 a hin)
          rw [UInt64.toNat_sub_of_le _ _ (UInt64.le_iff_toNat_le.2 (Nat.le_trans hstart hfirst))]
            at hbelow
          omega
        | inr hcached => exact ⟨c, hcached, hheight⟩
    obtain ⟨c, hc, hheight⟩ := hnext
    refine ⟨c, ((hdirty c).1 hc).1, UInt64.toNat_inj.1 ?_⟩
    rw [hheight, UInt64.toNat_add]
    show _ = (a.height.toNat + 1) % 2 ^ 64
    have hbound' := hbound a ha
    omega

end Reads

/-! ## What the flusher moves -/

section Moves

variable {β : Type} [LinearOrder (BlockDocument β)]

/-- The wrapped store, and the batch of the flusher on top of it, have no gap. -/
structure MoveInv (put : UInt64 → Prop) (s : StoreState Unit β) : Prop where
  /-- below a row everything is a row -/
  rows : ∀ r ∈ s.store.wrappedStore.rows, ∀ x, put x → x.toNat ≤ r.height.toNat →
    RowAt s.store.wrappedStore.rows x.toNat
  /-- below a block that the flusher carries everything is a row or carried as well -/
  carried : ∀ b ∈ s.held (), ∀ x, put x → x.toNat ≤ b.height.toNat →
    RowAt s.store.wrappedStore.rows x.toNat ∨ ∃ c ∈ s.held (), c.height = x

theorem moveInv_init (put : UInt64 → Prop) : MoveInv put (.init : StoreState Unit β) where
  rows := by simp [StoreState.init, RedisOptimizedBlockStore.empty]
  carried := by simp [StoreState.held, StoreState.init]

/-- From a row up to any other one everything is a row. -/
theorem MoveInv.dense {put : UInt64 → Prop} {s : StoreState Unit β} (h : MoveInv put s)
    (hcont : Contiguous put) (hrows : ∀ r ∈ s.store.wrappedStore.rows, put r.height)
    {start : Nat} (hstart : RowAt s.store.wrappedStore.rows start) {r : BlockDocument β}
    (hr : r ∈ s.store.wrappedStore.rows) {n : Nat} (hlo : start ≤ n) (hhi : n ≤ r.height.toNat) :
    RowAt s.store.wrappedStore.rows n := by
  obtain ⟨first, hfirst, rfl⟩ := hstart
  have hsize := r.height.toNat_lt
  have hn : (UInt64.ofNat n).toNat = n := by
    apply UInt64.toNat_ofNat_of_lt'
    show n < 2 ^ 64
    omega
  have hput := hcont first.height r.height (UInt64.ofNat n) (hrows first hfirst) (hrows r hr)
    (by omega) (by omega)
  have hrow := h.rows r hr _ hput (by omega)
  rwa [hn] at hrow

/-- New heights above all old ones are above everything that was moved. -/
theorem MoveInv.mono {put put' : UInt64 → Prop} {s : StoreState Unit β} (h : MoveInv put s)
    (hrows : ∀ r ∈ s.store.wrappedStore.rows, put r.height) (hheld : ∀ b ∈ s.held (), put b.height)
    (hnew : ∀ x y, put' x → put y → x.toNat ≤ y.toNat → put x) : MoveInv put' s where
  rows := fun r hr x hx hle => h.rows r hr x (hnew x _ hx (hrows r hr) hle) hle
  carried := fun b hb x hx hle => h.carried b hb x (hnew x _ hx (hheld b hb) hle) hle

/-- Every action of the block store keeps the invariant, where the stored heights have no gap. -/
theorem moveInv_step {put : UInt64 → Prop} {s s' : StoreState Unit β} {a : StoreAction Unit β}
    (hstep : s.step a = some s') (hcached : ∀ b ∈ s.held (), b ∈ s.store.redisStore.blocks)
    (hbound : ∀ b, s.store.Stored b → b.height.toNat < 2 ^ 53)
    (hstored : ∀ x, put x → ∀ b, s.store.Stored b → x.toNat ≤ b.height.toNat →
      ∃ c, s.store.Stored c ∧ c.height = x)
    (h : MoveInv put s) : MoveInv put s' := by
  cases a with
  | putBlocks bs =>
    rw [StoreState.step_putBlocks.1 hstep]
    exact ⟨h.rows, h.carried⟩
  | flushRead f t =>
    obtain ⟨-, rfl | rfl⟩ := StoreState.step_flushRead hstep
    · refine ⟨h.rows, ?_⟩
      simp only [StoreState.held, StoreState.flushers_setFlusher_self]
      intro b hb x hx hle
      have hin := RedisBlockStore.mem_of_mem_getEarliestBlocks hb
      obtain ⟨c, hc, rfl⟩ := hstored x hx b (.inl hin) hle
      cases hc with
      | inr hrow => exact .inl ⟨c, hrow, rfl⟩
      | inl hcache =>
        -- a cached block that was left behind is at or above all that were taken
        right
        by_cases hmem : c ∈ s.store.redisStore.getEarliestBlocks (flushThreshold t)
        · exact ⟨c, hmem, rfl⟩
        · have hscore := RedisBlockStore.score_le_of_mem_getEarliestBlocks hb hcache hmem
          rw [score_eq_self (hbound b (.inl hin)), score_eq_self (hbound c (.inl hcache))] at hscore
          exact ⟨b, hb, UInt64.toNat_inj.1 (by omega)⟩
    · exact h
  | flushInsert f =>
    obtain ⟨bs, hf, rfl⟩ := StoreState.step_flushInsert hstep
    have hheld : s.held () = bs := by simp only [StoreState.held, hf]
    have hcarried := h.carried
    rw [hheld] at hcarried
    have hold : ∀ n, RowAt s.store.wrappedStore.rows n →
        RowAt (s.store.wrappedStore.putBlocks bs).rows n := fun n hn =>
      hn.imp fun r hr => ⟨TimescaleBlockStore.mem_putBlocks_of_mem bs hr.1, hr.2⟩
    have hmoved : ∀ b ∈ bs, ∀ x, put x → x.toNat ≤ b.height.toNat →
        RowAt (s.store.wrappedStore.putBlocks bs).rows x.toNat := by
      intro b hb x hx hle
      cases hcarried b hb x hx hle with
      | inl hrow => exact hold _ hrow
      | inr hin =>
        obtain ⟨c, hc, rfl⟩ := hin
        have hrow : ∃ r ∈ (s.store.wrappedStore.putBlocks bs).rows, r.height = c.height :=
          TimescaleBlockStore.exists_height_putBlocks hc
        obtain ⟨r, hr, hheight⟩ := hrow
        exact ⟨r, hr, by rw [hheight]⟩
    constructor
    · intro r hr x hx hle
      cases TimescaleBlockStore.mem_putBlocks hr with
      | inl hr => exact hold _ (h.rows r hr x hx hle)
      | inr hr => exact hmoved r hr x hx hle
    · simp only [StoreState.held, StoreState.flushers_setFlusher_self]
      exact fun b hb x hx hle => .inl (hmoved b hb x hx hle)
  | flushDelete f =>
    obtain ⟨bs, -, rfl⟩ := StoreState.step_flushDelete hstep
    exact ⟨h.rows, by simp [StoreState.held, StoreState.setFlusher]⟩
  | flushCrash f =>
    rw [StoreState.step_flushCrash.1 hstep]
    exact ⟨h.rows, by simp [StoreState.held, StoreState.setFlusher]⟩

end Moves

end BlockFeed.Spec
