import BlockFeed.ForStd.Double
import BlockFeed.Redis.SortedSet
import Mathlib.Data.Prod.Lex

/-!
# Block stores

`BlockDocument` and the two stores that the services combine: `RedisBlockStore`, a sorted
set whose scores are heights converted to `float64`, and `TimescaleBlockStore`, a table with
the height as primary key. The calls are those of `IBlockStore` plus the two the flusher
uses, `getEarliestBlocks` and `deleteBlocks`.

A Redis member is the JSON text of a block. Encoding is injective and decoding inverts it,
so the model keeps the block itself; the byte order of the texts, which breaks ties between
equal scores, is the order instance on `BlockDocument`. Results are stated for any such
order.
-/

namespace BlockFeed.Native

/-- `blockstore.BlockDocument`. -/
structure BlockDocument (β : Type) where
  data : β
  height : UInt64
deriving DecidableEq, Repr

/-- What the columns of a block can have as its `Data`. -/
structure DataTypes (β : Type) where
  /-- TEXT NOT NULL in Postgres: UTF-8 without the byte 0, and not nil -/
  text : β → Bool
  /-- binData in Mongo: not nil, and not too long for a document -/
  binData : β → Bool

/-- The order of the texts `{"Data":...,"Height":...}` for data given by its own text and
    heights of one length. -/
instance BlockDocument.textOrder {β : Type} [LinearOrder β] : LinearOrder (BlockDocument β) :=
  LinearOrder.lift' (fun b => toLex (b.data, b.height.toNat)) (by
    intro a b h
    have h' := Prod.ext_iff.1 (toLex_inj.1 h)
    cases a
    cases b
    exact BlockDocument.mk.injEq .. ▸ ⟨h'.1, UInt64.toNat_inj.1 h'.2⟩)

/-- `float64(b.Height)`, also how Redis reads a height in a command. -/
def score (height : UInt64) : Nat := Double.round height.toNat

@[simp] theorem score_zero : score 0 = 0 := by decide

theorem score_mono {a b : UInt64} (h : a.toNat ≤ b.toNat) : score a ≤ score b :=
  Double.round_mono h

theorem lt_of_score_lt {a b : UInt64} (h : score a < score b) : a.toNat < b.toNat :=
  Double.lt_of_round_lt h

/-- Below height 0 is the greatest height there is. -/
theorem toNat_pred (height : UInt64) :
    (height - 1).toNat = if height.toNat = 0 then 2 ^ 64 - 1 else height.toNat - 1 := by
  have hlt := height.toNat_lt
  rw [UInt64.toNat_sub]
  show (2 ^ 64 - 1 + height.toNat) % 2 ^ 64 = _
  split <;> omega

-- a list of heights is searched itself, not all values of `UInt64`
instance (priority := 2000) decidableForallHeight (p : UInt64 → Prop) [DecidablePred p]
    (heights : List UInt64) : Decidable (∀ h ∈ heights, p h) :=
  heights.decidableBAll p

instance (priority := 2000) decidableExistsHeight (p : UInt64 → Prop) [DecidablePred p]
    (heights : List UInt64) : Decidable (∃ h ∈ heights, p h) :=
  heights.decidableBEx p

/-! ## RedisBlockStore -/

/-- `redistore.RedisBlockStore`: the sorted set of one chain. -/
structure RedisBlockStore (β : Type) [LinearOrder (BlockDocument β)] where
  set : Redis.SortedSet Nat (BlockDocument β)
  scored : ∀ e ∈ set.entries, e.1 = score e.2.height

namespace RedisBlockStore

variable {β : Type} [LinearOrder (BlockDocument β)]

/-- The key before the first ZADD. -/
def empty : RedisBlockStore β := ⟨.empty, by simp⟩

/-- The blocks in the order of the set. -/
def blocks (store : RedisBlockStore β) : List (BlockDocument β) := store.set.members

/-- `PutBlocks`: ZADD NX of every block under its height. -/
def putBlocks (store : RedisBlockStore β) (blocks : List (BlockDocument β)) :
    RedisBlockStore β where
  set := store.set.zaddNXAll (blocks.map fun b => (score b.height, b))
  scored := by
    intro e he
    rcases Redis.SortedSet.mem_entries_zaddNXAll he with h | h
    · exact store.scored e h
    · obtain ⟨b, _, rfl⟩ := List.mem_map.1 h
      rfl

/-- `GetBlocks`: ZRANGE BYSCORE, in ascending order. -/
def getBlocks (store : RedisBlockStore β) (startHeight endHeight : UInt64) :
    List (BlockDocument β) :=
  if startHeight > endHeight then []
  else (store.set.zrangeByScore (score startHeight) (score endHeight)).map Prod.snd

/-- `GetLatestBlocks`: the last `limit` members, reversed by `parseBlocks`. -/
def getLatestBlocks (store : RedisBlockStore β) (limit : Int) : List (BlockDocument β) :=
  if limit ≤ 0 then []
  else ((store.set.zrange (-limit) (-1)).map Prod.snd).reverse

/-- `GetLatestBlock`. -/
def getLatestBlock (store : RedisBlockStore β) : Option (BlockDocument β) :=
  (store.getLatestBlocks 1).head?

/-- `GetEarliestBlocks`: the first `limit` members. -/
def getEarliestBlocks (store : RedisBlockStore β) (limit : Int) : List (BlockDocument β) :=
  if limit ≤ 0 then []
  else (store.set.zrange 0 (limit - 1)).map Prod.snd

/-- `DeleteBlocks`: ZREM of the re-encoded members. -/
def deleteBlocks (store : RedisBlockStore β) (blocks : List (BlockDocument β)) :
    RedisBlockStore β where
  set := if blocks.isEmpty then store.set else store.set.zremAll blocks
  scored := by
    intro e he
    split at he
    · exact store.scored e he
    · exact store.scored e (Redis.SortedSet.mem_entries_zremAll.1 he).1

@[simp] theorem blocks_empty : (empty : RedisBlockStore β).blocks = [] := rfl

theorem mem_blocks {store : RedisBlockStore β} {b : BlockDocument β} :
    b ∈ store.blocks ↔ (score b.height, b) ∈ store.set.entries := by
  rw [blocks, Redis.SortedSet.mem_members]
  constructor
  · rintro ⟨a, ha⟩
    have hs := store.scored _ ha
    exact hs ▸ ha
  · exact fun h => ⟨_, h⟩

theorem mem_blocks_of_entry {store : RedisBlockStore β} {e : Nat × BlockDocument β}
    (h : e ∈ store.set.entries) : e.2 ∈ store.blocks :=
  Redis.SortedSet.mem_members_of_mem h

theorem mem_putBlocks {store : RedisBlockStore β} {bs : List (BlockDocument β)}
    {b : BlockDocument β} : b ∈ (store.putBlocks bs).blocks ↔ b ∈ store.blocks ∨ b ∈ bs := by
  simp [blocks, putBlocks, Redis.SortedSet.mem_members_zaddNXAll]

theorem mem_deleteBlocks {store : RedisBlockStore β} {bs : List (BlockDocument β)}
    {b : BlockDocument β} : b ∈ (store.deleteBlocks bs).blocks ↔ b ∈ store.blocks ∧ b ∉ bs := by
  cases bs with
  | nil => simp [blocks, deleteBlocks]
  | cons c cs => simp [blocks, deleteBlocks, Redis.SortedSet.mem_members_zremAll]

theorem mem_getBlocks {store : RedisBlockStore β} {s e : UInt64} {b : BlockDocument β} :
    b ∈ store.getBlocks s e ↔ b ∈ store.blocks ∧ s.toNat ≤ e.toNat ∧
      score s ≤ score b.height ∧ score b.height ≤ score e := by
  unfold getBlocks
  split
  · next h =>
    have : ¬ s.toNat ≤ e.toNat := Nat.not_le.2 (UInt64.lt_iff_toNat_lt.1 h)
    simp [this]
  · next h =>
    have hle : s.toNat ≤ e.toNat := Nat.not_lt.1 fun hlt => h (UInt64.lt_iff_toNat_lt.2 hlt)
    simp only [List.mem_map, Redis.SortedSet.mem_zrangeByScore]
    constructor
    · rintro ⟨⟨a, c⟩, ⟨hmem, hlo, hhi⟩, rfl⟩
      have hs : a = score c.height := store.scored _ hmem
      exact ⟨mem_blocks_of_entry hmem, hle, hs ▸ hlo, hs ▸ hhi⟩
    · rintro ⟨hmem, _, hlo, hhi⟩
      exact ⟨_, ⟨mem_blocks.1 hmem, hlo, hhi⟩, rfl⟩

/-- `GetBlocks` lists its blocks by ascending score. -/
theorem getBlocks_sorted (store : RedisBlockStore β) (s e : UInt64) :
    (store.getBlocks s e).Pairwise (fun a b => score a.height ≤ score b.height) := by
  unfold getBlocks
  split
  · exact .nil
  · refine List.pairwise_map.2 ?_
    refine (store.set.sorted.filter _).imp_of_mem fun {a b} ha hb hab => ?_
    rw [← store.scored a (List.mem_of_mem_filter ha), ← store.scored b (List.mem_of_mem_filter hb)]
    exact hab.score_le

theorem getBlocks_nodup (store : RedisBlockStore β) (s e : UInt64) :
    (store.getBlocks s e).Nodup := by
  unfold getBlocks
  split
  · exact .nil
  · exact store.set.nodup.sublist (List.filter_sublist.map _)

/-- `GetBlocks` keeps the order of the set. -/
theorem getBlocks_eq_filter (store : RedisBlockStore β) (s e : UInt64) :
    store.getBlocks s e = if s > e then [] else
      store.blocks.filter fun b => score s ≤ score b.height ∧ score b.height ≤ score e := by
  unfold getBlocks
  split
  · rfl
  · rw [blocks, Redis.SortedSet.members, List.filter_map]
    show ((store.set.entries.filter _).map _) = _
    refine congrArg _ (List.filter_congr fun a ha => ?_)
    rw [Function.comp_apply, store.scored a ha]

/-- The set is in the order of the scores. -/
theorem blocks_pairwise (store : RedisBlockStore β) :
    store.blocks.Pairwise (fun a b => score a.height ≤ score b.height) := by
  rw [blocks, Redis.SortedSet.members, List.pairwise_map]
  refine store.set.sorted.imp_of_mem fun {a b} ha hb hab => ?_
  rw [← store.scored a ha, ← store.scored b hb]
  exact hab.score_le

/-- With one block at each height, and heights that are their own scores, the set is in the order
    of the heights. -/
theorem blocks_sorted {store : RedisBlockStore β}
    (hscore : ∀ b ∈ store.blocks, score b.height = b.height.toNat)
    (hone : ∀ a ∈ store.blocks, ∀ b ∈ store.blocks, a.height = b.height → a = b) :
    store.blocks.Pairwise (fun a b => a.height < b.height) := by
  have hnd : store.blocks.Nodup := store.set.nodup
  refine (store.blocks_pairwise.and hnd).imp_of_mem fun {a b} ha hb hab => ?_
  -- the order of the scores is that of the heights, and no height is there twice
  have hle := hab.1
  rw [hscore a ha, hscore b hb] at hle
  have hne : a.height.toNat ≠ b.height.toNat :=
    fun heq => hab.2 (hone a ha b hb (UInt64.toNat_inj.1 heq))
  rw [UInt64.lt_iff_toNat_lt]
  omega

/-- `GetLatestBlocks` takes a suffix of the set, the highest block first. -/
theorem getLatestBlocks_eq (store : RedisBlockStore β) {limit : Int} (h : 0 < limit) :
    store.getLatestBlocks limit = store.blocks.reverse.take limit.toNat := by
  have hk : 0 < limit.toNat := by omega
  have hlim : (limit.toNat : Int) = limit := Int.toNat_of_nonneg (Int.le_of_lt h)
  rw [getLatestBlocks, if_neg (Int.not_le.2 h), ← hlim, store.set.zrange_last hk, Int.toNat_natCast,
    List.map_drop, blocks, Redis.SortedSet.members, List.take_reverse, List.length_map]

/-- `GetEarliestBlocks` takes a prefix of the set. -/
theorem getEarliestBlocks_eq (store : RedisBlockStore β) {limit : Int} (h : 0 < limit) :
    store.getEarliestBlocks limit = (store.set.entries.take limit.toNat).map Prod.snd := by
  have hk : 0 < limit.toNat := by omega
  have hlim : (limit.toNat : Int) = limit := Int.toNat_of_nonneg (Int.le_of_lt h)
  rw [getEarliestBlocks, if_neg (Int.not_le.2 h), ← store.set.zrange_first hk, hlim]

theorem mem_of_mem_getEarliestBlocks {store : RedisBlockStore β} {limit : Int}
    {b : BlockDocument β} (h : b ∈ store.getEarliestBlocks limit) : b ∈ store.blocks := by
  unfold getEarliestBlocks at h
  split at h
  · cases h
  · obtain ⟨e, he, rfl⟩ := List.mem_map.1 h
    exact mem_blocks_of_entry (store.set.zrange_subset _ _ he)

/-- What `GetEarliestBlocks` leaves out has at least the score of what it returns. -/
theorem score_le_of_mem_getEarliestBlocks {store : RedisBlockStore β} {limit : Int}
    {b c : BlockDocument β} (hb : b ∈ store.getEarliestBlocks limit) (hc : c ∈ store.blocks)
    (hc' : c ∉ store.getEarliestBlocks limit) : score b.height ≤ score c.height := by
  have hpos : 0 < limit := by
    by_contra hle
    rw [getEarliestBlocks, if_pos (Int.not_lt.1 hle)] at hb
    cases hb
  rw [getEarliestBlocks_eq store hpos] at hb hc'
  obtain ⟨e, he, rfl⟩ := List.mem_map.1 hb
  have hcmem := mem_blocks.1 hc
  have hprec := Redis.SortedSet.precedes_of_mem_take he hcmem
    (fun h => hc' (List.mem_map.2 ⟨_, h, rfl⟩))
  have hs := store.scored e (List.mem_of_mem_take he)
  exact hs ▸ hprec.score_le

/-- `GetLatestBlock` is the last member. -/
theorem getLatestBlock_eq (store : RedisBlockStore β) :
    store.getLatestBlock = store.set.entries.getLast?.map Prod.snd := by
  have h : store.getLatestBlocks 1 =
      ((store.set.entries.drop (store.set.entries.length - 1)).map Prod.snd).reverse := by
    rw [getLatestBlocks, if_neg (by decide), ← store.set.zrange_last Nat.one_pos]
    rfl
  rw [getLatestBlock, h, List.head?_reverse, List.getLast?_map]
  rcases List.eq_nil_or_concat store.set.entries with hnil | ⟨l, m, hl⟩
  · simp [hnil]
  · simp [hl]

theorem getLatestBlock_eq_none {store : RedisBlockStore β} :
    store.getLatestBlock = none ↔ store.blocks = [] := by
  simp [getLatestBlock_eq, blocks, Redis.SortedSet.members]

/-- `GetLatestBlock` returns a block of the greatest score. -/
theorem getLatestBlock_eq_some {store : RedisBlockStore β} {b : BlockDocument β}
    (h : store.getLatestBlock = some b) :
    b ∈ store.blocks ∧ ∀ c ∈ store.blocks, score c.height ≤ score b.height := by
  rw [getLatestBlock_eq, Option.map_eq_some_iff] at h
  obtain ⟨e, he, rfl⟩ := h
  have hmem := List.mem_of_getLast? he
  refine ⟨mem_blocks_of_entry hmem, fun c hc => ?_⟩
  have hle := Redis.SortedSet.score_le_getLast he (mem_blocks.1 hc)
  exact store.scored e hmem ▸ hle

end RedisBlockStore

/-! ## TimescaleBlockStore -/

/-- `timescalestore.TimescaleBlockStore`: the rows of one chain in key order. -/
structure TimescaleBlockStore (β : Type) where
  rows : List (BlockDocument β)
  sorted : rows.Pairwise (fun a b => a.height < b.height)

namespace TimescaleBlockStore

variable {β : Type}

/-- The table after `Init`. -/
def empty : TimescaleBlockStore β := ⟨[], .nil⟩

/-- Inserts a row at its place unless its key is taken. -/
def insertRow (b : BlockDocument β) : List (BlockDocument β) → List (BlockDocument β)
  | [] => [b]
  | r :: rs =>
    if b.height < r.height then b :: r :: rs
    else if b.height = r.height then r :: rs
    else r :: insertRow b rs

theorem mem_insertRow {b r : BlockDocument β} {rows : List (BlockDocument β)}
    (h : r ∈ insertRow b rows) : r = b ∨ r ∈ rows := by
  induction rows with
  | nil => exact .inl (List.mem_singleton.1 h)
  | cons r' rs ih =>
    simp only [insertRow] at h
    split at h
    · exact List.mem_cons.1 h
    · split at h
      · exact .inr h
      · rcases List.mem_cons.1 h with rfl | h
        · exact .inr List.mem_cons_self
        · exact (ih h).imp_right (List.mem_cons_of_mem _)

theorem insertRow_sorted (b : BlockDocument β) {rows : List (BlockDocument β)}
    (h : rows.Pairwise (fun a b => a.height < b.height)) :
    (insertRow b rows).Pairwise (fun a b => a.height < b.height) := by
  induction rows with
  | nil => exact List.pairwise_singleton _ _
  | cons r rs ih =>
    obtain ⟨hr, hrs⟩ := List.pairwise_cons.1 h
    simp only [insertRow]
    split
    · next hlt =>
      refine List.pairwise_cons.2 ⟨fun x hx => ?_, h⟩
      rcases List.mem_cons.1 hx with rfl | hx
      · exact hlt
      · exact UInt64.lt_trans hlt (hr x hx)
    · next hge =>
      split
      · exact h
      · next hne =>
        refine List.pairwise_cons.2 ⟨fun x hx => ?_, ih hrs⟩
        rcases mem_insertRow hx with rfl | hx
        · exact UInt64.lt_of_le_of_ne (UInt64.not_lt.1 hge) (Ne.symm hne)
        · exact hr x hx

/-- An insert stores its row exactly if the key is free. -/
theorem mem_insertRow_iff {b r : BlockDocument β} {rows : List (BlockDocument β)}
    (h : rows.Pairwise (fun a b => a.height < b.height)) :
    r ∈ insertRow b rows ↔ r ∈ rows ∨ r = b ∧ ∀ x ∈ rows, x.height ≠ b.height := by
  induction rows with
  | nil => simp [insertRow]
  | cons r' rs ih =>
    obtain ⟨hr, hrs⟩ := List.pairwise_cons.1 h
    simp only [insertRow]
    split
    · next hlt =>
      -- all keys are greater
      have hfree : ∀ x ∈ r' :: rs, x.height ≠ b.height := by
        intro x hx heq
        cases List.mem_cons.1 hx with
        | inl hx => exact UInt64.lt_irrefl _ (heq ▸ hx ▸ hlt)
        | inr hx => exact UInt64.lt_irrefl _ (heq ▸ UInt64.lt_trans hlt (hr x hx))
      rw [List.mem_cons, and_iff_left hfree]
      exact or_comm
    · split
      · next heq =>
        refine (or_iff_left ?_).symm
        rintro ⟨-, hfree⟩
        exact hfree r' List.mem_cons_self heq.symm
      · next hne =>
        rw [List.mem_cons, ih hrs, List.mem_cons, List.forall_mem_cons,
          and_iff_right (Ne.symm hne)]
        exact or_assoc.symm

theorem mem_insertRow_of_mem (b : BlockDocument β) {r : BlockDocument β}
    {rows : List (BlockDocument β)} (h : r ∈ rows) : r ∈ insertRow b rows := by
  induction rows with
  | nil => cases h
  | cons r' rs ih =>
    simp only [insertRow]
    split
    · exact List.mem_cons_of_mem _ h
    · split
      · exact h
      · rcases List.mem_cons.1 h with rfl | h
        · exact List.mem_cons_self
        · exact List.mem_cons_of_mem _ (ih h)

/-- After an insert the key is present, with the old row or the new one. -/
theorem exists_height_insertRow (b : BlockDocument β) (rows : List (BlockDocument β)) :
    ∃ r ∈ insertRow b rows, r.height = b.height := by
  induction rows with
  | nil => exact ⟨b, List.mem_singleton.2 rfl, rfl⟩
  | cons r' rs ih =>
    simp only [insertRow]
    split
    · exact ⟨b, List.mem_cons_self, rfl⟩
    · split
      · next heq => exact ⟨r', List.mem_cons_self, heq.symm⟩
      · obtain ⟨r, hr, hh⟩ := ih
        exact ⟨r, List.mem_cons_of_mem _ hr, hh⟩

/-- Whether `PutBlocks` goes through: each block takes two bind parameters of at most 65535, its
    height is encoded as INT, and its data as TEXT. Otherwise the transaction fails. -/
def takes (types : DataTypes β) (blocks : List (BlockDocument β)) : Bool :=
  blocks.length * 2 ≤ 65535 &&
    blocks.all fun b => b.height.toNat < 2 ^ 31 && types.text b.data

/-- `PutBlocks` when it goes through: one `INSERT ... ON CONFLICT ("block_height") DO NOTHING`. -/
def putBlocks (store : TimescaleBlockStore β) (blocks : List (BlockDocument β)) :
    TimescaleBlockStore β where
  rows := blocks.foldl (fun rows b => insertRow b rows) store.rows
  sorted := by
    have hfold : ∀ (bs : List (BlockDocument β)) (rows : List (BlockDocument β)),
        rows.Pairwise (fun a b => a.height < b.height) →
        (bs.foldl (fun rows b => insertRow b rows) rows).Pairwise
          (fun a b => a.height < b.height) := by
      intro bs
      induction bs with
      | nil => exact fun _ h => h
      | cons b bs ih => exact fun rows h => ih _ (insertRow_sorted b h)
    exact hfold blocks _ store.sorted

/-- `GetBlocks`: `WHERE "block_height" BETWEEN $1 AND $2 ORDER BY "block_height" ASC`. -/
def getBlocks (store : TimescaleBlockStore β) (startHeight endHeight : UInt64) :
    List (BlockDocument β) :=
  if startHeight > endHeight then []
  else store.rows.filter (fun b => startHeight ≤ b.height ∧ b.height ≤ endHeight)

/-- Whether `GetBlocks` has an answer: its bounds are encoded as INT, the type of `block_height`.
    An empty range makes no query. -/
def Encodes (startHeight endHeight : UInt64) : Prop :=
  startHeight > endHeight ∨ endHeight.toNat < 2 ^ 31

instance (startHeight endHeight : UInt64) : Decidable (Encodes startHeight endHeight) :=
  inferInstanceAs (Decidable (_ ∨ _))

/-- `GetLatestBlocks`: `ORDER BY "block_height" DESC LIMIT $1`. -/
def getLatestBlocks (store : TimescaleBlockStore β) (limit : Int) : List (BlockDocument β) :=
  if limit ≤ 0 then [] else store.rows.reverse.take limit.toNat

/-- `GetLatestBlock`. -/
def getLatestBlock (store : TimescaleBlockStore β) : Option (BlockDocument β) :=
  (store.getLatestBlocks 1).head?

@[simp] theorem rows_empty : (empty : TimescaleBlockStore β).rows = [] := rfl

private theorem putBlocks_cons (store : TimescaleBlockStore β) (b : BlockDocument β)
    (bs : List (BlockDocument β)) :
    store.putBlocks (b :: bs) =
      putBlocks ⟨insertRow b store.rows, insertRow_sorted b store.sorted⟩ bs := rfl

/-- `PutBlocks` writes only what it was given. -/
theorem mem_putBlocks {store : TimescaleBlockStore β} {bs : List (BlockDocument β)}
    {r : BlockDocument β} (h : r ∈ (store.putBlocks bs).rows) : r ∈ store.rows ∨ r ∈ bs := by
  induction bs generalizing store with
  | nil => exact .inl h
  | cons b bs ih =>
    rw [putBlocks_cons] at h
    rcases ih h with h | h
    · rcases mem_insertRow h with rfl | h
      · exact .inr List.mem_cons_self
      · exact .inl h
    · exact .inr (List.mem_cons_of_mem _ h)

/-- `PutBlocks` never removes or changes a row. -/
theorem mem_putBlocks_of_mem {store : TimescaleBlockStore β} (bs : List (BlockDocument β))
    {r : BlockDocument β} (h : r ∈ store.rows) : r ∈ (store.putBlocks bs).rows := by
  induction bs generalizing store with
  | nil => exact h
  | cons b bs ih =>
    rw [putBlocks_cons]
    exact ih (mem_insertRow_of_mem b h)

/-- After `PutBlocks` every height it was given has a row. -/
theorem exists_height_putBlocks {store : TimescaleBlockStore β} {bs : List (BlockDocument β)}
    {b : BlockDocument β} (h : b ∈ bs) :
    ∃ r ∈ (store.putBlocks bs).rows, r.height = b.height := by
  induction bs generalizing store with
  | nil => cases h
  | cons c bs ih =>
    rw [putBlocks_cons]
    rcases List.mem_cons.1 h with rfl | h
    · obtain ⟨r, hr, hh⟩ := exists_height_insertRow b store.rows
      exact ⟨r, mem_putBlocks_of_mem bs hr, hh⟩
    · exact ih h

theorem mem_getBlocks {store : TimescaleBlockStore β} {s e : UInt64} {b : BlockDocument β} :
    b ∈ store.getBlocks s e ↔
      b ∈ store.rows ∧ s.toNat ≤ b.height.toNat ∧ b.height.toNat ≤ e.toNat := by
  unfold getBlocks
  split
  · next h =>
    have hlt := UInt64.lt_iff_toNat_lt.1 h
    constructor
    · intro hb; cases hb
    · rintro ⟨-, hs, he⟩; omega
  · simp [UInt64.le_iff_toNat_le]

/-- `GetBlocks` is strictly ascending. -/
theorem getBlocks_sorted (store : TimescaleBlockStore β) (s e : UInt64) :
    (store.getBlocks s e).Pairwise (fun a b => a.height < b.height) := by
  unfold getBlocks
  split
  · exact .nil
  · exact store.sorted.filter _

/-- `GetLatestBlock` is the last row. -/
theorem getLatestBlock_eq (store : TimescaleBlockStore β) :
    store.getLatestBlock = store.rows.getLast? := by
  rw [getLatestBlock, getLatestBlocks, if_neg (by decide), ← List.head?_reverse]
  cases store.rows.reverse <;> rfl

theorem getLatestBlock_eq_none {store : TimescaleBlockStore β} :
    store.getLatestBlock = none ↔ store.rows = [] := by
  rw [getLatestBlock_eq, List.getLast?_eq_none_iff]

/-- `GetLatestBlock` returns the row of the greatest height. -/
theorem getLatestBlock_eq_some {store : TimescaleBlockStore β} {b : BlockDocument β}
    (h : store.getLatestBlock = some b) :
    b ∈ store.rows ∧ ∀ c ∈ store.rows, c.height.toNat ≤ b.height.toNat := by
  rw [getLatestBlock_eq] at h
  refine ⟨List.mem_of_getLast? h, fun c hc => ?_⟩
  obtain ⟨l, hl⟩ := List.getLast?_eq_some_iff.1 h
  have hs := store.sorted
  rw [hl] at hc hs
  rcases List.mem_append.1 hc with hc | hc
  · have hlt := (List.pairwise_append.1 hs).2.2 c hc b (List.mem_singleton.2 rfl)
    exact Nat.le_of_lt (UInt64.lt_iff_toNat_lt.1 hlt)
  · rw [List.mem_singleton.1 hc]

end TimescaleBlockStore

end BlockFeed.Native
