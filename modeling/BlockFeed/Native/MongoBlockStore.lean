import BlockFeed.Native.BlockStore

/-!
# The mongo block store

`MongoBlockStore` keeps the blocks of a chain in a collection with a unique index on the height.
`PutBlocks` is a bulk write of upserts that runs them in any order, so it is a relation between
collections: `Written types puts store` holds of every store that a sequence of calls may leave.

A `Query` is a reading call of `IBlockStore`. Every store has its `answer`, which is `none` when
the call returns an error.
-/

namespace BlockFeed.Native

/-- `mongostore.MongoBlockStore`: the documents of one chain in index order. -/
structure MongoBlockStore (β : Type) where
  documents : List (BlockDocument β)
  sorted : documents.Pairwise (fun a b => a.height < b.height)

namespace MongoBlockStore

variable {β : Type}

theorem sorted_nil : ([] : List (BlockDocument β)).Pairwise (fun a b => a.height < b.height) :=
  .nil

/-- The collection after `Init`. -/
def empty : MongoBlockStore β := ⟨[], sorted_nil⟩

/-- `UpdateOne` of the document of that height with `$set`, or its insertion. -/
def updateOne (block : BlockDocument β) : List (BlockDocument β) → List (BlockDocument β)
  | [] => [block]
  | d :: ds =>
    if block.height < d.height then block :: d :: ds
    else if block.height = d.height then block :: ds
    else d :: updateOne block ds

theorem mem_updateOne {b d : BlockDocument β} {documents : List (BlockDocument β)}
    (h : d ∈ updateOne b documents) : d = b ∨ d ∈ documents := by
  induction documents with
  | nil => exact .inl (List.mem_singleton.1 h)
  | cons d' ds ih =>
    simp only [updateOne] at h
    split at h
    · exact List.mem_cons.1 h
    · split at h
      · exact (List.mem_cons.1 h).imp_right (List.mem_cons_of_mem _)
      · cases List.mem_cons.1 h with
        | inl h => exact .inr (List.mem_cons.2 (.inl h))
        | inr h => exact (ih h).imp_right (List.mem_cons_of_mem _)

theorem mem_updateOne_self (b : BlockDocument β) (documents : List (BlockDocument β)) :
    b ∈ updateOne b documents := by
  induction documents with
  | nil => exact List.mem_singleton.2 rfl
  | cons d ds ih =>
    simp only [updateOne]
    split
    · exact List.mem_cons_self
    · split
      · exact List.mem_cons_self
      · exact List.mem_cons_of_mem _ ih

theorem mem_updateOne_of_ne {b d : BlockDocument β} {documents : List (BlockDocument β)}
    (h : d ∈ documents) (hne : d.height ≠ b.height) : d ∈ updateOne b documents := by
  induction documents with
  | nil => cases h
  | cons d' ds ih =>
    simp only [updateOne]
    split
    · exact List.mem_cons_of_mem _ h
    · split
      · next heq =>
        cases List.mem_cons.1 h with
        | inl h => exact absurd (h ▸ heq.symm) hne
        | inr h => exact List.mem_cons_of_mem _ h
      · cases List.mem_cons.1 h with
        | inl h => exact List.mem_cons.2 (.inl h)
        | inr h => exact List.mem_cons_of_mem _ (ih h)

theorem updateOne_sorted (b : BlockDocument β) {documents : List (BlockDocument β)}
    (h : documents.Pairwise (fun a b => a.height < b.height)) :
    (updateOne b documents).Pairwise (fun a b => a.height < b.height) := by
  induction documents with
  | nil => exact List.pairwise_singleton _ _
  | cons d ds ih =>
    obtain ⟨hd, hds⟩ := List.pairwise_cons.1 h
    simp only [updateOne]
    split
    · next hlt =>
      refine List.pairwise_cons.2 ⟨fun x hx => ?_, h⟩
      cases List.mem_cons.1 hx with
      | inl hx => rw [hx]; exact hlt
      | inr hx => exact UInt64.lt_trans hlt (hd x hx)
    · next hge =>
      split
      · next heq => exact List.pairwise_cons.2 ⟨fun x hx => heq ▸ hd x hx, hds⟩
      · next hne =>
        refine List.pairwise_cons.2 ⟨fun x hx => ?_, ih hds⟩
        cases mem_updateOne hx with
        | inl hx =>
          rw [hx]
          exact UInt64.lt_of_le_of_ne (UInt64.not_lt.1 hge) (Ne.symm hne)
        | inr hx => exact hd x hx

/-- The upserts of a bulk write, in the order in which they run. -/
def bulkWrite (store : MongoBlockStore β) (writes : List (BlockDocument β)) :
    MongoBlockStore β where
  documents := writes.foldl (fun documents b => updateOne b documents) store.documents
  sorted := by
    have hfold : ∀ (bs : List (BlockDocument β)) (documents : List (BlockDocument β)),
        documents.Pairwise (fun a b => a.height < b.height) →
        (bs.foldl (fun documents b => updateOne b documents) documents).Pairwise
          (fun a b => a.height < b.height) := by
      intro bs
      induction bs with
      | nil => exact fun _ h => h
      | cons b bs ih => exact fun documents h => ih _ (updateOne_sorted b h)
    exact hfold writes _ store.sorted

/-- Whether `PutBlocks` goes through: heights are encoded as signed integers of 64 bits, and the
    validator of the collection wants `Data` to be binData. Otherwise the transaction fails. -/
def takes (types : DataTypes β) (blocks : List (BlockDocument β)) : Bool :=
  blocks.all fun b => b.height.toNat < 2 ^ 63 && types.binData b.data

/-- `PutBlocks` when it goes through: the writes are unordered, so any order of them may have
    run. -/
def PutBlocks (store : MongoBlockStore β) (blocks : List (BlockDocument β))
    (store' : MongoBlockStore β) : Prop :=
  ∃ writes, List.Perm writes blocks ∧ store' = store.bulkWrite writes

/-- The collections that calls of `PutBlocks` may leave. -/
inductive Written (types : DataTypes β) :
    List (List (BlockDocument β)) → MongoBlockStore β → Prop where
  | nil : Written types [] empty
  | putBlocks {puts : List (List (BlockDocument β))} {store store' : MongoBlockStore β}
      {blocks : List (BlockDocument β)} (written : Written types puts store)
      (taken : takes types blocks) (put : store.PutBlocks blocks store') :
      Written types (puts ++ [blocks]) store'
  /-- the call returns an error -/
  | refused {puts : List (List (BlockDocument β))} {store : MongoBlockStore β}
      {blocks : List (BlockDocument β)} (written : Written types puts store)
      (refused : ¬ takes types blocks) : Written types (puts ++ [blocks]) store

/-- `GetBlocks`: the documents with `$gte` and `$lte`, sorted by height. -/
def getBlocks (store : MongoBlockStore β) (startHeight endHeight : UInt64) :
    List (BlockDocument β) :=
  if startHeight > endHeight then []
  else store.documents.filter (fun b => startHeight ≤ b.height ∧ b.height ≤ endHeight)

/-- `GetLatestBlocks`: sorted by descending height, with a limit. -/
def getLatestBlocks (store : MongoBlockStore β) (limit : Int) : List (BlockDocument β) :=
  if limit ≤ 0 then [] else store.documents.reverse.take limit.toNat

/-- `GetLatestBlock`: `FindOne` by descending height. -/
def getLatestBlock (store : MongoBlockStore β) : Option (BlockDocument β) :=
  store.documents.reverse.head?

private theorem bulkWrite_cons (store : MongoBlockStore β) (b : BlockDocument β)
    (bs : List (BlockDocument β)) :
    store.bulkWrite (b :: bs) =
      bulkWrite ⟨updateOne b store.documents, updateOne_sorted b store.sorted⟩ bs := rfl

/-- A bulk write stores only what it was given. -/
theorem mem_bulkWrite {store : MongoBlockStore β} {bs : List (BlockDocument β)}
    {d : BlockDocument β} (h : d ∈ (store.bulkWrite bs).documents) :
    d ∈ store.documents ∨ d ∈ bs := by
  induction bs generalizing store with
  | nil => exact .inl h
  | cons b bs ih =>
    rw [bulkWrite_cons] at h
    cases ih h with
    | inl h =>
      cases mem_updateOne h with
      | inl h => exact .inr (List.mem_cons.2 (.inl h))
      | inr h => exact .inl h
    | inr h => exact .inr (List.mem_cons_of_mem _ h)

/-- A document stays unless another one of its height is written. -/
theorem mem_bulkWrite_of_mem {store : MongoBlockStore β} {bs : List (BlockDocument β)}
    {d : BlockDocument β} (h : d ∈ store.documents)
    (hkeep : ∀ b ∈ bs, b.height = d.height → b = d) : d ∈ (store.bulkWrite bs).documents := by
  induction bs generalizing store with
  | nil => exact h
  | cons b bs ih =>
    rw [bulkWrite_cons]
    refine ih ?_ fun c hc => hkeep c (List.mem_cons_of_mem _ hc)
    by_cases heq : b.height = d.height
    · rw [← hkeep b List.mem_cons_self heq]
      exact mem_updateOne_self b _
    · exact mem_updateOne_of_ne h (Ne.symm heq)

/-- A written block is there, unless another one of its height is written too. -/
theorem mem_bulkWrite_of_written {store : MongoBlockStore β} {bs : List (BlockDocument β)}
    {d : BlockDocument β} (h : d ∈ bs) (hkeep : ∀ b ∈ bs, b.height = d.height → b = d) :
    d ∈ (store.bulkWrite bs).documents := by
  induction bs generalizing store with
  | nil => cases h
  | cons b bs ih =>
    rw [bulkWrite_cons]
    have hrest : ∀ c ∈ bs, c.height = d.height → c = d :=
      fun c hc => hkeep c (List.mem_cons_of_mem _ hc)
    cases List.mem_cons.1 h with
    | inl h =>
      rw [h]
      exact mem_bulkWrite_of_mem (mem_updateOne_self b _) (h ▸ hrest)
    | inr h => exact ih h hrest

/-- Only what was put by the calls that went through is stored. -/
theorem Written.mem_flatten {types : DataTypes β} {puts : List (List (BlockDocument β))}
    {store : MongoBlockStore β} (h : Written types puts store) {d : BlockDocument β}
    (hd : d ∈ store.documents) : d ∈ (puts.filter (takes types)).flatten := by
  induction h with
  | nil => cases hd
  | putBlocks written taken put ih =>
    obtain ⟨writes, hperm, rfl⟩ := put
    rw [List.filter_append, List.filter_cons_of_pos taken, List.filter_nil, List.flatten_append,
      List.mem_append]
    cases mem_bulkWrite hd with
    | inl hd => exact .inl (ih hd)
    | inr hd =>
      right
      rw [List.flatten_singleton]
      exact hperm.subset hd
  | refused written refused ih =>
    rw [List.filter_append, List.flatten_append]
    exact List.mem_append_left _ (ih hd)

/-- What was put by a call that went through is stored, unless another block of its height was. -/
theorem Written.mem_documents {types : DataTypes β} {puts : List (List (BlockDocument β))}
    {store : MongoBlockStore β} (h : Written types puts store) {d : BlockDocument β}
    (hd : d ∈ (puts.filter (takes types)).flatten)
    (hone : ∀ b ∈ (puts.filter (takes types)).flatten, b.height = d.height → b = d) :
    d ∈ store.documents := by
  induction h with
  | nil => cases hd
  | putBlocks written taken put ih =>
    obtain ⟨writes, hperm, rfl⟩ := put
    rw [List.filter_append, List.filter_cons_of_pos taken, List.filter_nil, List.flatten_append,
      List.flatten_singleton] at hd hone
    have hlast : ∀ b ∈ writes, b.height = d.height → b = d :=
      fun b hb => hone b (List.mem_append_right _ (hperm.subset hb))
    cases List.mem_append.1 hd with
    | inl hd =>
      exact mem_bulkWrite_of_mem (ih hd fun b hb => hone b (List.mem_append_left _ hb)) hlast
    | inr hd => exact mem_bulkWrite_of_written (hperm.symm.subset hd) hlast
  | refused written refused ih =>
    rw [List.filter_append, List.filter_cons_of_neg refused, List.filter_nil, List.append_nil]
      at hd hone
    exact ih hd hone

end MongoBlockStore

/-! ## The reading calls of `IBlockStore` -/

/-- A reading call. -/
inductive Query where
  | getBlocks (startHeight endHeight : UInt64)
  | getLatestBlocks (limit : Int)
  | getLatestBlock
deriving DecidableEq

section Answers

variable {β : Type}

/-- What Redis answers: it reads any height as a double. -/
def RedisBlockStore.answer [LinearOrder (BlockDocument β)] (store : RedisBlockStore β) :
    Query → Option (List (BlockDocument β))
  | .getBlocks startHeight endHeight => some (store.getBlocks startHeight endHeight)
  | .getLatestBlocks limit => some (store.getLatestBlocks limit)
  | .getLatestBlock => some store.getLatestBlock.toList

/-- What Timescale answers. -/
def TimescaleBlockStore.answer (store : TimescaleBlockStore β) :
    Query → Option (List (BlockDocument β))
  | .getBlocks startHeight endHeight =>
    if TimescaleBlockStore.Encodes startHeight endHeight then
      some (store.getBlocks startHeight endHeight)
    else none
  | .getLatestBlocks limit => some (store.getLatestBlocks limit)
  | .getLatestBlock => some store.getLatestBlock.toList

/-- What Mongo answers: a height is encoded as a signed integer of 64 bits. -/
def MongoBlockStore.answer (store : MongoBlockStore β) : Query → Option (List (BlockDocument β))
  | .getBlocks startHeight endHeight =>
    if startHeight ≤ endHeight ∧ 2 ^ 63 ≤ endHeight.toNat then none
    else some (store.getBlocks startHeight endHeight)
  | .getLatestBlocks limit => some (store.getLatestBlocks limit)
  | .getLatestBlock => some store.getLatestBlock.toList

end Answers

end BlockFeed.Native
