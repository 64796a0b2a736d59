import BlockFeed.Native.MongoBlockStore
import BlockFeed.Spec.GaplessReads

/-!
# One specification of the block stores

`IBlockStore` inserts "ignoring duplicates": a store is a map from heights to payloads in which the
first payload of a height stays (`firstPut`), and `AnswersQuery` says what a reading call returns of
such a map. Timescale implements it for the calls that go through. Redis takes every call, but keeps
two members when a height is put with two payloads, and Mongo the payload that it wrote last.

So the three stores give the specified answers exactly when each height is put with a single payload
and every block is put in a call that Timescale takes and in one that Mongo takes (`agree_iff`), and
then to all queries but the ones above the range of `block_height`.
-/

namespace BlockFeed.Spec

open BlockFeed.Native

section Specification

variable {β : Type}

/-- The payload that was put first for a height. -/
def firstPut (puts : List (List (BlockDocument β))) (height : UInt64) : Option β :=
  (puts.flatten.find? fun b => b.height = height).map BlockDocument.data

/-- What the latest `limit` blocks of a chain are. -/
structure AnswersLatest (chain : UInt64 → Option β) (limit : Nat) (bs : List (BlockDocument β)) :
    Prop where
  descending : bs.Pairwise (fun a b => b.height < a.height)
  stored : ∀ b ∈ bs, chain b.height = some b.data
  length_le : bs.length ≤ limit
  /-- a block is left out only below `limit` others -/
  complete : ∀ b, chain b.height = some b.data → b ∉ bs →
    bs.length = limit ∧ ∀ c ∈ bs, b.height < c.height

/-- What a reading call returns of a chain. -/
def AnswersQuery (chain : UInt64 → Option β) (bs : List (BlockDocument β)) : Query → Prop
  | .getBlocks startHeight endHeight =>
    bs.Pairwise (fun a b => a.height < b.height) ∧
      ∀ b, b ∈ bs ↔ chain b.height = some b.data ∧ startHeight ≤ b.height ∧ b.height ≤ endHeight
  | .getLatestBlocks limit => AnswersLatest chain limit.toNat bs
  | .getLatestBlock => AnswersLatest chain 1 bs

/-- A query whose bounds are in the range of `block_height`. An empty range is not asked for. -/
def Fits : Query → Prop
  | .getBlocks startHeight endHeight => TimescaleBlockStore.Encodes startHeight endHeight
  | .getLatestBlocks _ => True
  | .getLatestBlock => True

/-- No height is put with two payloads. -/
def OnePayload (puts : List (List (BlockDocument β))) : Prop :=
  ∀ a ∈ puts.flatten, ∀ b ∈ puts.flatten, a.height = b.height → a = b

/-- Every block is put in a call that the SQL and the document store take. -/
def PutByTaken (types : DataTypes β) (puts : List (List (BlockDocument β))) : Prop :=
  ∀ b ∈ puts.flatten, (∃ bs ∈ puts, b ∈ bs ∧ TimescaleBlockStore.takes types bs) ∧
    ∃ bs ∈ puts, b ∈ bs ∧ MongoBlockStore.takes types bs

theorem mem_flatten_filter {takes : List (BlockDocument β) → Bool}
    {puts : List (List (BlockDocument β))} {b : BlockDocument β} :
    b ∈ (puts.filter takes).flatten ↔ ∃ bs ∈ puts, b ∈ bs ∧ takes bs := by
  simp only [List.mem_flatten, List.mem_filter]
  constructor
  · rintro ⟨bs, ⟨hbs, htakes⟩, hb⟩
    exact ⟨bs, hbs, hb, htakes⟩
  · rintro ⟨bs, hbs, hb, htakes⟩
    exact ⟨bs, ⟨hbs, htakes⟩, hb⟩

theorem flatten_filter_subset (takes : List (BlockDocument β) → Bool)
    (puts : List (List (BlockDocument β))) : (puts.filter takes).flatten ⊆ puts.flatten :=
  List.filter_sublist.flatten.subset

theorem OnePayload.filter {puts : List (List (BlockDocument β))} (h : OnePayload puts)
    (takes : List (BlockDocument β) → Bool) : OnePayload (puts.filter takes) :=
  fun a ha b hb => h a (flatten_filter_subset _ _ ha) b (flatten_filter_subset _ _ hb)

theorem mem_of_firstPut {puts : List (List (BlockDocument β))} {b : BlockDocument β}
    (h : firstPut puts b.height = some b.data) : b ∈ puts.flatten := by
  obtain ⟨c, hc, hdata⟩ := Option.map_eq_some_iff.1 h
  have hheight : c.height = b.height := by simpa using List.find?_some hc
  have heq : c = b := by
    cases b
    cases c
    exact BlockDocument.mk.injEq .. ▸ ⟨hdata, hheight⟩
  exact heq ▸ List.mem_of_find?_eq_some hc

theorem exists_firstPut {puts : List (List (BlockDocument β))} {b : BlockDocument β}
    (h : b ∈ puts.flatten) :
    ∃ c ∈ puts.flatten, c.height = b.height ∧ firstPut puts b.height = some c.data := by
  have hsome : (puts.flatten.find? fun c => c.height = b.height).isSome :=
    List.find?_isSome.2 ⟨b, h, by simp⟩
  obtain ⟨c, hc⟩ := Option.isSome_iff_exists.1 hsome
  refine ⟨c, List.mem_of_find?_eq_some hc, by simpa using List.find?_some hc, ?_⟩
  rw [firstPut, hc]
  rfl

/-- With one payload for each height the first payload is the only one. -/
theorem firstPut_iff {puts : List (List (BlockDocument β))} (hone : OnePayload puts)
    {b : BlockDocument β} : firstPut puts b.height = some b.data ↔ b ∈ puts.flatten := by
  refine ⟨mem_of_firstPut, fun h => ?_⟩
  obtain ⟨c, hc, hheight, hfirst⟩ := exists_firstPut h
  rw [hfirst, hone c hc b h hheight]

/-- A list in the order of the heights that has the blocks of a chain gives the answers. -/
theorem answersLatest_take {chain : UInt64 → Option β} {l : List (BlockDocument β)}
    (hsorted : l.Pairwise (fun a b => a.height < b.height))
    (hmem : ∀ b, b ∈ l ↔ chain b.height = some b.data) (limit : Nat) :
    AnswersLatest chain limit (l.reverse.take limit) where
  descending := (List.pairwise_reverse.2 hsorted).sublist (List.take_sublist _ _)
  stored := fun b hb => (hmem b).1 (List.mem_reverse.1 (List.mem_of_mem_take hb))
  length_le := List.length_take_le _ _
  complete := by
    intro b hb hnot
    have hb : b ∈ l.reverse := List.mem_reverse.2 ((hmem b).2 hb)
    -- the block is in the part that the limit cuts off
    have hdrop : b ∈ l.reverse.drop limit := by
      rw [← List.take_append_drop limit l.reverse] at hb
      exact (List.mem_append.1 hb).resolve_left hnot
    constructor
    · have hpos := List.length_pos_of_mem hdrop
      rw [List.length_drop] at hpos
      rw [List.length_take]
      omega
    · intro c hc
      have hdesc := List.pairwise_reverse.2 hsorted
      rw [← List.take_append_drop limit l.reverse] at hdesc
      exact (List.pairwise_append.1 hdesc).2.2 c hc b hdrop

/-- Lists in the order of the heights are determined by their members. -/
theorem ascending_ext {l m : List (BlockDocument β)}
    (hl : l.Pairwise (fun a b => a.height < b.height))
    (hm : m.Pairwise (fun a b => a.height < b.height)) (h : ∀ b, b ∈ l ↔ b ∈ m) : l = m := by
  have hne : ∀ {a b : BlockDocument β}, a.height < b.height → a ≠ b :=
    fun hlt heq => UInt64.lt_irrefl _ (heq ▸ hlt)
  have hperm : l.Perm m := (List.perm_ext_iff_of_nodup (hl.imp hne) (hm.imp hne)).2 h
  exact hperm.eq_of_pairwise (fun a b _ _ hab hba => absurd hba (UInt64.lt_asymm hab)) hl hm

end Specification

/-! ## Timescale implements it -/

section Timescale

variable {β : Type}

private theorem firstPut_cons (c : BlockDocument β) (bs : List (BlockDocument β)) (h : UInt64) :
    firstPut [c :: bs] h = if c.height = h then some c.data else firstPut [bs] h := by
  simp only [firstPut, List.flatten_singleton, List.find?_cons]
  by_cases heq : c.height = h <;> simp [heq]

/-- What a call leaves: the rows that were there, and the first block for each free key. -/
private theorem mem_foldl_insertRow (bs : List (BlockDocument β)) :
    ∀ {rows : List (BlockDocument β)}, rows.Pairwise (fun a b => a.height < b.height) →
      ∀ b, b ∈ bs.foldl (fun rows b => TimescaleBlockStore.insertRow b rows) rows ↔
        b ∈ rows ∨ (∀ r ∈ rows, r.height ≠ b.height) ∧ firstPut [bs] b.height = some b.data := by
  induction bs with
  | nil => intro rows _ b; simp [firstPut]
  | cons c bs ih =>
    intro rows hrows b
    rw [List.foldl_cons, ih (TimescaleBlockStore.insertRow_sorted c hrows),
      TimescaleBlockStore.mem_insertRow_iff hrows, firstPut_cons]
    by_cases heq : c.height = b.height
    · -- the key of `b` is taken from now on
      have htaken : ¬ ∀ r ∈ TimescaleBlockStore.insertRow c rows, r.height ≠ b.height := by
        obtain ⟨r, hr, hheight⟩ := TimescaleBlockStore.exists_height_insertRow c rows
        exact fun hfree => hfree r hr (hheight.trans heq)
      have hsame : b = c ↔ c.data = b.data := by
        cases b
        cases c
        simp only [BlockDocument.mk.injEq]
        exact ⟨fun h => h.1.symm, fun h => ⟨h.symm, heq.symm⟩⟩
      rw [if_pos heq, Option.some.injEq, ← hsame, heq]
      constructor
      · rintro ((hrow | ⟨hb, hfree⟩) | ⟨hfree, -⟩)
        · exact .inl hrow
        · exact .inr ⟨hfree, hb⟩
        · exact absurd hfree htaken
      · rintro (hrow | ⟨hfree, hb⟩)
        · exact .inl (.inl hrow)
        · exact .inl (.inr ⟨hb, hfree⟩)
    · -- it is as free as before
      have hbc : b ≠ c := fun h => heq (h ▸ rfl)
      have hfree : (∀ r ∈ TimescaleBlockStore.insertRow c rows, r.height ≠ b.height) ↔
          ∀ r ∈ rows, r.height ≠ b.height := by
        constructor
        · exact fun h r hr => h r (TimescaleBlockStore.mem_insertRow_of_mem c hr)
        · intro h r hr
          cases TimescaleBlockStore.mem_insertRow hr with
          | inl hr => exact hr ▸ heq
          | inr hr => exact h r hr
      rw [if_neg heq, hfree]
      simp only [hbc, false_and, or_false]

/-- The table after a sequence of calls, of which some return an error. -/
def timescaleAfter (types : DataTypes β) (puts : List (List (BlockDocument β))) :
    TimescaleBlockStore β :=
  puts.foldl (fun store blocks =>
    if TimescaleBlockStore.takes types blocks then store.putBlocks blocks else store) .empty

/-- The rows are the map of the first payloads that went through. -/
theorem mem_timescaleAfter {types : DataTypes β} {puts : List (List (BlockDocument β))}
    {b : BlockDocument β} : b ∈ (timescaleAfter types puts).rows ↔
      firstPut (puts.filter (TimescaleBlockStore.takes types)) b.height = some b.data := by
  have hrows : ∀ (puts : List (List (BlockDocument β))) (store : TimescaleBlockStore β),
      (puts.foldl TimescaleBlockStore.putBlocks store).rows =
        puts.flatten.foldl (fun rows b => TimescaleBlockStore.insertRow b rows) store.rows := by
    intro puts
    induction puts with
    | nil => exact fun _ => rfl
    | cons bs puts ih =>
      intro store
      rw [List.foldl_cons, ih, List.flatten_cons, List.foldl_append]
      rfl
  rw [timescaleAfter, ← List.foldl_filter, hrows,
    mem_foldl_insertRow _ TimescaleBlockStore.empty.sorted]
  simp [firstPut]

/-- A list of the stored blocks in the order of the heights, read as the stores read it. -/
def readSorted (l : List (BlockDocument β)) : Query → List (BlockDocument β)
  | .getBlocks startHeight endHeight =>
    if startHeight > endHeight then []
    else l.filter (fun b => startHeight ≤ b.height ∧ b.height ≤ endHeight)
  | .getLatestBlocks limit => if limit ≤ 0 then [] else l.reverse.take limit.toNat
  | .getLatestBlock => l.reverse.take 1

theorem answersQuery_readSorted {chain : UInt64 → Option β} {l : List (BlockDocument β)}
    (hsorted : l.Pairwise (fun a b => a.height < b.height))
    (hmem : ∀ b, b ∈ l ↔ chain b.height = some b.data) (q : Query) :
    AnswersQuery chain (readSorted l q) q := by
  cases q with
  | getBlocks startHeight endHeight =>
    simp only [readSorted]
    split
    · next hgt =>
      refine ⟨.nil, fun b => iff_of_false List.not_mem_nil ?_⟩
      rintro ⟨-, hlo, hhi⟩
      exact UInt64.lt_irrefl _ (UInt64.lt_of_lt_of_le hgt (UInt64.le_trans hlo hhi))
    · refine ⟨hsorted.filter _, fun b => ?_⟩
      rw [List.mem_filter, hmem, decide_eq_true_eq]
  | getLatestBlocks limit =>
    have hread : readSorted l (.getLatestBlocks limit) = l.reverse.take limit.toNat := by
      simp only [readSorted]
      split
      · next hle => rw [Int.toNat_of_nonpos hle, List.take_zero]
      · rfl
    rw [hread]
    exact answersLatest_take hsorted hmem _
  | getLatestBlock => exact answersLatest_take hsorted hmem 1

/-- Timescale answers a query that fits from its rows, and no other. -/
theorem timescale_answer {store : TimescaleBlockStore β} {q : Query} {bs : List (BlockDocument β)} :
    store.answer q = some bs ↔ Fits q ∧ readSorted store.rows q = bs := by
  cases q with
  | getBlocks startHeight endHeight =>
    simp only [TimescaleBlockStore.answer, Fits]
    split
    · next hin =>
      rw [Option.some.injEq, and_iff_right hin]
      rfl
    · next hout => exact iff_of_false (by simp) fun h => hout h.1
  | getLatestBlocks limit =>
    rw [TimescaleBlockStore.answer, Option.some.injEq]
    exact (and_iff_right trivial).symm
  | getLatestBlock =>
    rw [TimescaleBlockStore.answer, Option.some.injEq, store.getLatestBlock_eq,
      ← List.head?_reverse, ← List.take_one]
    exact (and_iff_right trivial).symm

end Timescale

/-! ## The other stores -/

section Stores

variable {β : Type} [LinearOrder (BlockDocument β)]

/-- The sorted set after a sequence of calls. -/
def redisAfter (puts : List (List (BlockDocument β))) : RedisBlockStore β :=
  puts.foldl RedisBlockStore.putBlocks .empty

/-- Every different block that was put is a member. -/
theorem mem_redisAfter {puts : List (List (BlockDocument β))} {b : BlockDocument β} :
    b ∈ (redisAfter puts).blocks ↔ b ∈ puts.flatten := by
  have hblocks : ∀ (puts : List (List (BlockDocument β))) (store : RedisBlockStore β),
      b ∈ (puts.foldl RedisBlockStore.putBlocks store).blocks ↔
        b ∈ store.blocks ∨ b ∈ puts.flatten := by
    intro puts
    induction puts with
    | nil => intro store; simp
    | cons bs puts ih =>
      intro store
      rw [List.foldl_cons, ih, RedisBlockStore.mem_putBlocks, List.flatten_cons, List.mem_append,
        or_assoc]
  rw [redisAfter, hblocks, RedisBlockStore.blocks_empty]
  simp

/-- Redis gives the answers of its members if they are in the order of the heights. -/
theorem redis_answer {store : RedisBlockStore β} {q : Query}
    (hint : ∀ b ∈ store.blocks, b.height.toNat < 2 ^ 31) (hfits : Fits q) :
    store.answer q = some (readSorted store.blocks q) := by
  have hscore : ∀ b ∈ store.blocks, score b.height = b.height.toNat := by
    intro b hb
    have hlt := hint b hb
    exact score_eq_self (by omega)
  cases q with
  | getBlocks startHeight endHeight =>
    simp only [RedisBlockStore.answer, store.getBlocks_eq_filter, readSorted]
    split
    · rfl
    · next hle =>
      have hend : endHeight.toNat < 2 ^ 31 := hfits.resolve_left hle
      have hstart : startHeight.toNat ≤ endHeight.toNat :=
        UInt64.le_iff_toNat_le.1 (UInt64.not_lt.1 hle)
      refine congrArg some (List.filter_congr fun b hb => ?_)
      rw [hscore b hb, score_eq_self (show startHeight.toNat < 2 ^ 53 by omega),
        score_eq_self (show endHeight.toNat < 2 ^ 53 by omega)]
      simp only [UInt64.le_iff_toNat_le]
  | getLatestBlocks limit =>
    simp only [RedisBlockStore.answer, readSorted]
    split
    · next hle => rw [RedisBlockStore.getLatestBlocks, if_pos hle]
    · next hpos => rw [store.getLatestBlocks_eq (Int.not_le.1 hpos)]
  | getLatestBlock =>
    have hlatest : store.getLatestBlock = (store.blocks.reverse.take 1).head? := by
      rw [RedisBlockStore.getLatestBlock, store.getLatestBlocks_eq (by decide)]
      rfl
    rw [RedisBlockStore.answer, hlatest, readSorted, List.take_one]
    cases store.blocks.reverse <;> rfl

omit [LinearOrder (BlockDocument β)] in
/-- Mongo answers from its documents. -/
theorem mongo_answer {store : MongoBlockStore β} {q : Query} (hfits : Fits q) :
    store.answer q = some (readSorted store.documents q) := by
  cases q with
  | getBlocks startHeight endHeight =>
    have hin : ¬ (startHeight ≤ endHeight ∧ 2 ^ 63 ≤ endHeight.toNat) := by
      rintro ⟨hle, hout⟩
      cases hfits with
      | inl hgt => exact UInt64.not_lt.2 hle hgt
      | inr hlt => omega
    rw [MongoBlockStore.answer, if_neg hin]
    rfl
  | getLatestBlocks limit => rfl
  | getLatestBlock => rw [MongoBlockStore.answer, readSorted, List.take_one]; rfl

/-- All three stores give one answer, the specified one. -/
def Agree (types : DataTypes β) (puts : List (List (BlockDocument β))) (mongo : MongoBlockStore β)
    (q : Query) : Prop :=
  ∃ bs, AnswersQuery (firstPut puts) bs q ∧ (redisAfter puts).answer q = some bs ∧
    (timescaleAfter types puts).answer q = some bs ∧ mongo.answer q = some bs

section Agree

variable {types : DataTypes β} {puts : List (List (BlockDocument β))} {mongo : MongoBlockStore β}

/-- Stores that agree have put each block once, and all of them. -/
theorem onePayload_of_agree (hint : ∀ b ∈ puts.flatten, b.height.toNat < 2 ^ 31)
    (hmongo : MongoBlockStore.Written types puts mongo)
    (hagree : ∀ q, Fits q → Agree types puts mongo q) :
    OnePayload puts ∧ PutByTaken types puts := by
  -- Redis returns every block that was put for its height
  have hmem : ∀ height : UInt64, height.toNat < 2 ^ 31 →
      ∃ bs : List (BlockDocument β), bs.Pairwise (fun a b => a.height < b.height) ∧
        (∀ c ∈ puts.flatten, c.height = height → c ∈ bs) ∧
        (timescaleAfter types puts).answer (.getBlocks height height) = some bs ∧
        mongo.answer (.getBlocks height height) = some bs := by
    intro height hlt
    obtain ⟨bs, ⟨hsorted, -⟩, hredis, htimescale, hdocuments⟩ :=
      hagree (.getBlocks height height) (.inr hlt)
    have hget : bs = (redisAfter puts).getBlocks height height := (Option.some.inj hredis).symm
    refine ⟨bs, hsorted, fun c hc hheight => ?_, htimescale, hdocuments⟩
    rw [hget, RedisBlockStore.mem_getBlocks, hheight]
    exact ⟨mem_redisAfter.2 hc, Nat.le_refl _, Nat.le_refl _, Nat.le_refl _⟩
  constructor
  · intro a ha b hb heq
    obtain ⟨bs, hsorted, hin, -, -⟩ := hmem a.height (hint a ha)
    -- but the specified answer has one block at each height
    have hne : ∀ {c d : BlockDocument β}, c.height < d.height → c.height ≠ d.height :=
      fun hlt heq => UInt64.lt_irrefl _ (heq ▸ hlt)
    have hone : ∀ ⦃c⦄, c ∈ bs → ∀ ⦃d⦄, d ∈ bs → c.height = d.height → c = d :=
      List.Pairwise.forall_of_forall_of_flip (fun _ _ _ => rfl)
        (hsorted.imp fun hlt heq => absurd heq (hne hlt))
        (hsorted.imp fun hlt heq => absurd heq.symm (hne hlt))
    exact hone (hin a ha rfl) (hin b hb heq.symm) heq
  · -- and the other two can only return what a call has left with them
    intro b hb
    obtain ⟨bs, -, hin, htimescale, hdocuments⟩ := hmem b.height (hint b hb)
    obtain ⟨hfits, hrow⟩ := timescale_answer.1 htimescale
    rw [mongo_answer hfits, Option.some.injEq] at hdocuments
    have hbs := hin b hb rfl
    have hread : ∀ {l : List (BlockDocument β)},
        b ∈ readSorted l (.getBlocks b.height b.height) → b ∈ l := by
      intro l hl
      simp only [readSorted, if_neg (UInt64.lt_irrefl _)] at hl
      exact List.mem_of_mem_filter hl
    constructor
    · have hmemRow := hread (hrow ▸ hbs)
      exact mem_flatten_filter.1 (mem_of_firstPut (mem_timescaleAfter.1 hmemRow))
    · exact mem_flatten_filter.1 (hmongo.mem_flatten (hread (hdocuments ▸ hbs)))

/-- All stores hold the same list. -/
theorem same_blocks (hint : ∀ b ∈ puts.flatten, b.height.toNat < 2 ^ 31)
    (hmongo : MongoBlockStore.Written types puts mongo) (hone : OnePayload puts)
    (htaken : PutByTaken types puts) :
    (∀ b, b ∈ (timescaleAfter types puts).rows ↔ firstPut puts b.height = some b.data) ∧
      (redisAfter puts).blocks = (timescaleAfter types puts).rows ∧
      mongo.documents = (timescaleAfter types puts).rows := by
  have hmemRows : ∀ b, b ∈ (timescaleAfter types puts).rows ↔ b ∈ puts.flatten := by
    intro b
    rw [mem_timescaleAfter, firstPut_iff (hone.filter _)]
    exact ⟨fun hb => flatten_filter_subset _ _ hb,
      fun hb => mem_flatten_filter.2 (htaken b hb).1⟩
  have hrows := (timescaleAfter types puts).sorted
  refine ⟨fun b => (hmemRows b).trans (firstPut_iff hone).symm, ?_, ?_⟩
  · refine ascending_ext (RedisBlockStore.blocks_sorted ?_ ?_) hrows fun b => ?_
    · intro b hb
      have hlt := hint b (mem_redisAfter.1 hb)
      exact score_eq_self (by omega)
    · intro a ha b hb
      exact hone a (mem_redisAfter.1 ha) b (mem_redisAfter.1 hb)
    · rw [mem_redisAfter, hmemRows]
  · refine ascending_ext mongo.sorted hrows fun b => ?_
    rw [hmemRows]
    constructor
    · exact fun hb => flatten_filter_subset _ _ (hmongo.mem_flatten hb)
    · intro hb
      apply hmongo.mem_documents (mem_flatten_filter.2 (htaken b hb).2)
      exact fun c hc heq => hone c (flatten_filter_subset _ _ hc) b hb heq

end Agree

/-- The stores implement the specification, for the queries that fit, exactly if no height is put
    with two payloads and every block is put in calls that the stores take. -/
theorem agree_iff {types : DataTypes β} {puts : List (List (BlockDocument β))}
    {mongo : MongoBlockStore β} (hint : ∀ b ∈ puts.flatten, b.height.toNat < 2 ^ 31)
    (hmongo : MongoBlockStore.Written types puts mongo) :
    (∀ q, Agree types puts mongo q ↔ Fits q) ↔ OnePayload puts ∧ PutByTaken types puts := by
  constructor
  · intro hagree
    exact onePayload_of_agree hint hmongo fun q => (hagree q).2
  · rintro ⟨hone, htaken⟩ q
    obtain ⟨hmem, hredis, hdocuments⟩ := same_blocks hint hmongo hone htaken
    constructor
    · rintro ⟨bs, -, -, htimescale, -⟩
      exact (timescale_answer.1 htimescale).1
    · intro hfits
      refine ⟨readSorted (timescaleAfter types puts).rows q,
        answersQuery_readSorted (timescaleAfter types puts).sorted hmem q, ?_,
        timescale_answer.2 ⟨hfits, rfl⟩, ?_⟩
      · rw [redis_answer (fun b hb => hint b (mem_redisAfter.1 hb)) hfits, hredis]
      · rw [mongo_answer hfits, hdocuments]

end Stores

/-- Payloads as numbers, of which 0 stands for nil. -/
def numbered : DataTypes Nat := ⟨fun d => d != 0, fun d => d != 0⟩

/-- Two calls that overlap in block 5. -/
def overlappingPuts : List (List (BlockDocument Nat)) :=
  [[⟨14, 4⟩, ⟨15, 5⟩], [⟨16, 6⟩, ⟨15, 5⟩]]

/-- Mongo runs the writes of both calls from the last one to the first. -/
def overlappingMongo : MongoBlockStore Nat :=
  (MongoBlockStore.empty.bulkWrite [⟨15, 5⟩, ⟨14, 4⟩]).bulkWrite [⟨15, 5⟩, ⟨16, 6⟩]

/-- The stores agree on every query after these calls. -/
theorem agree_overlappingPuts :
    OnePayload overlappingPuts ∧
      ∀ q, Agree numbered overlappingPuts overlappingMongo q ↔ Fits q := by
  have hone : OnePayload overlappingPuts := by unfold OnePayload; decide
  have hfirst : MongoBlockStore.Written numbered [[(⟨14, 4⟩ : BlockDocument Nat), ⟨15, 5⟩]]
      (MongoBlockStore.empty.bulkWrite [⟨15, 5⟩, ⟨14, 4⟩]) :=
    .putBlocks .nil (by decide) ⟨_, List.Perm.swap _ _ _, rfl⟩
  have hmongo : MongoBlockStore.Written numbered overlappingPuts overlappingMongo :=
    hfirst.putBlocks (by decide) ⟨_, List.Perm.swap _ _ _, rfl⟩
  have htaken : PutByTaken numbered overlappingPuts := by unfold PutByTaken; decide
  exact ⟨hone, (agree_iff (by decide) hmongo).2 ⟨hone, htaken⟩⟩

/-- Block 5 and, after a reorganisation, another block 5. -/
def reorganisedPuts : List (List (BlockDocument Nat)) := [[⟨10, 5⟩], [⟨11, 5⟩]]

/-- Mongo after both calls. -/
def reorganisedMongo : MongoBlockStore Nat :=
  (MongoBlockStore.empty.bulkWrite [⟨10, 5⟩]).bulkWrite [⟨11, 5⟩]

/-- Redis returns both of them, Timescale the first and Mongo the second. -/
theorem not_agree :
    MongoBlockStore.Written numbered reorganisedPuts reorganisedMongo ∧
      (redisAfter reorganisedPuts).answer (.getBlocks 5 5) = some [⟨10, 5⟩, ⟨11, 5⟩] ∧
      (timescaleAfter numbered reorganisedPuts).answer (.getBlocks 5 5) = some [⟨10, 5⟩] ∧
      reorganisedMongo.answer (.getBlocks 5 5) = some [⟨11, 5⟩] ∧
      ¬ Agree numbered reorganisedPuts reorganisedMongo (.getBlocks 5 5) := by
  have hfirst : MongoBlockStore.Written numbered [[(⟨10, 5⟩ : BlockDocument Nat)]]
      (MongoBlockStore.empty.bulkWrite [⟨10, 5⟩]) := .putBlocks .nil (by decide) ⟨_, .refl _, rfl⟩
  have hmongo : MongoBlockStore.Written numbered reorganisedPuts reorganisedMongo :=
    hfirst.putBlocks (by decide) ⟨_, .refl _, rfl⟩
  have hredis : (redisAfter reorganisedPuts).answer (.getBlocks 5 5) =
      some [⟨10, 5⟩, ⟨11, 5⟩] := by decide
  have htimescale : (timescaleAfter numbered reorganisedPuts).answer (.getBlocks 5 5) =
      some [⟨10, 5⟩] := by decide
  refine ⟨hmongo, hredis, htimescale, by decide, ?_⟩
  rintro ⟨bs, -, hredis', htimescale', -⟩
  rw [hredis] at hredis'
  rw [htimescale, ← hredis'] at htimescale'
  exact absurd htimescale' (by decide)

end BlockFeed.Spec
