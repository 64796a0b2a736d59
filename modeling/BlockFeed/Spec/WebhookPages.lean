import BlockFeed.Native.FindMany

/-!
# Pages of a fixed table

The rows that match the filters, by descending time and ID, are `matchingRows`. `findMany` reads
them from a row on or up to a row, so as long as the table stays as it is the pages that follow
each other cut them into pieces, and going back undoes going forward (`webhookPages_exact`).
-/

namespace BlockFeed.Spec

open BlockFeed.Native

section WebhookPages

variable {ι τ : Type} [LinearOrder ι] [LinearOrder τ]

/-- The rows that match the filters, the newest first. -/
def matchingRows (db : Collation) (table : WebhookRecords ι τ) (userId : String)
    (filters : WebhookFilters) : List (WebhookRecord ι τ) :=
  Keyset.descending WebhookRecord.key (table.rows.filter (whereFilters db userId filters))

/-- The page from the `k`-th row on. -/
def pageAt (rows : List (WebhookRecord ι τ)) (limit k : Nat) : WebhookPage ι τ where
  payload := (rows.drop k).take limit
  hasNext := decide (k + limit < rows.length)
  hasPrev := decide (0 < k)

/-- The payload is between these rows, and the page says whether there are any. -/
structure Between (rows before : List (WebhookRecord ι τ)) (page : WebhookPage ι τ)
    (after : List (WebhookRecord ι τ)) : Prop where
  rows_eq : rows = before ++ page.payload ++ after
  hasNext_iff : page.hasNext = true ↔ after ≠ []
  hasPrev_iff : page.hasPrev = true ↔ before ≠ []

/-- The pages reached from the first one by the cursor of `getNextPageParam`, each with the page
    before it. -/
inductive ReachedAfter (fetch : Nullish (WebhookCursor ι) → WebhookPage ι τ) :
    Option (WebhookPage ι τ) → WebhookPage ι τ → Prop where
  | first {cursor : Nullish (WebhookCursor ι)} (h : cursor.notNull = none) :
    ReachedAfter fetch none (fetch cursor)
  | next {before : Option (WebhookPage ι τ)} {page : WebhookPage ι τ}
    {cursor : Nullish (WebhookCursor ι)} (h : ReachedAfter fetch before page)
    (hnext : getNextPageParam page = some cursor) : ReachedAfter fetch (some page) (fetch cursor)

/-! ### Keys -/

omit [LinearOrder ι] [LinearOrder τ] in
theorem key_nodup (table : WebhookRecords ι τ) :
    (table.rows.map WebhookRecord.key).Nodup := by
  have hid := List.pairwise_map.1 table.unique
  refine List.pairwise_map.2 (hid.imp fun hne heq => hne ?_)
  exact congrArg (fun k => (ofLex k).2) heq

theorem key_lt_iff {a b : WebhookRecord ι τ} :
    a.key < b.key ↔ a.createdAt < b.createdAt ∨ a.createdAt = b.createdAt ∧ a.id < b.id :=
  Prod.Lex.toLex_lt_toLex

/-- The condition of a cursor compares keys. -/
theorem whereCursor_eq (data : WebhookCursor ι) (webhook row : WebhookRecord ι τ) :
    whereCursor (some (data, webhook)) row =
      if data.reverse then decide (webhook.key < row.key) else decide (row.key < webhook.key) := by
  simp only [whereCursor]
  split
  · rw [Bool.eq_iff_iff, decide_eq_true_eq, key_lt_iff]
    simp only [Bool.or_eq_true, Bool.and_eq_true, decide_eq_true_eq, beq_iff_eq,
      eq_comm (a := row.createdAt)]
  · rw [Bool.eq_iff_iff, decide_eq_true_eq, key_lt_iff]
    simp only [Bool.or_eq_true, Bool.and_eq_true, decide_eq_true_eq, beq_iff_eq]

section Fetch

variable {db : Collation} {table : WebhookRecords ι τ} {userId : String}
  {filters : WebhookFilters} {limit : Int}

theorem matchingRows_pairwise (db : Collation) (table : WebhookRecords ι τ) (userId : String)
    (filters : WebhookFilters) :
    (matchingRows db table userId filters).Pairwise (fun a b => b.key < a.key) :=
  Keyset.descending_pairwise ((key_nodup table).sublist (List.filter_sublist.map _))

theorem mem_matchingRows {row : WebhookRecord ι τ} : row ∈ matchingRows db table userId filters ↔
    row ∈ table.rows ∧ whereFilters db userId filters row = true := by
  rw [matchingRows, Keyset.mem_descending, List.mem_filter]

/-- The rows of the query are the matching rows that the cursor allows, in either order. -/
theorem query_eq (cursor : Option (WebhookCursor ι × WebhookRecord ι τ)) :
    Keyset.descending WebhookRecord.key (table.rows.filter fun row =>
        whereFilters db userId filters row && whereCursor cursor row) =
      (matchingRows db table userId filters).filter (whereCursor cursor) ∧
    Keyset.ascending WebhookRecord.key (table.rows.filter fun row =>
        whereFilters db userId filters row && whereCursor cursor row) =
      ((matchingRows db table userId filters).filter (whereCursor cursor)).reverse := by
  have hnd := (key_nodup table).sublist
    ((List.filter_sublist (p := whereFilters db userId filters)).map WebhookRecord.key)
  have hboth : (table.rows.filter fun row =>
      whereFilters db userId filters row && whereCursor cursor row) =
        (table.rows.filter (whereFilters db userId filters)).filter (whereCursor cursor) := by
    rw [List.filter_filter]
    apply List.filter_congr
    intro row _
    exact Bool.and_comm _ _
  rw [hboth, Keyset.ascending_eq_reverse (hnd.sublist (List.filter_sublist.map _)),
    Keyset.descending_filter hnd]
  exact ⟨rfl, rfl⟩

/-- The row that is looked at in addition only tells whether there is more. -/
theorem findMany_eq (hlimit : 1 ≤ limit) (cursor : Nullish (WebhookCursor ι)) :
    findMany db table userId ⟨filters, limit, cursor⟩ =
      let found := findCursor db table userId cursor
      let rows := (matchingRows db table userId filters).filter (whereCursor found)
      let more := decide (limit.toNat < rows.length)
      if isReverse found then
        { payload := (rows.reverse.take limit.toNat).reverse
          hasNext := true
          hasPrev := more }
      else
        { payload := rows.take limit.toNat
          hasNext := more
          hasPrev := found.isSome } := by
  -- from here on the limit is a natural number
  obtain ⟨n, rfl⟩ := Int.eq_ofNat_of_zero_le (Int.le_trans (by decide) hlimit)
  have htake : ((n : Int) + 1).toNat = n + 1 := by omega
  simp only [findMany, htake, (query_eq _).1, (query_eq _).2, Int.toNat_natCast, gt_iff_lt,
    Int.ofNat_lt]
  generalize hfound : findCursor db table userId cursor = found
  generalize (matchingRows db table userId filters).filter (whereCursor found) = rows
  cases hreverse : isReverse found with
  | true =>
    -- only a cursor that was found has a direction
    have hsome : found.isNone = false := by
      cases found with
      | none => cases hreverse
      | some _ => rfl
    -- the rows nearest to the cursor are the last ones, so they are taken from the end
    obtain ⟨hmore, hpage⟩ := Keyset.lookAhead rows.reverse n
    rw [List.length_reverse] at hmore hpage
    simp only [if_true, hmore, hsome]
    split
    · next hlt =>
      rw [if_pos hlt] at hpage
      rw [hpage, decide_eq_true hlt]
      rfl
    · next hge =>
      rw [if_neg hge] at hpage
      rw [hpage, decide_eq_false hge]
      rfl
  | false =>
    obtain ⟨hmore, hpage⟩ := Keyset.lookAhead rows n
    simp only [Bool.false_eq_true, if_false, hmore]
    split
    · next hlt =>
      rw [if_pos hlt] at hpage
      rw [hpage, decide_eq_true hlt]
      cases found <;> rfl
    · next hge =>
      rw [if_neg hge] at hpage
      rw [hpage, decide_eq_false hge]
      cases found <;> rfl

/-- Where no row is found for the cursor: the first page. -/
theorem findMany_notFound (hlimit : 1 ≤ limit) {cursor : Nullish (WebhookCursor ι)}
    (hfound : findCursor db table userId cursor = none) :
    findMany db table userId ⟨filters, limit, cursor⟩ =
      pageAt (matchingRows db table userId filters) limit.toNat 0 := by
  rw [findMany_eq hlimit, hfound]
  have hall : (matchingRows db table userId filters).filter (whereCursor none) =
      matchingRows db table userId filters := List.filter_eq_self.2 fun _ _ => rfl
  simp only [hall, isReverse, pageAt, List.drop_zero, Nat.zero_add, Bool.false_eq_true, if_false]
  rfl

/-- Without a cursor: the first page. -/
theorem findMany_first (hlimit : 1 ≤ limit) {cursor : Nullish (WebhookCursor ι)}
    (hcursor : cursor.notNull = none) :
    findMany db table userId ⟨filters, limit, cursor⟩ =
      pageAt (matchingRows db table userId filters) limit.toNat 0 := by
  apply findMany_notFound hlimit
  rw [findCursor, hcursor]

omit [LinearOrder τ] in
/-- The row of a cursor is found. -/
theorem findCursor_eq {row : WebhookRecord ι τ} (hrow : row ∈ table.rows)
    (huser : db.eq row.customerId userId = true) (reverse : Bool) :
    findCursor db table userId (.value ⟨row.id, reverse⟩) = some (⟨row.id, reverse⟩, row) := by
  have hfind : table.rows.find? (fun r => db.eq r.customerId userId && decide (r.id = row.id)) =
      some row := by
    cases hf : table.rows.find? (fun r => db.eq r.customerId userId && decide (r.id = row.id)) with
    | none =>
      -- `row` itself passes the test
      have hnot := List.find?_eq_none.1 hf row hrow
      rw [huser, decide_eq_true rfl] at hnot
      exact absurd rfl hnot
    | some found =>
      have hp := List.find?_some hf
      rw [Bool.and_eq_true, decide_eq_true_eq] at hp
      rw [table.eq_of_id_eq (List.mem_of_find?_eq_some hf) hrow hp.2]
  simp only [findCursor, Nullish.notNull, hfind, Option.map_some]

omit [LinearOrder τ] in
theorem findCursor_gone {data : WebhookCursor ι} (h : ∀ row ∈ table.rows, row.id ≠ data.id) :
    findCursor db table userId (.value data) = none := by
  have hfind : table.rows.find? (fun r => db.eq r.customerId userId && decide (r.id = data.id)) =
      none := by
    apply List.find?_eq_none.2
    intro row hrow
    rw [decide_eq_false (h row hrow), Bool.and_false]
    exact Bool.false_ne_true
  simp only [findCursor, Nullish.notNull, hfind, Option.map_none]

theorem findCursor_of_mem {row : WebhookRecord ι τ}
    (hrow : row ∈ matchingRows db table userId filters) (reverse : Bool) :
    findCursor db table userId (.value ⟨row.id, reverse⟩) = some (⟨row.id, reverse⟩, row) := by
  obtain ⟨hmem, hwhere⟩ := mem_matchingRows.1 hrow
  simp only [whereFilters, Bool.and_eq_true] at hwhere
  exact findCursor_eq hmem hwhere.1.1.1 reverse

section Around

variable {before after : List (WebhookRecord ι τ)} {row : WebhookRecord ι τ}

omit [LinearOrder ι] [LinearOrder τ] in
private theorem drop_around : (before ++ row :: after).drop (before.length + 1) = after := by
  rw [List.drop_length_add_append]
  rfl

private theorem mem_around (hrows : matchingRows db table userId filters = before ++ row :: after) :
    row ∈ matchingRows db table userId filters := by
  rw [hrows]
  exact List.mem_append_right _ List.mem_cons_self

/-- What a cursor leaves of the rows around it. -/
theorem filter_whereCursor
    (hrows : matchingRows db table userId filters = before ++ row :: after) (reverse : Bool) :
    (matchingRows db table userId filters).filter
        (whereCursor (some (⟨row.id, reverse⟩, row))) = if reverse then before else after := by
  have hsorted := matchingRows_pairwise db table userId filters
  rw [hrows] at hsorted ⊢
  cases reverse with
  | true =>
    refine (List.filter_congr fun r _ => ?_).trans (Keyset.filter_above hsorted)
    exact whereCursor_eq _ _ _
  | false =>
    refine (List.filter_congr fun r _ => ?_).trans (Keyset.filter_below hsorted)
    exact whereCursor_eq _ _ _

/-- Forward from a row. -/
theorem findMany_forward (hlimit : 1 ≤ limit)
    (hrows : matchingRows db table userId filters = before ++ row :: after) :
    findMany db table userId ⟨filters, limit, .value ⟨row.id, false⟩⟩ =
      pageAt (matchingRows db table userId filters) limit.toNat (before.length + 1) := by
  have hlen := congrArg List.length hrows
  rw [List.length_append, List.length_cons] at hlen
  rw [findMany_eq hlimit, findCursor_of_mem (mem_around hrows), pageAt, hlen]
  simp only [filter_whereCursor hrows, isReverse, Bool.false_eq_true, if_false]
  rw [hrows, drop_around, WebhookPage.mk.injEq, decide_eq_decide]
  exact ⟨rfl, by omega, (decide_eq_true (Nat.succ_pos _)).symm⟩

/-- Backward from a row. -/
theorem findMany_backward (hlimit : 1 ≤ limit)
    (hrows : matchingRows db table userId filters = before ++ row :: after) :
    findMany db table userId ⟨filters, limit, .value ⟨row.id, true⟩⟩ =
      { payload := before.drop (before.length - limit.toNat)
        hasNext := true
        hasPrev := decide (limit.toNat < before.length) } := by
  rw [findMany_eq hlimit, findCursor_of_mem (mem_around hrows)]
  simp only [filter_whereCursor hrows, isReverse, if_true]
  rw [List.take_reverse, List.reverse_reverse]

end Around

/-! ### Pages that follow each other -/

omit [LinearOrder ι] [LinearOrder τ] in
/-- A row with what is around it. -/
theorem exists_around {rows : List (WebhookRecord ι τ)} {i : Nat} (hi : i < rows.length) :
    ∃ before after, rows = before ++ rows[i] :: after ∧ before.length = i := by
  refine ⟨rows.take i, rows.drop (i + 1), ?_, List.length_take_of_le (Nat.le_of_lt hi)⟩
  rw [← List.drop_eq_getElem_cons hi, List.take_append_drop]

omit [LinearOrder ι] [LinearOrder τ] in
/-- The next page begins after the last row of this one. -/
theorem getNextPageParam_pageAt {rows : List (WebhookRecord ι τ)} {n k : Nat} (hn : 1 ≤ n)
    {cursor : Nullish (WebhookCursor ι)} (h : getNextPageParam (pageAt rows n k) = some cursor) :
    ∃ before row after, rows = before ++ row :: after ∧ before.length + 1 = k + n ∧
      k + n < rows.length ∧ cursor = .value ⟨row.id, false⟩ := by
  unfold getNextPageParam at h
  split at h
  · next hnext =>
    have hlt : k + n < rows.length := of_decide_eq_true hnext
    -- there are more rows, so the page is full
    have hi : k + (n - 1) < rows.length := by omega
    have hlast : (pageAt rows n k).payload.getLast? = some rows[k + (n - 1)] := by
      rw [pageAt, List.getLast?_take, if_neg (by omega), List.getElem?_drop,
        List.getElem?_eq_getElem hi]
      rfl
    rw [hlast] at h
    obtain ⟨before, after, hrows, hlen⟩ := exists_around hi
    exact ⟨before, _, after, hrows, by omega, hlt, (Option.some.inj h).symm⟩
  · cases h

omit [LinearOrder ι] [LinearOrder τ] in
/-- The page before ends before the first row of this one. -/
theorem getPreviousPageParam_pageAt {rows : List (WebhookRecord ι τ)} {n k : Nat} (hn : 1 ≤ n)
    (hk : 0 < k) (hlt : k < rows.length) :
    ∃ before row after, rows = before ++ row :: after ∧ before.length = k ∧
      getPreviousPageParam (pageAt rows n k) = some (.value ⟨row.id, true⟩) := by
  obtain ⟨before, after, hrows, hlen⟩ := exists_around hlt
  refine ⟨before, _, after, hrows, hlen, ?_⟩
  have hhead : (pageAt rows n k).payload.head? = some rows[k] := by
    rw [pageAt, List.head?_take, if_neg (by omega), List.head?_drop, List.getElem?_eq_getElem hlt]
  have hprev : (pageAt rows n k).hasPrev = true := decide_eq_true hk
  unfold getPreviousPageParam
  rw [if_pos hprev, hhead]

/-- Every page reached is one of these, and the page before it the one before that. -/
theorem reachedAfter_pageAt (hlimit : 1 ≤ limit) {prev : Option (WebhookPage ι τ)}
    {page : WebhookPage ι τ}
    (h : ReachedAfter (fun cursor => findMany db table userId ⟨filters, limit, cursor⟩) prev page) :
    ∃ k, page = pageAt (matchingRows db table userId filters) limit.toNat k ∧
      ∀ before, prev = some before → limit.toNat ≤ k ∧
        k < (matchingRows db table userId filters).length ∧
        before = pageAt (matchingRows db table userId filters) limit.toNat (k - limit.toNat) := by
  induction h with
  | first hcursor => exact ⟨0, findMany_first hlimit hcursor, fun _ h => by cases h⟩
  | next _ hnext ih =>
    obtain ⟨k, rfl, -⟩ := ih
    obtain ⟨before, row, after, hrows, hlen, hlt, rfl⟩ :=
      getNextPageParam_pageAt (by omega) hnext
    refine ⟨k + limit.toNat, ?_, ?_⟩
    · rw [← hlen]
      exact findMany_forward hlimit hrows
    · intro page hpage
      rw [Nat.add_sub_cancel]
      exact ⟨Nat.le_add_left _ _, hlt, (Option.some.inj hpage).symm⟩

/-- Going back from a page that was reached. -/
theorem findMany_back (hlimit : 1 ≤ limit) {before page : WebhookPage ι τ}
    (h : ReachedAfter (fun cursor => findMany db table userId ⟨filters, limit, cursor⟩)
      (some before) page) :
    ∃ cursor, getPreviousPageParam page = some cursor ∧
      findMany db table userId ⟨filters, limit, cursor⟩ = before := by
  obtain ⟨k, rfl, hprev⟩ := reachedAfter_pageAt hlimit h
  obtain ⟨hk, hlt, rfl⟩ := hprev before rfl
  obtain ⟨above, row, below, hrows, hlen, hparam⟩ :=
    getPreviousPageParam_pageAt (show 1 ≤ limit.toNat by omega) (by omega) hlt
  refine ⟨_, hparam, ?_⟩
  -- the first row of the page is the row at `k`, so `k` rows are above it
  rw [findMany_backward hlimit hrows, pageAt, WebhookPage.mk.injEq, hlen]
  refine ⟨?_, ?_, ?_⟩
  · rw [hrows, List.drop_append_of_le_length (by omega)]
    exact (List.take_left' (by rw [List.length_drop]; omega)).symm
  · rw [Nat.sub_add_cancel hk]
    exact (decide_eq_true hlt).symm
  · rw [decide_eq_decide]
    omega

end Fetch

/-- The pages of a fixed table cut the matching rows into pieces. -/
structure ExactPages (rows : List (WebhookRecord ι τ)) (limit : Nat)
    (fetch : Nullish (WebhookCursor ι) → WebhookPage ι τ) : Prop where
  /-- without a cursor: the first rows -/
  first : ∀ cursor, cursor.notNull = none →
    (fetch cursor).payload = rows.take limit ∧ Between rows [] (fetch cursor) (rows.drop limit)
  /-- forward: the next rows after the cursor -/
  next : ∀ before row after, rows = before ++ row :: after →
    (fetch (.value ⟨row.id, false⟩)).payload = after.take limit ∧
      Between rows (before ++ [row]) (fetch (.value ⟨row.id, false⟩)) (after.drop limit)
  /-- in reverse: the rows immediately before the cursor -/
  previous : ∀ before row after, rows = before ++ row :: after →
    (fetch (.value ⟨row.id, true⟩)).payload = before.drop (before.length - limit) ∧
      Between rows (before.take (before.length - limit)) (fetch (.value ⟨row.id, true⟩))
        (row :: after)
  /-- back from a page that was reached: the page before it -/
  back : ∀ before page, ReachedAfter fetch (some before) page →
    ∃ cursor, getPreviousPageParam page = some cursor ∧ fetch cursor = before

/-- Whatever the table and the filters. -/
theorem webhookPages_exact (db : Collation) (table : WebhookRecords ι τ) (userId : String)
    (filters : WebhookFilters) {limit : Int} (hlimit : 1 ≤ limit) :
    ExactPages (matchingRows db table userId filters) limit.toNat
      (fun cursor => findMany db table userId ⟨filters, limit, cursor⟩) where
  first cursor hcursor := by
    rw [findMany_first hlimit hcursor]
    refine ⟨rfl, ?_, ?_, ?_⟩
    · exact (List.take_append_drop _ _).symm
    · rw [pageAt, decide_eq_true_eq, Nat.zero_add, Ne, List.drop_eq_nil_iff, Nat.not_le]
    · simp [pageAt]
  next before row after hrows := by
    rw [findMany_forward hlimit hrows]
    have hpayload : (pageAt (matchingRows db table userId filters) limit.toNat
        (before.length + 1)).payload = after.take limit.toNat := by
      rw [pageAt, hrows, drop_around]
    have hlen := congrArg List.length hrows
    rw [List.length_append, List.length_cons] at hlen
    refine ⟨hpayload, ?_, ?_, ?_⟩
    · rw [hpayload, List.append_assoc, List.take_append_drop, List.append_assoc]
      exact hrows
    · rw [pageAt, decide_eq_true_eq, hlen, Ne, List.drop_eq_nil_iff]
      omega
    · simp [pageAt]
  previous before row after hrows := by
    rw [findMany_backward hlimit hrows]
    refine ⟨rfl, ?_, ?_, ?_⟩
    · rw [List.take_append_drop]
      exact hrows
    · simp
    · rw [decide_eq_true_eq, Ne, List.take_eq_nil_iff, ← List.length_eq_zero_iff]
      omega
  back before page h := findMany_back hlimit h

end WebhookPages

/-- Texts are equal when they are the same. -/
def binaryCollation : Collation where
  eq a b := a == b
  like _ _ := true

def noFilters : WebhookFilters := ⟨.undefined⟩

/-- A row of a user. -/
def webhookRow (id createdAt : Nat) (isActive : Int) : WebhookRecord Nat Nat where
  id := id
  createdAt := createdAt
  isActive := isActive
  url := "https://example.com"
  maxBlocks := 1
  maxRetries := 3
  timeoutMs := 500
  customerId := "user"
  blockchainId := "flow"
  shardId := 0

/-- Two of the rows have one time. -/
def tiedWebhooks : WebhookRecords Nat Nat where
  rows := [webhookRow 1 10 0, webhookRow 2 20 0, webhookRow 3 10 0]
  unique := by decide

theorem webhookPages_tiedWebhooks :
    matchingRows binaryCollation tiedWebhooks "user" noFilters =
        [webhookRow 2 20 0, webhookRow 3 10 0, webhookRow 1 10 0] ∧
      ExactPages (matchingRows binaryCollation tiedWebhooks "user" noFilters) 2
        (fun cursor => findMany binaryCollation tiedWebhooks "user" ⟨noFilters, 2, cursor⟩) :=
  ⟨by decide, webhookPages_exact _ _ _ _ (show (1 : Int) ≤ 2 by decide)⟩

end BlockFeed.Spec
