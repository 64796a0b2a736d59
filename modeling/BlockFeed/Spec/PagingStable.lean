import BlockFeed.Spec.WebhookPages
import BlockFeed.ForStd.Transition

/-!
# Paging while webhooks are created and removed

The dashboard asks for page after page while the user's table changes. The cursor is the row that
the last page ended with: a page holds what comes after its key, so rows that come or go elsewhere
do not matter. When that row is gone itself the first page is returned again.

- `PagingInv`: what was returned is above the cursor, and what was there all the time is below it.
- `paging_stable`: as long as no cursor loses its row, no webhook is returned twice and none that
  was there all the time is left out.
-/

namespace BlockFeed.Spec

open BlockFeed.Native Transition

/-- A page, and the table that it was read from. -/
structure Fetch (ι τ : Type) where
  table : WebhookRecords ι τ
  page : WebhookPage ι τ

/-- The table of webhooks, every ID that it has had, and the pages fetched so far. -/
structure Paging (ι τ : Type) where
  table : WebhookRecords ι τ
  known : List ι
  fetches : List (Fetch ι τ)
  known_of_mem : ∀ row ∈ table.rows, row.id ∈ known

/-- The user creates and removes webhooks, and the dashboard fetches the next page. -/
inductive PagingAction (ι τ : Type) where
  /-- `randomUUID` -/
  | create (data : CreateInput) (uuid : ι) (createdAt : τ) (shardId : Int)
  | remove (ids : List ι)
  | fetch

namespace Paging

variable {ι τ : Type}

/-- The webhooks of all pages, in order. -/
def returned (s : Paging ι τ) : List (WebhookRecord ι τ) := s.fetches.flatMap fun f => f.page.payload

/-- What the next page is asked for with, unless the last page was the last one. -/
def nextParam (s : Paging ι τ) : Option (Nullish (WebhookCursor ι)) :=
  match s.fetches.getLast? with
  | none => some .null
  | some f => getNextPageParam f.page

def create [DecidableEq ι] (s : Paging ι τ) (row : WebhookRecord ι τ) : Option (Paging ι τ) :=
  if h : row.id ∈ s.known then none
  else some
    { s with
      table := s.table.insert row fun hmem => by
        obtain ⟨r, hr, hid⟩ := List.mem_map.1 hmem
        exact h (hid ▸ s.known_of_mem r hr)
      known := row.id :: s.known
      known_of_mem := by
        intro r hr
        cases List.mem_cons.1 hr with
        | inl hnew => exact List.mem_cons.2 (.inl (congrArg _ hnew))
        | inr hold => exact List.mem_cons_of_mem _ (s.known_of_mem r hold) }

def remove [DecidableEq ι] (db : Collation) (userId : String) (s : Paging ι τ) (ids : List ι) :
    Paging ι τ :=
  { s with
    table := s.table.remove db userId ids
    known_of_mem := fun row hrow => s.known_of_mem row (WebhookRecords.mem_of_mem_remove hrow) }

def fetch [LinearOrder ι] [LinearOrder τ] (db : Collation) (userId : String)
    (filters : WebhookFilters) (limit : Int) (s : Paging ι τ) : Option (Paging ι τ) :=
  s.nextParam.map fun cursor =>
    let page := findMany db s.table userId ⟨filters, limit, cursor⟩
    { s with fetches := s.fetches ++ [⟨s.table, page⟩] }

def step [LinearOrder ι] [LinearOrder τ] (db : Collation) (userId : String)
    (filters : WebhookFilters) (limit : Int) (s : Paging ι τ) :
    PagingAction ι τ → Option (Paging ι τ)
  | .create data uuid createdAt shardId => s.create (data.row uuid createdAt userId shardId)
  | .remove ids => some (s.remove db userId ids)
  | .fetch => s.fetch db userId filters limit

end Paging

/-- When a page is fetched the row of its cursor is still there, or else no webhook that was
    returned is. -/
def CursorKept {ι τ : Type} (s : Paging ι τ) : PagingAction ι τ → Prop
  | .fetch =>
    match s.nextParam with
    | some (.value data) =>
      (∃ row ∈ s.table.rows, row.id = data.id) ∨ ∀ row ∈ s.returned, row ∉ s.table.rows
    | _ => True
  | _ => True

section Stable

variable {ι τ : Type} [LinearOrder ι] [LinearOrder τ]

/-- A row that matches the filters and is there at every fetch. -/
def Throughout (db : Collation) (userId : String) (filters : WebhookFilters) (s : Paging ι τ)
    (row : WebhookRecord ι τ) : Prop :=
  ∀ f ∈ s.fetches, row ∈ matchingRows db f.table userId filters

/-- No webhook was returned twice, and when the last page is there each webhook that was there all
    the time has been returned. -/
structure Stable (db : Collation) (userId : String) (filters : WebhookFilters)
    (s : Paging ι τ) : Prop where
  nodup : (s.returned.map WebhookRecord.id).Nodup
  complete : s.nextParam = none → ∀ row, Throughout db userId filters s row → row ∈ s.returned

/-- Where the paging has got to: nothing returned is below the cursor, and what was there all the
    time and is still to come is. -/
def GotTo (db : Collation) (userId : String) (filters : WebhookFilters) (s : Paging ι τ) : Prop :=
  match s.fetches.getLast? with
  | none => True
  | some f =>
    match getNextPageParam f.page with
    | none => ∀ row, Throughout db userId filters s row → row ∈ s.returned
    | some cursor => ∃ last ∈ s.returned, cursor = .value ⟨last.id, false⟩ ∧
      (∀ row ∈ s.returned, row ∈ s.table.rows → ¬ row.key < last.key) ∧
      ∀ row, Throughout db userId filters s row → row ∈ s.returned ∨ row.key < last.key

/-- The invariant. -/
structure PagingInv (db : Collation) (userId : String) (filters : WebhookFilters)
    (s : Paging ι τ) : Prop where
  /-- a returned webhook is known by its ID -/
  same : ∀ row ∈ s.returned, row.id ∈ s.known ∧ ∀ r ∈ s.table.rows, r.id = row.id → r = row
  user : ∀ row ∈ s.returned, db.eq row.customerId userId = true
  nodup : (s.returned.map WebhookRecord.id).Nodup
  gotTo : GotTo db userId filters s

/-- The rows of the table that the next page is taken from. -/
structure Ahead (db : Collation) (userId : String) (filters : WebhookFilters) (s : Paging ι τ)
    (rows : List (WebhookRecord ι τ)) : Prop where
  sorted : rows.Pairwise (fun a b => b.key < a.key)
  matching : ∀ row ∈ rows, row ∈ matchingRows db s.table userId filters
  below : ∀ r ∈ s.returned, r ∈ s.table.rows → ∀ row ∈ rows, row.key < r.key
  rest : ∀ row ∈ matchingRows db s.table userId filters, Throughout db userId filters s row →
    row ∈ s.returned ∨ row ∈ rows

variable {db : Collation} {userId : String} {filters : WebhookFilters} {limit : Int}
  {s s' : Paging ι τ}

omit [LinearOrder ι] [LinearOrder τ] in
theorem Paging.returned_append (s : Paging ι τ) (f : Fetch ι τ) :
    ({ s with fetches := s.fetches ++ [f] } : Paging ι τ).returned =
      s.returned ++ f.page.payload := by
  simp only [returned, List.flatMap_append, List.flatMap_cons, List.flatMap_nil, List.append_nil]

/-! ### A fetch -/

/-- Where nothing that was returned is left, everything is still to come. -/
theorem ahead_all (hgone : ∀ row ∈ s.returned, row ∉ s.table.rows) :
    Ahead db userId filters s (matchingRows db s.table userId filters) where
  sorted := matchingRows_pairwise _ _ _ _
  matching := fun _ h => h
  below := fun r hr hmem => absurd hmem (hgone r hr)
  rest := fun _ h _ => .inr h

/-- With a cursor, what is below its row. -/
theorem ahead_below {last : WebhookRecord ι τ}
    (habove : ∀ row ∈ s.returned, row ∈ s.table.rows → ¬ row.key < last.key)
    (hbelow : ∀ row, Throughout db userId filters s row →
      row ∈ s.returned ∨ row.key < last.key) :
    Ahead db userId filters s ((matchingRows db s.table userId filters).filter
      (whereCursor (some (⟨last.id, false⟩, last)))) where
  sorted := (matchingRows_pairwise _ _ _ _).filter _
  matching := fun _ h => List.mem_of_mem_filter h
  below := by
    intro r hr hmem row hrow
    have hlt := (List.mem_filter.1 hrow).2
    rw [whereCursor_eq, if_neg Bool.false_ne_true, decide_eq_true_eq] at hlt
    exact lt_of_lt_of_le hlt (not_lt.1 (habove r hr hmem))
  rest := by
    intro row hrow hthroughout
    refine (hbelow row hthroughout).imp_right fun hlt => List.mem_filter.2 ⟨hrow, ?_⟩
    rw [whereCursor_eq, if_neg Bool.false_ne_true]
    exact decide_eq_true hlt

/-- The page is the first rows of what is ahead. -/
def Takes (db : Collation) (userId : String) (filters : WebhookFilters) (limit : Int)
    (s : Paging ι τ) (cursor : Nullish (WebhookCursor ι)) : Prop :=
  ∃ rows, Ahead db userId filters s rows ∧
    (findMany db s.table userId ⟨filters, limit, cursor⟩).payload = rows.take limit.toNat ∧
    (findMany db s.table userId ⟨filters, limit, cursor⟩).hasNext =
      decide (limit.toNat < rows.length)

/-- Without a row for the cursor that is so when nothing returned is left. -/
theorem takes_notFound (hlimit : 1 ≤ limit) {cursor : Nullish (WebhookCursor ι)}
    (hfound : findCursor db s.table userId cursor = none)
    (hgone : ∀ row ∈ s.returned, row ∉ s.table.rows) :
    Takes db userId filters limit s cursor := by
  refine ⟨_, ahead_all hgone, ?_⟩
  rw [findMany_notFound hlimit hfound, pageAt, Nat.zero_add]
  exact ⟨rfl, rfl⟩

theorem findMany_ahead (hlimit : 1 ≤ limit) (hinv : PagingInv db userId filters s)
    (hkept : CursorKept s (.fetch : PagingAction ι τ)) {cursor : Nullish (WebhookCursor ι)}
    (hparam : s.nextParam = some cursor) :
    Takes db userId filters limit s cursor := by
  have hgot := hinv.gotTo
  unfold GotTo at hgot
  simp only [CursorKept, hparam] at hkept
  unfold Paging.nextParam at hparam
  cases hlast : s.fetches.getLast? with
  | none =>
    rw [hlast] at hparam
    cases hparam
    have hnil := List.getLast?_eq_none_iff.1 hlast
    apply takes_notFound hlimit rfl
    intro row hrow
    rw [Paging.returned, hnil] at hrow
    cases hrow
  | some f =>
    simp only [hlast] at hparam hgot
    simp only [hparam] at hgot
    obtain ⟨last, hreturned, rfl, habove, hbelow⟩ := hgot
    by_cases hmem : last ∈ s.table.rows
    · -- the row of the cursor is still there
      refine ⟨_, ahead_below habove hbelow, ?_⟩
      rw [findMany_eq hlimit, findCursor_eq hmem (hinv.user last hreturned)]
      exact ⟨rfl, rfl⟩
    · -- its ID is not used again
      have hid : ∀ row ∈ s.table.rows, row.id ≠ last.id := by
        intro row hrow hid
        exact hmem ((hinv.same last hreturned).2 row hrow hid ▸ hrow)
      apply takes_notFound hlimit (findCursor_gone hid)
      cases hkept with
      | inl hkept =>
        obtain ⟨row, hrow, heq⟩ := hkept
        exact absurd heq (hid row hrow)
      | inr hgone => exact hgone

/-! ### One step -/

/-- What a page that is taken from the rows ahead adds keeps the IDs apart. -/
theorem nodup_append (hinv : PagingInv db userId filters s) {rows : List (WebhookRecord ι τ)}
    (hahead : Ahead db userId filters s rows) (n : Nat) :
    ((s.returned ++ rows.take n).map WebhookRecord.id).Nodup := by
  have htable : ∀ row ∈ rows.take n, row ∈ s.table.rows := by
    intro row hrow
    exact (mem_matchingRows.1 (hahead.matching row (List.mem_of_mem_take hrow))).1
  rw [List.map_append, List.nodup_append]
  refine ⟨hinv.nodup, ?_, ?_⟩
  · -- different keys on the page, hence different rows, hence different IDs
    apply List.Nodup.map_on
    · intro a ha b hb hid
      exact s.table.eq_of_id_eq (htable a ha) (htable b hb) hid
    · have hsorted := hahead.sorted.sublist (List.take_sublist n rows)
      refine List.Pairwise.imp ?_ hsorted
      intro a b hlt heq
      rw [heq] at hlt
      exact lt_irrefl _ hlt
  · intro id hid id' hid' heq
    obtain ⟨r, hr, rfl⟩ := List.mem_map.1 hid
    obtain ⟨row, hrow, rfl⟩ := List.mem_map.1 hid'
    -- the same webhook would be ahead of itself
    have hsame := (hinv.same r hr).2 row (htable row hrow) heq.symm
    subst hsame
    exact lt_irrefl _ (hahead.below row hr (htable row hrow) row (List.mem_of_mem_take hrow))

/-- After the page of a fetch. -/
theorem gotTo_fetch (hlimit : 1 ≤ limit) {cursor : Nullish (WebhookCursor ι)}
    (htakes : Takes db userId filters limit s cursor) :
    GotTo db userId filters { s with fetches := s.fetches ++
      [⟨s.table, findMany db s.table userId ⟨filters, limit, cursor⟩⟩] } := by
  obtain ⟨rows, hahead, hpayload, hnext⟩ := htakes
  generalize findMany db s.table userId ⟨filters, limit, cursor⟩ = page at hpayload hnext ⊢
  have hrest : ∀ row, Throughout db userId filters
      { s with fetches := s.fetches ++ [⟨s.table, page⟩] } row →
        row ∈ s.returned ∨ row ∈ rows := by
    intro row hrow
    apply hahead.rest row (hrow ⟨s.table, page⟩ (List.mem_append_right _ List.mem_cons_self))
    exact fun f hf => hrow f (List.mem_append_left _ hf)
  simp only [GotTo, List.getLast?_concat, Paging.returned_append, hpayload]
  by_cases hmore : limit.toNat < rows.length
  · -- the last row of the page is the next cursor
    have hne : rows.take limit.toNat ≠ [] := by
      rw [← List.length_pos_iff, List.length_take]
      omega
    obtain ⟨last, hlast⟩ := Option.isSome_iff_exists.1 (List.getLast?_isSome.2 hne)
    have hmem := List.mem_of_getLast? hlast
    simp only [getNextPageParam, hnext, decide_eq_true hmore, if_true, hpayload, hlast]
    refine ⟨last, List.mem_append_right _ hmem, rfl, ?_, ?_⟩
    · intro row hrow htable
      cases List.mem_append.1 hrow with
      | inl hold => exact lt_asymm (hahead.below row hold htable last (List.mem_of_mem_take hmem))
      | inr hnew =>
        exact Keyset.not_lt_getLast (hahead.sorted.sublist (List.take_sublist _ _)) hlast hnew
    · intro row hrow
      by_cases hpage : row ∈ rows.take limit.toNat
      · exact .inl (List.mem_append_right _ hpage)
      · exact (hrest row hrow).imp (List.mem_append_left _) fun hin =>
          Keyset.lt_of_not_mem_take hahead.sorted hmem hin hpage
  · -- everything ahead is on this page
    simp only [getNextPageParam, hnext, decide_eq_false hmore, Bool.false_eq_true, if_false]
    rw [List.take_of_length_le (Nat.not_lt.1 hmore)]
    exact fun row hrow => List.mem_append.2 (hrest row hrow)

theorem pagingInv_fetch (hlimit : 1 ≤ limit) (hinv : PagingInv db userId filters s)
    (hkept : CursorKept s (.fetch : PagingAction ι τ))
    (h : s.fetch db userId filters limit = some s') : PagingInv db userId filters s' := by
  obtain ⟨cursor, hparam, rfl⟩ := Option.map_eq_some_iff.1 h
  have htakes := findMany_ahead hlimit hinv hkept hparam
  have hgot := gotTo_fetch hlimit htakes
  obtain ⟨rows, hahead, hpayload, -⟩ := htakes
  have hmatching : ∀ row ∈ rows.take limit.toNat, row ∈ matchingRows db s.table userId filters :=
    fun row hrow => hahead.matching row (List.mem_of_mem_take hrow)
  refine ⟨?_, ?_, ?_, hgot⟩
  · rw [Paging.returned_append, hpayload]
    intro row hrow
    cases List.mem_append.1 hrow with
    | inl hold => exact hinv.same row hold
    | inr hnew =>
      have hmem := (mem_matchingRows.1 (hmatching row hnew)).1
      exact ⟨s.known_of_mem row hmem, fun r hr hid => s.table.eq_of_id_eq hr hmem hid⟩
  · rw [Paging.returned_append, hpayload]
    intro row hrow
    cases List.mem_append.1 hrow with
    | inl hold => exact hinv.user row hold
    | inr hnew =>
      have hwhere := (mem_matchingRows.1 (hmatching row hnew)).2
      simp only [whereFilters, Bool.and_eq_true] at hwhere
      exact hwhere.1.1.1
  · rw [Paging.returned_append, hpayload]
    exact nodup_append hinv hahead _

/-- A table that has only lost rows, or has got rows with new IDs. -/
theorem PagingInv.of_table (hinv : PagingInv db userId filters s)
    (hfetches : s'.fetches = s.fetches) (hknown : ∀ id ∈ s.known, id ∈ s'.known)
    (htable : ∀ row ∈ s'.table.rows, row ∈ s.table.rows ∨ row.id ∉ s.known) :
    PagingInv db userId filters s' := by
  have hreturned : s'.returned = s.returned := by rw [Paging.returned, hfetches, Paging.returned]
  have hthroughout : ∀ row, Throughout db userId filters s' row →
      Throughout db userId filters s row := fun row h f hf => h f (hfetches ▸ hf)
  -- a returned webhook has an old ID
  have hold : ∀ row ∈ s.returned, ∀ r ∈ s'.table.rows, r.id = row.id → r ∈ s.table.rows := by
    intro row hrow r hr hid
    refine (htable r hr).resolve_right fun hnew => ?_
    rw [hid] at hnew
    exact hnew (hinv.same row hrow).1
  refine ⟨?_, ?_, ?_, ?_⟩
  · rw [hreturned]
    intro row hrow
    obtain ⟨hid, hsame⟩ := hinv.same row hrow
    exact ⟨hknown _ hid, fun r hr heq => hsame r (hold row hrow r hr heq) heq⟩
  · rw [hreturned]
    exact hinv.user
  · rw [hreturned]
    exact hinv.nodup
  · have hgot := hinv.gotTo
    unfold GotTo at hgot ⊢
    rw [hfetches, hreturned]
    split at hgot
    · trivial
    · split at hgot
      · exact fun row h => hgot row (hthroughout row h)
      · obtain ⟨last, hlast, hcursor, habove, hbelow⟩ := hgot
        refine ⟨last, hlast, hcursor, ?_, fun row h => hbelow row (hthroughout row h)⟩
        exact fun row hrow hmem => habove row hrow (hold row hrow row hmem rfl)

omit [LinearOrder τ] in
theorem Paging.create_eq_some {row : WebhookRecord ι τ} (h : s.create row = some s') :
    row.id ∉ s.known ∧ s'.table.rows = row :: s.table.rows ∧ s'.known = row.id :: s.known ∧
      s'.fetches = s.fetches := by
  unfold create at h
  split at h
  · cases h
  · next hnew =>
    cases h
    exact ⟨hnew, rfl, rfl, rfl⟩

theorem pagingInv_step (hlimit : 1 ≤ limit) {a : PagingAction ι τ}
    (h : s.step db userId filters limit a = some s') (hkept : CursorKept s a)
    (hinv : PagingInv db userId filters s) : PagingInv db userId filters s' := by
  cases a with
  | create data uuid createdAt shardId =>
    obtain ⟨hnew, hrows, hknown, hfetches⟩ := Paging.create_eq_some h
    refine hinv.of_table hfetches ?_ ?_
    · rw [hknown]
      exact fun id hid => List.mem_cons_of_mem _ hid
    · rw [hrows]
      intro row hrow
      cases List.mem_cons.1 hrow with
      | inl heq => exact .inr (heq ▸ hnew)
      | inr hold => exact .inl hold
  | remove ids =>
    cases h
    exact hinv.of_table rfl (fun _ hid => hid)
      fun row hrow => .inl (WebhookRecords.mem_of_mem_remove hrow)
  | fetch => exact pagingInv_fetch hlimit hinv hkept h

/-! ### Runs -/

theorem pagingInv_start (hstart : s.fetches = []) : PagingInv db userId filters s := by
  have hreturned : s.returned = [] := by rw [Paging.returned, hstart, List.flatMap_nil]
  refine ⟨?_, ?_, ?_, ?_⟩
  · rw [hreturned]
    exact fun _ h => absurd h List.not_mem_nil
  · rw [hreturned]
    exact fun _ h => absurd h List.not_mem_nil
  · rw [hreturned]
    exact List.nodup_nil
  · unfold GotTo
    rw [hstart]
    trivial

theorem PagingInv.stable (h : PagingInv db userId filters s) : Stable db userId filters s where
  nodup := h.nodup
  complete := by
    intro hnone
    have hgot := h.gotTo
    unfold GotTo at hgot
    unfold Paging.nextParam at hnone
    split at hnone
    · cases hnone
    · next f hlast =>
      simp only [hlast, hnone] at hgot
      exact hgot

/-- From any table on, whatever is created and removed in between. Where the row of the cursor is
    gone, the page is the first page of the table. -/
theorem paging_stable (db : Collation) (userId : String) (filters : WebhookFilters) {limit : Int}
    (hlimit : 1 ≤ limit) {s : Paging ι τ} (hstart : s.fetches = [])
    (as : List (PagingAction ι τ)) :
    (Meets (Paging.step db userId filters limit) CursorKept s as →
      Always (Paging.step db userId filters limit) (Stable db userId filters) s as) ∧
    ∀ (table : WebhookRecords ι τ) (data : WebhookCursor ι),
      (∀ row ∈ table.rows, row.id ≠ data.id) →
        findMany db table userId ⟨filters, limit, .value data⟩ =
          findMany db table userId ⟨filters, limit, .null⟩ := by
  constructor
  · intro hkept
    exact always_of_invariant (fun s a s' h hq hi => pagingInv_step hlimit h hq hi)
      (fun s hi => hi.stable) hkept (pagingInv_start hstart)
  · intro table data hgone
    rw [findMany_notFound hlimit (findCursor_gone hgone), findMany_first hlimit rfl]

end Stable

instance {ι τ : Type} [DecidableEq ι] [DecidableEq τ] (s : Paging ι τ) (a : PagingAction ι τ) :
    Decidable (CursorKept s a) := by
  unfold CursorKept
  split
  · split <;> infer_instance
  · infer_instance

/-- Before the first page. -/
def tiedPaging : Paging Nat Nat where
  table := tiedWebhooks
  known := [1, 2, 3]
  fetches := []
  known_of_mem := by decide

/-- The row above the cursor is removed, and one is created above it. -/
def keepsCursor : List (PagingAction Nat Nat) :=
  [.fetch, .remove [2], .create ⟨"https://example.com", 1, 3, 500, "flow"⟩ 4 30 0, .fetch]

theorem paging_keepsCursor :
    (run (Paging.step binaryCollation "user" noFilters 2) tiedPaging keepsCursor).map
        (fun s => s.returned.map WebhookRecord.id) = some [2, 3, 1] ∧
      Always (Paging.step binaryCollation "user" noFilters 2)
        (Stable binaryCollation "user" noFilters) tiedPaging keepsCursor :=
  ⟨by decide, (paging_stable _ _ _ (by decide) rfl _).1 (by decide)⟩

/-- The row of the cursor is removed: the next page begins at the top again. -/
theorem not_stable : ¬ ∀ as, Always (Paging.step binaryCollation "user" noFilters 2)
    (Stable binaryCollation "user" noFilters) tiedPaging as := by
  intro h
  have hrun := h [.fetch, .remove [3], .fetch]
  have hstable := ((hrun.2 _ rfl).2 _ rfl).2 _ rfl
  exact absurd hstable.nodup (by decide)

end BlockFeed.Spec
