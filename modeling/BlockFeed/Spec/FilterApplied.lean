import BlockFeed.Spec.WebhookPages

/-!
# The filters that are given

A filter is given when its value is neither missing nor the empty text. `findMany` tests this with
`!= null && ... !== ""` for texts, but for `isActive` with `!= null && ...` alone, so `false` counts
as missing too: webhooks that are active are returned to those who ask for the others
(`filters_applied_iff`).
-/

namespace BlockFeed.Spec

open BlockFeed.Native

/-- A text that is neither missing nor empty. -/
def Given (x : Nullish String) (text : String) : Prop := x = .value text ∧ text ≠ ""

section Filters

variable {ι τ : Type}

/-- A webhook of the user with the blockchain and the URL that are asked for. -/
structure SatisfiesTexts (db : Collation) (userId : String) (filters : WebhookFilters)
    (row : WebhookRecord ι τ) : Prop where
  user : db.eq row.customerId userId = true
  blockchain : ∀ eq,
    Given ((filters.and.chain AndFilters.blockchain).chain BlockchainFilter.eq) eq →
      db.eq row.blockchainId eq = true
  url : ∀ like, Given ((filters.and.chain AndFilters.url).chain UrlFilter.like) like →
    db.like row.url ("%" ++ like ++ "%") = true

/-- `filters.and?.isActive?.eq` -/
def activeEq (filters : WebhookFilters) : Nullish Bool :=
  (filters.and.chain AndFilters.isActive).chain IsActiveFilter.eq

/-- A webhook of the user that satisfies every filter that is given. -/
structure Satisfies (db : Collation) (userId : String) (filters : WebhookFilters)
    (row : WebhookRecord ι τ) : Prop extends SatisfiesTexts db userId filters row where
  isActive : ∀ eq, activeEq filters = .value eq → row.isActive = if eq then 1 else 0

/-- Every filter that is given is applied to every page, and no other condition is. -/
structure FiltersApplied [LinearOrder ι] [LinearOrder τ] (db : Collation)
    (table : WebhookRecords ι τ) (userId : String) (filters : WebhookFilters) : Prop where
  payload : ∀ (cursor : Nullish (WebhookCursor ι)) (limit : Int), 1 ≤ limit →
    ∀ row ∈ (findMany db table userId ⟨filters, limit, cursor⟩).payload,
      row ∈ table.rows ∧ Satisfies db userId filters row
  included : ∀ row ∈ table.rows, Satisfies db userId filters row →
    whereFilters db userId filters row = true

variable {db : Collation} {userId : String} {filters : WebhookFilters} {row : WebhookRecord ι τ}

/-! ### The conditions of the where-clause -/

/-- The guard of the filters on texts. -/
theorem all_given {x : Nullish String} (f : String → String) (p : String → Bool) :
    (match x.notNull with
      | some text => if text ≠ "" then some (f text) else none
      | none => none).all p = true ↔ ∀ text, Given x text → p (f text) = true := by
  cases x with
  | undefined => exact ⟨fun _ _ h => (by cases h.1), fun _ => rfl⟩
  | null => exact ⟨fun _ _ h => (by cases h.1), fun _ => rfl⟩
  | value a =>
    simp only [Nullish.notNull]
    constructor
    · rintro h text ⟨heq, hne⟩
      cases heq
      rwa [if_pos hne] at h
    · intro h
      split
      · next hne => exact h a ⟨rfl, hne⟩
      · rfl

/-- The guard of the filter on `isActive`: only `true` passes. -/
theorem all_isActive : filters.isActive.all (fun eq => row.isActive == eq) = true ↔
    (activeEq filters = .value true → row.isActive = 1) := by
  rw [WebhookFilters.isActive, ← activeEq]
  cases activeEq filters with
  | undefined => exact ⟨fun _ h => (by cases h), fun _ => rfl⟩
  | null => exact ⟨fun _ h => (by cases h), fun _ => rfl⟩
  | value eq =>
    cases eq with
    | false => exact ⟨fun _ h => (by cases h), fun _ => rfl⟩
    | true =>
      simp only [Nullish.notNull, if_true, Option.all_some, beq_iff_eq, forall_const]

/-- What the where-clause asks for. -/
theorem whereFilters_iff : whereFilters db userId filters row = true ↔
    SatisfiesTexts db userId filters row ∧
      (activeEq filters = .value true → row.isActive = 1) := by
  simp only [whereFilters, Bool.and_eq_true, all_isActive]
  refine and_congr_left fun _ => ?_
  constructor
  · rintro ⟨⟨huser, hblockchain⟩, hurl⟩
    exact ⟨huser, (all_given id _).1 hblockchain,
      (all_given (fun like => "%" ++ like ++ "%") _).1 hurl⟩
  · intro h
    exact ⟨⟨h.user, (all_given id _).2 h.blockchain⟩,
      (all_given (fun like => "%" ++ like ++ "%") _).2 h.url⟩

/-! ### Pages -/

variable [LinearOrder ι] [LinearOrder τ] {table : WebhookRecords ι τ}

/-- Whatever the cursor, a page has rows that match. -/
theorem mem_matchingRows_of_mem_payload {limit : Int} (hlimit : 1 ≤ limit)
    {cursor : Nullish (WebhookCursor ι)}
    (h : row ∈ (findMany db table userId ⟨filters, limit, cursor⟩).payload) :
    row ∈ matchingRows db table userId filters := by
  rw [findMany_eq hlimit] at h
  dsimp only at h
  split at h
  · have hrow := List.mem_of_mem_take (List.mem_reverse.1 h)
    exact List.mem_of_mem_filter (List.mem_reverse.1 hrow)
  · exact List.mem_of_mem_filter (List.mem_of_mem_take h)

/-- A row that matches is on the first page, if that is large enough. -/
theorem exists_mem_payload (h : row ∈ matchingRows db table userId filters) :
    ∃ limit : Int, 1 ≤ limit ∧
      row ∈ (findMany db table userId ⟨filters, limit, .null⟩).payload := by
  have hpos := List.length_pos_of_mem h
  have hlimit : 1 ≤ ((matchingRows db table userId filters).length : Int) := by omega
  refine ⟨_, hlimit, ?_⟩
  rw [findMany_first hlimit rfl, pageAt, List.drop_zero, Int.toNat_natCast, List.take_length]
  exact h

/-- Exactly: `false` is not asked for, or no webhook that the other filters leave is active. -/
theorem filters_applied_iff (db : Collation) (table : WebhookRecords ι τ) (userId : String)
    (filters : WebhookFilters) : FiltersApplied db table userId filters ↔
      (activeEq filters = .value false →
        ∀ row ∈ table.rows, SatisfiesTexts db userId filters row → row.isActive = 0) := by
  constructor
  · intro h hfalse row hrow htexts
    -- `false` leaves no condition, so the row is on some page
    have hwhere : whereFilters db userId filters row = true := by
      refine whereFilters_iff.2 ⟨htexts, fun htrue => ?_⟩
      rw [hfalse] at htrue
      cases htrue
    obtain ⟨limit, hlimit, hmem⟩ := exists_mem_payload (mem_matchingRows.2 ⟨hrow, hwhere⟩)
    exact (h.payload .null limit hlimit row hmem).2.isActive false hfalse
  · intro h
    constructor
    · -- a page has rows of the where-clause only
      intro cursor limit hlimit row hmem
      obtain ⟨hrow, hwhere⟩ := mem_matchingRows.1 (mem_matchingRows_of_mem_payload hlimit hmem)
      obtain ⟨htexts, htrue⟩ := whereFilters_iff.1 hwhere
      refine ⟨hrow, htexts, ?_⟩
      intro eq heq
      cases eq with
      | false => exact h heq row hrow htexts
      | true => exact htrue heq
    · intro row _ hsatisfies
      exact whereFilters_iff.2 ⟨hsatisfies.toSatisfiesTexts, hsatisfies.isActive true⟩

end Filters

/-- `{ and: { isActive: { eq: false } } }` -/
def onlyInactive : WebhookFilters := ⟨.value ⟨.undefined, .value ⟨.value false⟩, .undefined⟩⟩

def oneActive : WebhookRecords Nat Nat where
  rows := [webhookRow 1 10 1]
  unique := by decide

/-- The active webhook is returned. -/
theorem not_filtersApplied : ¬ FiltersApplied binaryCollation oneActive "user" onlyInactive := by
  intro h
  have hmem : webhookRow 1 10 1 ∈
      (findMany binaryCollation oneActive "user" ⟨onlyInactive, 1, .null⟩).payload := by decide
  have hactive := (h.payload .null 1 (by decide) _ hmem).2.isActive false rfl
  exact absurd hactive (by decide)

end BlockFeed.Spec
