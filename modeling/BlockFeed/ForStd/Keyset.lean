import Mathlib.Data.List.Sort
import Mathlib.Order.Defs.LinearOrder

/-!
# Keyset pagination

Rows of a table are listed by descending key, and a page begins after a row that is known by its
key. `descending` and `ascending` are the two orders that a query may ask for.

- `descending_eq_of_mem_iff`: rows with different keys are listed in one way only.
- `ascending_eq_reverse`, `descending_filter`: reading backwards, and conditions on rows.
- `filter_below`, `filter_above`: what comes after and before a row.
- `lt_of_not_mem_take`, `not_lt_getLast`: what a page leaves for later.
- `lookAhead`: a query for one row more than the page has room for.
-/

namespace Keyset

variable {α κ : Type _} [LinearOrder κ] (key : α → κ)

/-- `ORDER BY key DESC`. -/
def descending (rows : List α) : List α := rows.insertionSort fun a b => key b ≤ key a

/-- `ORDER BY key ASC`. -/
def ascending (rows : List α) : List α := rows.insertionSort fun a b => key a ≤ key b

variable {key} {rows : List α} {a : α}

@[simp] theorem mem_descending : a ∈ descending key rows ↔ a ∈ rows := List.mem_insertionSort _

@[simp] theorem mem_ascending : a ∈ ascending key rows ↔ a ∈ rows := List.mem_insertionSort _

/-! ### Rows with different keys -/

theorem descending_pairwise (h : (rows.map key).Nodup) :
    (descending key rows).Pairwise (fun a b => key b < key a) := by
  have : Std.Total fun a b : α => key b ≤ key a := ⟨fun a b => le_total (key b) (key a)⟩
  have : IsTrans α fun a b => key b ≤ key a := ⟨fun _ _ _ hab hbc => le_trans hbc hab⟩
  have hle := List.pairwise_insertionSort (fun a b => key b ≤ key a) rows
  have hne : (descending key rows).Pairwise (fun a b => key a ≠ key b) := by
    have hperm := (List.perm_insertionSort (fun a b => key b ≤ key a) rows).map key
    exact List.pairwise_map.1 (hperm.nodup_iff.2 h)
  exact (hle.and hne).imp fun hab => lt_of_le_of_ne hab.1 (Ne.symm hab.2)

theorem ascending_pairwise (h : (rows.map key).Nodup) :
    (ascending key rows).Pairwise (fun a b => key a < key b) := by
  have : Std.Total fun a b : α => key a ≤ key b := ⟨fun a b => le_total (key a) (key b)⟩
  have : IsTrans α fun a b => key a ≤ key b := ⟨fun _ _ _ hab hbc => le_trans hab hbc⟩
  have hle := List.pairwise_insertionSort (fun a b => key a ≤ key b) rows
  have hne : (ascending key rows).Pairwise (fun a b => key a ≠ key b) := by
    have hperm := (List.perm_insertionSort (fun a b => key a ≤ key b) rows).map key
    exact List.pairwise_map.1 (hperm.nodup_iff.2 h)
  exact (hle.and hne).imp fun hab => lt_of_le_of_ne hab.1 hab.2

/-- A list by descending key is determined by its rows. -/
theorem eq_of_mem_iff {xs ys : List α} (hx : xs.Pairwise (fun a b => key b < key a))
    (hy : ys.Pairwise (fun a b => key b < key a)) (h : ∀ a, a ∈ xs ↔ a ∈ ys) : xs = ys := by
  have : Std.Antisymm fun a b : α => key b < key a :=
    ⟨fun _ _ hab hba => absurd hab (lt_asymm hba)⟩
  have : Std.Irrefl fun a b : α => key b < key a := ⟨fun _ => lt_irrefl _⟩
  exact hx.eq_of_mem_iff hy @h

theorem descending_eq_of_mem_iff (h : (rows.map key).Nodup) {xs : List α}
    (hx : xs.Pairwise (fun a b => key b < key a)) (hmem : ∀ a, a ∈ xs ↔ a ∈ rows) :
    descending key rows = xs := by
  apply eq_of_mem_iff (descending_pairwise h) hx
  intro a
  rw [mem_descending, hmem]

/-- The other order lists the rows backwards. -/
theorem ascending_eq_reverse (h : (rows.map key).Nodup) :
    ascending key rows = (descending key rows).reverse := by
  rw [← List.reverse_inj, List.reverse_reverse]
  apply eq_of_mem_iff (List.pairwise_reverse.2 (ascending_pairwise h)) (descending_pairwise h)
  intro a
  rw [List.mem_reverse, mem_ascending, mem_descending]

theorem descending_filter (h : (rows.map key).Nodup) (p : α → Bool) :
    descending key (rows.filter p) = (descending key rows).filter p := by
  apply descending_eq_of_mem_iff (h.sublist (List.filter_sublist.map key))
    ((descending_pairwise h).filter p)
  intro a
  rw [List.mem_filter, List.mem_filter, mem_descending]

/-! ### Around a row -/

/-- What comes after a row has lower keys. -/
theorem filter_below {before after : List α}
    (h : (before ++ a :: after).Pairwise (fun a b => key b < key a)) :
    (before ++ a :: after).filter (fun b => key b < key a) = after := by
  obtain ⟨-, hafter, hbefore⟩ := List.pairwise_append.1 h
  rw [List.filter_append, List.filter_cons_of_neg (by simp)]
  rw [List.filter_eq_nil_iff.2, List.nil_append, List.filter_eq_self]
  · intro b hb
    exact decide_eq_true ((List.pairwise_cons.1 hafter).1 b hb)
  · intro b hb hlt
    exact lt_asymm (of_decide_eq_true hlt) (hbefore b hb a List.mem_cons_self)

/-- What comes before a row has greater keys. -/
theorem filter_above {before after : List α}
    (h : (before ++ a :: after).Pairwise (fun a b => key b < key a)) :
    (before ++ a :: after).filter (fun b => key a < key b) = before := by
  obtain ⟨-, hafter, hbefore⟩ := List.pairwise_append.1 h
  rw [List.filter_append, List.filter_cons_of_neg (by simp)]
  rw [List.filter_eq_self.2, List.filter_eq_nil_iff.2, List.append_nil]
  · intro b hb hlt
    exact lt_asymm (of_decide_eq_true hlt) ((List.pairwise_cons.1 hafter).1 b hb)
  · intro b hb
    exact decide_eq_true (hbefore b hb a List.mem_cons_self)

/-- What is not on the first page has lower keys than what is. -/
theorem lt_of_not_mem_take {xs : List α} (h : xs.Pairwise (fun a b => key b < key a)) {n : Nat}
    {b : α} (ha : a ∈ xs.take n) (hb : b ∈ xs) (hb' : b ∉ xs.take n) : key b < key a := by
  rw [← List.take_append_drop n xs] at h hb
  have hdrop := (List.mem_append.1 hb).resolve_left hb'
  exact (List.pairwise_append.1 h).2.2 a ha b hdrop

/-- The last row has the least key. -/
theorem not_lt_getLast {xs : List α} (h : xs.Pairwise (fun a b => key b < key a)) {b : α}
    (hlast : xs.getLast? = some b) (ha : a ∈ xs) : ¬ key a < key b := by
  obtain ⟨init, rfl⟩ := List.getLast?_eq_some_iff.1 hlast
  cases List.mem_append.1 ha with
  | inl hinit => exact lt_asymm ((List.pairwise_append.1 h).2.2 a hinit b List.mem_cons_self)
  | inr hb =>
    rw [List.mem_singleton.1 hb]
    exact lt_irrefl _

/-- With one row more it is seen whether there are more rows, and without it the page is left. -/
theorem lookAhead (xs : List α) (n : Nat) :
    (n < (xs.take (n + 1)).length ↔ n < xs.length) ∧
      (if n < xs.length then (xs.take (n + 1)).dropLast else xs.take (n + 1)) = xs.take n := by
  constructor
  · rw [List.length_take]
    omega
  · split
    · next hlt =>
      rw [List.dropLast_eq_take, List.length_take, List.take_take]
      congr 1
      omega
    · next hge => rw [List.take_of_length_le (by omega), List.take_of_length_le (by omega)]

end Keyset
