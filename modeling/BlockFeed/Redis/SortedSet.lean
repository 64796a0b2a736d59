import Mathlib.Data.List.Sort
import Mathlib.Order.Defs.LinearOrder
import Mathlib.Order.Hom.Basic
import Mathlib.Tactic.Common

/-!
# Redis sorted sets

A sorted set maps distinct members to scores and lists them by score, members of one
score by their bytes. `SortedSet` keeps that list and carries its order and the
distinctness of its members as fields, so every operation returns a sorted set.

Each command has one membership lemma (`mem_entries_zadd`, `mem_entries_zaddNX`,
`mem_entries_zrem`, `mem_zrangeByScore`); clients of this file use those, not the list.
-/

namespace Redis

variable {σ μ : Type _} [LinearOrder σ] [LinearOrder μ]

/-- The order of the entries: by score, then by member. -/
def Precedes (a b : σ × μ) : Prop := a.1 < b.1 ∨ a.1 = b.1 ∧ a.2 ≤ b.2

instance : DecidableRel (Precedes (σ := σ) (μ := μ)) :=
  fun _ _ => inferInstanceAs (Decidable (_ ∨ _))

instance : Std.Total (Precedes (σ := σ) (μ := μ)) where
  total a b := by
    unfold Precedes
    rcases lt_trichotomy a.1 b.1 with h | h | h
    · exact .inl (.inl h)
    · rcases le_total a.2 b.2 with h' | h'
      · exact .inl (.inr ⟨h, h'⟩)
      · exact .inr (.inr ⟨h.symm, h'⟩)
    · exact .inr (.inl h)

instance : IsTrans (σ × μ) Precedes where
  trans a b c := by
    unfold Precedes
    rintro (hab | ⟨hab, hab'⟩) (hbc | ⟨hbc, hbc'⟩)
    · exact .inl (hab.trans hbc)
    · exact .inl (hbc ▸ hab)
    · exact .inl (hab ▸ hbc)
    · exact .inr ⟨hab.trans hbc, hab'.trans hbc'⟩

theorem Precedes.score_le {a b : σ × μ} (h : Precedes a b) : a.1 ≤ b.1 := by
  rcases h with h | ⟨h, _⟩
  · exact h.le
  · exact h.le

theorem Precedes.antisymm {a b : σ × μ} (hab : Precedes a b) (hba : Precedes b a) : a = b := by
  -- the scores agree, which leaves the comparison of the members
  have hs : a.1 = b.1 := le_antisymm hab.score_le hba.score_le
  rcases hab with h | ⟨_, h⟩
  · exact absurd hs h.ne
  rcases hba with h' | ⟨_, h'⟩
  · exact absurd hs h'.ne'
  exact Prod.ext hs (le_antisymm h h')

/-- A sorted set: entries in order, members distinct. -/
@[ext] structure SortedSet (σ μ : Type _) [LinearOrder σ] [LinearOrder μ] where
  entries : List (σ × μ)
  sorted : entries.Pairwise Precedes
  nodup : (entries.map Prod.snd).Nodup

namespace SortedSet

/-- The absent key. -/
def empty : SortedSet σ μ := ⟨[], .nil, .nil⟩

instance : Inhabited (SortedSet σ μ) := ⟨empty⟩

/-- The members in the order of the set. -/
def members (s : SortedSet σ μ) : List μ := s.entries.map Prod.snd

/-- ZCARD. -/
def zcard (s : SortedSet σ μ) : Nat := s.entries.length

@[simp] theorem entries_empty : (empty : SortedSet σ μ).entries = [] := rfl

@[simp] theorem members_empty : (empty : SortedSet σ μ).members = [] := rfl

theorem mem_members {s : SortedSet σ μ} {m : μ} : m ∈ s.members ↔ ∃ a, (a, m) ∈ s.entries := by
  simp [members]

theorem mem_members_of_mem {s : SortedSet σ μ} {e : σ × μ} (h : e ∈ s.entries) :
    e.2 ∈ s.members := List.mem_map_of_mem h

theorem members_nodup (s : SortedSet σ μ) : s.members.Nodup := s.nodup

/-- The entries determine the set, whatever way they were added. -/
theorem ext_mem {s t : SortedSet σ μ} (h : ∀ e, e ∈ s.entries ↔ e ∈ t.entries) : s = t := by
  -- two sorted arrangements of the same entries
  have hp : s.entries.Perm t.entries :=
    (List.perm_ext_iff_of_nodup (.of_map _ s.nodup) (.of_map _ t.nodup)).2 h
  exact SortedSet.ext
    (hp.eq_of_pairwise (fun a b _ _ hab hba => hab.antisymm hba) s.sorted t.sorted)

/-! ### Removing entries -/

/-- The entries that satisfy `p`. -/
def restrict (s : SortedSet σ μ) (p : σ × μ → Bool) : SortedSet σ μ :=
  ⟨s.entries.filter p, s.sorted.filter p, s.nodup.sublist (List.filter_sublist.map _)⟩

/-- When all scores are below a limit, nothing is at or above it. -/
theorem split_of_forall_lt {s : SortedSet σ μ} {limit : σ} (h : ∀ e ∈ s.entries, e.1 < limit) :
    s.restrict (fun e => limit ≤ e.1) = .empty ∧
      s.entries.filter (fun e => e.1 < limit) = s.entries := by
  constructor
  · apply SortedSet.ext
    apply List.filter_eq_nil_iff.2
    intro e he hle
    exact not_le.2 (h e he) (of_decide_eq_true hle)
  · exact List.filter_eq_self.2 fun e he => decide_eq_true (h e he)

/-- ZREM with one member. -/
def zrem (s : SortedSet σ μ) (m : μ) : SortedSet σ μ := s.restrict (fun e => e.2 ≠ m)

/-- ZREM with a list of members. -/
def zremAll (s : SortedSet σ μ) (ms : List μ) : SortedSet σ μ :=
  s.restrict (fun e => e.2 ∉ ms)

theorem mem_entries_zrem {s : SortedSet σ μ} {m : μ} {e : σ × μ} :
    e ∈ (s.zrem m).entries ↔ e ∈ s.entries ∧ e.2 ≠ m := by
  simp [zrem, restrict]

theorem mem_entries_zremAll {s : SortedSet σ μ} {ms : List μ} {e : σ × μ} :
    e ∈ (s.zremAll ms).entries ↔ e ∈ s.entries ∧ e.2 ∉ ms := by
  simp [zremAll, restrict]

theorem mem_members_zremAll {s : SortedSet σ μ} {ms : List μ} {m : μ} :
    m ∈ (s.zremAll ms).members ↔ m ∈ s.members ∧ m ∉ ms := by
  simp only [mem_members, mem_entries_zremAll, exists_and_right]

theorem zrem_eq_self {s : SortedSet σ μ} {m : μ} (h : m ∉ s.members) : s.zrem m = s := by
  refine ext_mem fun e => mem_entries_zrem.trans (and_iff_left_of_imp fun he hm => ?_)
  exact h (hm ▸ mem_members_of_mem he)

/-! ### Adding entries -/

/-- Inserts a new member at its place. -/
def insertNew (s : SortedSet σ μ) (a : σ) (m : μ) (h : m ∉ s.members) : SortedSet σ μ where
  entries := s.entries.orderedInsert Precedes (a, m)
  sorted := s.sorted.orderedInsert _ _
  nodup := by
    have hp := (List.perm_orderedInsert Precedes (a, m) s.entries).map Prod.snd
    exact hp.nodup_iff.2 (List.nodup_cons.2 ⟨h, s.nodup⟩)

/-- ZADD: sets the score of a member, adding it if it is new. -/
def zadd (s : SortedSet σ μ) (a : σ) (m : μ) : SortedSet σ μ :=
  (s.zrem m).insertNew a m (by simp [mem_members, mem_entries_zrem])

/-- ZADD NX: adds a member that is new and leaves a present one as it is. -/
def zaddNX (s : SortedSet σ μ) (a : σ) (m : μ) : SortedSet σ μ :=
  if h : m ∈ s.members then s else s.insertNew a m h

/-- ZADD with a list of score-member pairs. -/
def zaddAll (s : SortedSet σ μ) (es : List (σ × μ)) : SortedSet σ μ :=
  es.foldl (fun s e => s.zadd e.1 e.2) s

/-- ZADD NX with a list of score-member pairs. -/
def zaddNXAll (s : SortedSet σ μ) (es : List (σ × μ)) : SortedSet σ μ :=
  es.foldl (fun s e => s.zaddNX e.1 e.2) s

theorem entries_insertNew_perm (s : SortedSet σ μ) (a : σ) (m : μ) (h : m ∉ s.members) :
    (s.insertNew a m h).entries.Perm ((a, m) :: s.entries) :=
  List.perm_orderedInsert _ _ _

theorem mem_entries_zadd {s : SortedSet σ μ} {a : σ} {m : μ} {e : σ × μ} :
    e ∈ (s.zadd a m).entries ↔ e = (a, m) ∨ e ∈ s.entries ∧ e.2 ≠ m := by
  rw [zadd, (entries_insertNew_perm _ _ _ _).mem_iff, List.mem_cons, mem_entries_zrem]

/-- Adding an absent member adds one entry and moves no other. -/
theorem entries_zadd_perm {s : SortedSet σ μ} {a : σ} {m : μ} (h : m ∉ s.members) :
    (s.zadd a m).entries.Perm ((a, m) :: s.entries) := by
  show ((s.zrem m).entries.orderedInsert Precedes (a, m)).Perm _
  rw [zrem_eq_self h]
  exact List.perm_orderedInsert _ _ _

/-- What ZADD leaves is an old entry or one that was given. -/
theorem mem_entries_zaddAll {s : SortedSet σ μ} {es : List (σ × μ)} {e : σ × μ}
    (h : e ∈ (s.zaddAll es).entries) : e ∈ s.entries ∨ e ∈ es := by
  induction es generalizing s with
  | nil => exact .inl h
  | cons e' es ih =>
    rw [zaddAll, List.foldl_cons, ← zaddAll] at h
    cases ih h with
    | inl h =>
      cases mem_entries_zadd.1 h with
      | inl h => exact .inr (h ▸ List.mem_cons_self)
      | inr h => exact .inl h.1
    | inr h => exact .inr (List.mem_cons_of_mem _ h)

theorem mem_members_zadd {s : SortedSet σ μ} {a : σ} {m x : μ} :
    x ∈ (s.zadd a m).members ↔ x ∈ s.members ∨ x = m := by
  simp only [mem_members, mem_entries_zadd]
  constructor
  · rintro ⟨b, h | ⟨h, -⟩⟩
    · exact .inr (congrArg Prod.snd h)
    · exact .inl ⟨b, h⟩
  · intro h
    by_cases hx : x = m
    · exact ⟨a, .inl (by rw [hx])⟩
    · obtain ⟨b, hb⟩ := h.resolve_right hx
      exact ⟨b, .inr ⟨hb, hx⟩⟩

theorem mem_members_zaddAll {s : SortedSet σ μ} {es : List (σ × μ)} {x : μ} :
    x ∈ (s.zaddAll es).members ↔ x ∈ s.members ∨ ∃ e ∈ es, x = e.2 := by
  induction es generalizing s with
  | nil => simp [zaddAll]
  | cons e es ih =>
    rw [zaddAll, List.foldl_cons, ← zaddAll, ih, mem_members_zadd]
    simp [or_assoc]

theorem mem_entries_zaddNX {s : SortedSet σ μ} {a : σ} {m : μ} {e : σ × μ} :
    e ∈ (s.zaddNX a m).entries ↔ e ∈ s.entries ∨ e = (a, m) ∧ m ∉ s.members := by
  unfold zaddNX
  split
  · next h => simp [h]
  · next h => rw [(entries_insertNew_perm _ _ _ _).mem_iff, List.mem_cons]; simp [h, or_comm]

theorem mem_members_zaddNX {s : SortedSet σ μ} {a : σ} {m x : μ} :
    x ∈ (s.zaddNX a m).members ↔ x ∈ s.members ∨ x = m := by
  simp only [mem_members, mem_entries_zaddNX]
  constructor
  · rintro ⟨b, h | ⟨h, -⟩⟩
    · exact .inl ⟨b, h⟩
    · exact .inr (congrArg Prod.snd h)
  · rintro (⟨b, h⟩ | rfl)
    · exact ⟨b, .inl h⟩
    · -- present with its own score, or new with the given one
      by_cases hx : ∃ b, (b, x) ∈ s.entries
      · obtain ⟨b, hb⟩ := hx
        exact ⟨b, .inl hb⟩
      · exact ⟨a, .inr ⟨rfl, hx⟩⟩

theorem mem_members_zaddNXAll {s : SortedSet σ μ} {es : List (σ × μ)} {x : μ} :
    x ∈ (s.zaddNXAll es).members ↔ x ∈ s.members ∨ ∃ e ∈ es, x = e.2 := by
  induction es generalizing s with
  | nil => simp [zaddNXAll]
  | cons e es ih =>
    rw [zaddNXAll, List.foldl_cons, ← zaddNXAll, ih, mem_members_zaddNX]
    simp [or_assoc]

/-- What ZADD NX adds carries the score it was given. -/
theorem mem_entries_zaddNXAll {s : SortedSet σ μ} {es : List (σ × μ)} {e : σ × μ}
    (h : e ∈ (s.zaddNXAll es).entries) : e ∈ s.entries ∨ e ∈ es := by
  induction es generalizing s with
  | nil => exact .inl h
  | cons e' es ih =>
    rw [zaddNXAll, List.foldl_cons, ← zaddNXAll] at h
    rcases ih h with h | h
    · rcases mem_entries_zaddNX.1 h with h | ⟨h, -⟩
      · exact .inl h
      · exact .inr (h ▸ List.mem_cons_self)
    · exact .inr (List.mem_cons_of_mem _ h)

/-! ### Reading -/

/-- ZRANGE by index, both ends inclusive, negative indexes counted from the end. -/
def zrange (s : SortedSet σ μ) (start stop : Int) : List (σ × μ) :=
  let n : Int := s.zcard
  -- an index beyond an end is cut off there by `take` and `drop`
  let first := if start < 0 then n + start else start
  let last := if stop < 0 then n + stop else stop
  (s.entries.take (last + 1).toNat).drop first.toNat

/-- ZRANGE BYSCORE, both ends inclusive. -/
def zrangeByScore (s : SortedSet σ μ) (lo hi : σ) : List (σ × μ) :=
  s.entries.filter (fun e => lo ≤ e.1 ∧ e.1 ≤ hi)

/-- `ZRANGE key 0 (k - 1)`: the first `k` entries. -/
theorem zrange_first (s : SortedSet σ μ) {k : Nat} (hk : 0 < k) :
    s.zrange 0 (k - 1) = s.entries.take k := by
  have hstop : ¬ ((k : Int) - 1 < 0) := by omega
  simp [zrange, hstop]

/-- `ZRANGE key -k -1`: the last `k` entries. -/
theorem zrange_last (s : SortedSet σ μ) {k : Nat} (hk : 0 < k) :
    s.zrange (-k) (-1) = s.entries.drop (s.entries.length - k) := by
  have hlen : ((s.entries.length : Int) + -1 + 1).toNat = s.entries.length := by omega
  have hfirst : ((s.entries.length : Int) + -(k : Int)).toNat = s.entries.length - k := by omega
  have hstart : (-(k : Int) < 0) = True := by simp only [eq_iff_iff, iff_true]; omega
  simp only [zrange, zcard, hstart, if_true, hfirst, show ((-1 : Int) < 0) = True by decide,
    hlen, List.take_length]

theorem zrange_subset (s : SortedSet σ μ) (start stop : Int) : s.zrange start stop ⊆ s.entries :=
  fun _ h => List.mem_of_mem_take (List.mem_of_mem_drop h)

theorem mem_zrangeByScore {s : SortedSet σ μ} {lo hi : σ} {e : σ × μ} :
    e ∈ s.zrangeByScore lo hi ↔ e ∈ s.entries ∧ lo ≤ e.1 ∧ e.1 ≤ hi := by
  simp [zrangeByScore]

/-- The first entries of the set come before all others. -/
theorem precedes_of_mem_take {s : SortedSet σ μ} {k : Nat} {a b : σ × μ}
    (ha : a ∈ s.entries.take k) (hb : b ∈ s.entries) (hb' : b ∉ s.entries.take k) :
    Precedes a b := by
  -- an entry that is not among the first is among the rest
  rw [← List.take_append_drop k s.entries, List.mem_append] at hb
  have hs := s.sorted
  rw [← List.take_append_drop k s.entries, List.pairwise_append] at hs
  exact hs.2.2 a ha b (hb.resolve_left hb')

/-! ### Popping the minimum -/

/-- The set without its first entry. -/
def tail (s : SortedSet σ μ) : SortedSet σ μ :=
  ⟨s.entries.tail, s.sorted.tail, by rw [List.map_tail]; exact s.nodup.tail⟩

/-- ZPOPMIN: removes and returns the first entry. -/
def zpopmin (s : SortedSet σ μ) : Option ((σ × μ) × SortedSet σ μ) :=
  s.entries.head?.map (fun e => (e, s.tail))

theorem zpopmin_eq_none {s : SortedSet σ μ} : s.zpopmin = none ↔ s.entries = [] := by
  simp [zpopmin]

/-- ZPOPMIN splits the entries into head and tail. -/
theorem entries_of_zpopmin {s s' : SortedSet σ μ} {e : σ × μ} (h : s.zpopmin = some (e, s')) :
    s.entries = e :: s'.entries := by
  simp only [zpopmin, Option.map_eq_some_iff, Prod.mk.injEq] at h
  obtain ⟨a, ha, rfl, rfl⟩ := h
  exact (List.cons_head?_tail ha).symm

/-- The last entry of a nonempty set is preceded by every entry. -/
theorem score_le_getLast {s : SortedSet σ μ} {e m : σ × μ} (hm : s.entries.getLast? = some m)
    (he : e ∈ s.entries) : e.1 ≤ m.1 := by
  obtain ⟨l, hl⟩ := List.getLast?_eq_some_iff.1 hm
  have hs := s.sorted
  rw [hl] at he hs
  rcases List.mem_append.1 he with h | h
  · exact ((List.pairwise_append.1 hs).2.2 e h m (List.mem_singleton.2 rfl)).score_le
  · rw [List.mem_singleton.1 h]

/-! ### Renaming the members -/

section Map

variable {ν : Type _} [LinearOrder ν]

/-- The set with other names for its members, in the same order. -/
def map (f : μ ↪o ν) (s : SortedSet σ μ) : SortedSet σ ν where
  entries := s.entries.map fun e => (e.1, f e.2)
  sorted := by
    refine List.pairwise_map.2 (s.sorted.imp fun {a b} hab => ?_)
    rcases hab with hlt | ⟨heq, hle⟩
    · exact .inl hlt
    · exact .inr ⟨heq, f.le_iff_le.2 hle⟩
  nodup := by
    have hsnd : (s.entries.map fun e => (e.1, f e.2)).map Prod.snd = s.members.map f := by
      simp [members]
    rw [hsnd]
    exact s.nodup.map f.injective

variable (f : μ ↪o ν) (s : SortedSet σ μ)

theorem mem_entries_map {e : σ × ν} :
    e ∈ (s.map f).entries ↔ ∃ m, (e.1, m) ∈ s.entries ∧ f m = e.2 := by
  simp only [map, List.mem_map]
  constructor
  · rintro ⟨e', he', rfl⟩
    exact ⟨e'.2, he', rfl⟩
  · rintro ⟨m, hm, hfm⟩
    exact ⟨(e.1, m), hm, Prod.ext rfl hfm⟩

theorem mem_members_map {m : μ} : f m ∈ (s.map f).members ↔ m ∈ s.members := by
  simp [members, map]

@[simp] theorem map_empty : (empty : SortedSet σ μ).map f = empty := rfl

theorem zaddNX_map (a : σ) (m : μ) : (s.map f).zaddNX a (f m) = (s.zaddNX a m).map f := by
  apply ext_mem
  intro e
  simp only [mem_entries_zaddNX, mem_entries_map, mem_members_map]
  constructor
  · rintro (⟨m', hm', heq⟩ | ⟨rfl, hnew⟩)
    · exact ⟨m', .inl hm', heq⟩
    · exact ⟨m, .inr ⟨rfl, hnew⟩, rfl⟩
  · rintro ⟨m', hm' | ⟨heq, hnew⟩, hfm⟩
    · exact .inl ⟨m', hm', hfm⟩
    · obtain ⟨hfst, rfl⟩ := Prod.mk.injEq .. ▸ heq
      exact .inr ⟨Prod.ext hfst hfm.symm, hnew⟩

theorem zaddNXAll_map (es : List (σ × μ)) :
    (s.map f).zaddNXAll (es.map fun e => (e.1, f e.2)) = (s.zaddNXAll es).map f := by
  induction es generalizing s with
  | nil => rfl
  | cons e es ih =>
    show ((s.map f).zaddNX e.1 (f e.2)).zaddNXAll _ = _
    rw [zaddNX_map, ih]
    rfl

theorem zremAll_map (ms : List μ) : (s.map f).zremAll (ms.map f) = (s.zremAll ms).map f := by
  apply ext_mem
  intro e
  simp only [mem_entries_zremAll, mem_entries_map]
  constructor
  · rintro ⟨⟨m, hm, heq⟩, hnot⟩
    exact ⟨m, ⟨hm, fun hin => hnot (heq ▸ List.mem_map_of_mem hin)⟩, heq⟩
  · rintro ⟨m, ⟨hm, hnot⟩, heq⟩
    refine ⟨⟨m, hm, heq⟩, fun hin => hnot ?_⟩
    rw [← heq, List.mem_map_of_injective f.injective] at hin
    exact hin

theorem zrange_map (start stop : Int) :
    (s.map f).zrange start stop = (s.zrange start stop).map fun e => (e.1, f e.2) := by
  simp [zrange, zcard, map]

theorem zrangeByScore_map (lo hi : σ) :
    (s.map f).zrangeByScore lo hi = (s.zrangeByScore lo hi).map fun e => (e.1, f e.2) := by
  simp only [zrangeByScore, map, List.filter_map]
  rfl

end Map

end SortedSet

end Redis
