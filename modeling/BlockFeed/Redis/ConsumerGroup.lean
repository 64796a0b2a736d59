import Mathlib.Data.List.Basic
import Mathlib.Data.List.Nodup
import Mathlib.Tactic.Common

/-!
# Redis streams with a consumer group

A `GroupStream` is a stream together with one consumer group on it. Entries carry the IDs
that XADD generates; only the order of IDs matters, so they are the numbers 1, 2, 3, ...
and `0-0` is 0. The group remembers the last ID it delivered and, in its pending-entries
list (PEL), who was given each entry that is not acknowledged yet and how often.

The fields keep the IDs ascending and the PEL below the last delivered ID. XACK and XDEL
are independent: a PEL entry can outlive its stream entry, and reading it again then
yields no data.
-/

namespace Redis

/-- An entry of the PEL. -/
structure PelEntry (κ : Type _) where
  id : Nat
  consumer : κ
  deliveries : Nat
deriving DecidableEq, Repr

/-- A stream and its consumer group. -/
@[ext] structure GroupStream (κ α : Type _) where
  entries : List (Nat × α)
  lastId : Nat
  lastDelivered : Nat
  pel : List (PelEntry κ)
  sorted : entries.Pairwise (fun a b => a.1 < b.1)
  bounded : ∀ e ∈ entries, 0 < e.1 ∧ e.1 ≤ lastId
  pelSorted : pel.Pairwise (fun a b => a.id < b.id)
  pelBounded : ∀ p ∈ pel, 0 < p.id ∧ p.id ≤ lastDelivered
  delivered_le : lastDelivered ≤ lastId

namespace GroupStream

variable {κ α : Type _}

/-- XGROUP CREATE key group 0-0 MKSTREAM. -/
def empty : GroupStream κ α where
  entries := []
  lastId := 0
  lastDelivered := 0
  pel := []
  sorted := .nil
  bounded := by simp
  pelSorted := .nil
  pelBounded := by simp
  delivered_le := Nat.le_refl 0

/-- XADD key `*`. -/
def xadd (s : GroupStream κ α) (v : α) : GroupStream κ α where
  entries := s.entries ++ [(s.lastId + 1, v)]
  lastId := s.lastId + 1
  lastDelivered := s.lastDelivered
  pel := s.pel
  sorted := by
    refine List.pairwise_append.2 ⟨s.sorted, List.pairwise_singleton _ _, fun a ha b hb => ?_⟩
    rw [List.mem_singleton.1 hb]
    exact Nat.lt_succ_of_le (s.bounded a ha).2
  bounded := by
    intro e he
    rcases List.mem_append.1 he with h | h
    · have := s.bounded e h; omega
    · rw [List.mem_singleton.1 h]; exact ⟨Nat.succ_pos _, Nat.le_refl _⟩
  pelSorted := s.pelSorted
  pelBounded := s.pelBounded
  delivered_le := Nat.le_succ_of_le s.delivered_le

/-- XADD in a loop. -/
def xaddAll (s : GroupStream κ α) (vs : List α) : GroupStream κ α := vs.foldl xadd s

/-- The entries the group has not delivered to anyone. -/
def unread (s : GroupStream κ α) : List (Nat × α) :=
  s.entries.filter (fun e => s.lastDelivered < e.1)

theorem mem_unread {s : GroupStream κ α} {e : Nat × α} :
    e ∈ s.unread ↔ e ∈ s.entries ∧ s.lastDelivered < e.1 := by
  simp [unread]

theorem unread_sorted (s : GroupStream κ α) : s.unread.Pairwise (fun a b => a.1 < b.1) :=
  s.sorted.filter _

/-- The last delivered ID once `new` has been delivered. -/
def deliveredThrough (s : GroupStream κ α) (new : List (Nat × α)) : Nat :=
  new.getLast?.elim s.lastDelivered Prod.fst

private theorem le_deliveredThrough {s : GroupStream κ α} {new : List (Nat × α)}
    (hs : new.Pairwise (fun a b => a.1 < b.1)) :
    ∀ e ∈ new, e.1 ≤ s.deliveredThrough new := by
  intro e he
  rcases List.eq_nil_or_concat new with rfl | ⟨l, m, rfl⟩
  · cases he
  · simp only [deliveredThrough, List.concat_eq_append, List.getLast?_append,
      List.getLast?_singleton, Option.some_or, Option.elim_some]
    rw [List.concat_eq_append, List.pairwise_append] at hs
    rw [List.concat_eq_append] at he
    rcases List.mem_append.1 he with h | h
    · exact Nat.le_of_lt (hs.2.2 e h m (List.mem_singleton.2 rfl))
    · exact Nat.le_of_eq (congrArg Prod.fst (List.mem_singleton.1 h))

private theorem deliveredThrough_le {s : GroupStream κ α} {new : List (Nat × α)}
    {b : Nat} (hb : ∀ e ∈ new, e.1 ≤ b) (hd : s.lastDelivered ≤ b) :
    s.deliveredThrough new ≤ b := by
  unfold deliveredThrough
  cases h : new.getLast? with
  | none => exact hd
  | some m => exact hb m (List.mem_of_getLast? h)

private theorem lastDelivered_le_deliveredThrough {s : GroupStream κ α} {n : Nat} :
    s.lastDelivered ≤ s.deliveredThrough (s.unread.take n) := by
  unfold deliveredThrough
  cases h : (s.unread.take n).getLast? with
  | none => exact Nat.le_refl _
  | some m =>
    exact Nat.le_of_lt (mem_unread.1 (List.mem_of_mem_take (List.mem_of_getLast? h))).2

/-- XREADGROUP with the ID `>` and COUNT `n`: the next entries nobody was given. -/
def xreadgroupNew (s : GroupStream κ α) (c : κ) (n : Nat) :
    List (Nat × α) × GroupStream κ α :=
  let new := s.unread.take n
  (new,
    { s with
      lastDelivered := s.deliveredThrough new
      pel := s.pel ++ new.map (fun e => ⟨e.1, c, 1⟩)
      pelSorted := by
        refine List.pairwise_append.2 ⟨s.pelSorted, ?_, ?_⟩
        · exact List.pairwise_map.2 (s.unread_sorted.sublist (List.take_sublist _ _))
        · intro p hp q hq
          obtain ⟨e, he, rfl⟩ := List.mem_map.1 hq
          have hp' := (s.pelBounded p hp).2
          have he' := (mem_unread.1 (List.mem_of_mem_take he)).2
          exact Nat.lt_of_le_of_lt hp' he'
      pelBounded := by
        intro p hp
        rcases List.mem_append.1 hp with h | h
        · have := s.pelBounded p h
          exact ⟨this.1, Nat.le_trans this.2 lastDelivered_le_deliveredThrough⟩
        · obtain ⟨e, he, rfl⟩ := List.mem_map.1 h
          have hmem := (mem_unread.1 (List.mem_of_mem_take he)).1
          exact ⟨(s.bounded e hmem).1,
            le_deliveredThrough (s.unread_sorted.sublist (List.take_sublist _ _)) e he⟩
      delivered_le :=
        deliveredThrough_le
          (fun e he => (s.bounded e (mem_unread.1 (List.mem_of_mem_take he)).1).2)
          s.delivered_le })

/-- XACK. -/
def xack (s : GroupStream κ α) (ids : List Nat) : GroupStream κ α :=
  { s with
    pel := s.pel.filter (fun p => p.id ∉ ids)
    pelSorted := s.pelSorted.filter _
    pelBounded := fun p hp => s.pelBounded p (List.mem_of_mem_filter hp) }

/-- XDEL. -/
def xdel (s : GroupStream κ α) (ids : List Nat) : GroupStream κ α :=
  { s with
    entries := s.entries.filter (fun e => e.1 ∉ ids)
    sorted := s.sorted.filter _
    bounded := fun e he => s.bounded e (List.mem_of_mem_filter he) }

/-- The data of an entry, if it has not been deleted. -/
def get? (s : GroupStream κ α) (id : Nat) : Option α :=
  (s.entries.find? (fun e => e.1 = id)).map Prod.snd

section Consumer

variable [DecidableEq κ]

/-- The PEL of one consumer. -/
def pelOf (s : GroupStream κ α) (c : κ) : List (PelEntry κ) :=
  s.pel.filter (fun p => p.consumer = c)

theorem mem_pelOf {s : GroupStream κ α} {c : κ} {p : PelEntry κ} :
    p ∈ s.pelOf c ↔ p ∈ s.pel ∧ p.consumer = c := by
  simp [pelOf]

/-- The first `n` entries of a consumer's PEL after an ID. -/
def backlog (s : GroupStream κ α) (c : κ) (cursor n : Nat) : List (PelEntry κ) :=
  ((s.pelOf c).filter (fun p => cursor < p.id)).take n

/-- XREADGROUP with an explicit ID and COUNT `n`: the consumer's own pending entries after
    that ID, with their delivery counts advanced. A deleted entry comes without data and
    keeps its count. -/
def xreadgroupFrom (s : GroupStream κ α) (c : κ) (cursor n : Nat) :
    List (Nat × Option α) × GroupStream κ α :=
  let mine := s.backlog c cursor n
  -- `delivery_count` counts the deliveries with data
  let advance (p : PelEntry κ) : PelEntry κ :=
    if p ∈ mine ∧ (s.get? p.id).isSome then { p with deliveries := p.deliveries + 1 } else p
  have advance_id : ∀ p, (advance p).id = p.id := fun p => by
    show (if _ then _ else _ : PelEntry κ).id = _
    split <;> rfl
  (mine.map (fun p => (p.id, s.get? p.id)),
    { s with
      pel := s.pel.map advance
      pelSorted := by
        refine List.pairwise_map.2 (s.pelSorted.imp fun h => ?_)
        rwa [advance_id, advance_id]
      pelBounded := by
        intro p hp
        obtain ⟨q, hq, rfl⟩ := List.mem_map.1 hp
        rw [advance_id]
        exact s.pelBounded q hq })

/-- XPENDING key group id id 1 consumer. -/
def xpending (s : GroupStream κ α) (c : κ) (id : Nat) : Option (PelEntry κ) :=
  (s.pelOf c).find? (fun p => p.id = id)

end Consumer

/-! ### What each command leaves behind -/

@[simp] theorem entries_xadd (s : GroupStream κ α) (v : α) :
    (s.xadd v).entries = s.entries ++ [(s.lastId + 1, v)] := rfl

@[simp] theorem pel_xadd (s : GroupStream κ α) (v : α) : (s.xadd v).pel = s.pel := rfl

/-- A new entry waits behind all unread ones. -/
@[simp] theorem unread_xadd (s : GroupStream κ α) (v : α) :
    (s.xadd v).unread = s.unread ++ [(s.lastId + 1, v)] := by
  have h : s.lastDelivered < s.lastId + 1 := Nat.lt_succ_of_le s.delivered_le
  show (s.entries ++ [(s.lastId + 1, v)]).filter (fun e => s.lastDelivered < e.1) = _
  rw [List.filter_append, List.filter_singleton, decide_eq_true h, cond_true]
  rfl

@[simp] theorem xaddAll_nil (s : GroupStream κ α) : s.xaddAll [] = s := rfl

@[simp] theorem xaddAll_cons (s : GroupStream κ α) (v : α) (vs : List α) :
    s.xaddAll (v :: vs) = (s.xadd v).xaddAll vs := rfl

@[simp] theorem pel_xaddAll (s : GroupStream κ α) (vs : List α) :
    (s.xaddAll vs).pel = s.pel := by
  induction vs generalizing s with
  | nil => rfl
  | cons v vs ih => rw [xaddAll_cons, ih, pel_xadd]

@[simp] theorem lastDelivered_xaddAll (s : GroupStream κ α) (vs : List α) :
    (s.xaddAll vs).lastDelivered = s.lastDelivered := by
  induction vs generalizing s with
  | nil => rfl
  | cons v vs ih =>
    rw [xaddAll_cons, ih]
    rfl

/-- The values are added at the end, in order. -/
theorem values_xaddAll (s : GroupStream κ α) (vs : List α) :
    (s.xaddAll vs).entries.map Prod.snd = s.entries.map Prod.snd ++ vs := by
  induction vs generalizing s with
  | nil => rw [xaddAll_nil, List.append_nil]
  | cons v vs ih =>
    rw [xaddAll_cons, ih, entries_xadd, List.map_append, List.append_assoc]
    rfl

/-- No entry is lost, and each new one carries a value that was added. -/
theorem entries_xaddAll_subset (s : GroupStream κ α) (vs : List α) :
    s.entries ⊆ (s.xaddAll vs).entries := by
  induction vs generalizing s with
  | nil => exact List.Subset.refl _
  | cons v vs ih =>
    rw [xaddAll_cons]
    exact fun e he => ih (s.xadd v) (List.mem_append_left _ he)

theorem mem_entries_xaddAll {s : GroupStream κ α} {vs : List α} {e : Nat × α}
    (h : e ∈ (s.xaddAll vs).entries) : e ∈ s.entries ∨ e.2 ∈ vs := by
  induction vs generalizing s with
  | nil => exact .inl h
  | cons v vs ih =>
    rw [xaddAll_cons] at h
    cases ih h with
    | inl h =>
      rw [entries_xadd, List.mem_append, List.mem_singleton] at h
      cases h with
      | inl h => exact .inl h
      | inr h => exact .inr (h ▸ List.mem_cons_self)
    | inr h => exact .inr (List.mem_cons_of_mem _ h)

@[simp] theorem pel_xreadgroupNew (s : GroupStream κ α) (c : κ) (n : Nat) :
    (s.xreadgroupNew c n).2.pel = s.pel ++ (s.unread.take n).map (fun e => ⟨e.1, c, 1⟩) := rfl

/-- The mark of the group only moves forward. -/
theorem lastDelivered_le_xreadgroupNew (s : GroupStream κ α) (c : κ) (n : Nat) :
    s.lastDelivered ≤ (s.xreadgroupNew c n).2.lastDelivered :=
  lastDelivered_le_deliveredThrough

/-- A read with `>` takes its entries off the front of the unread ones. -/
theorem unread_xreadgroupNew (s : GroupStream κ α) (c : κ) (n : Nat) :
    (s.xreadgroupNew c n).2.unread = s.unread.drop n := by
  have hmark : s.lastDelivered ≤ s.deliveredThrough (s.unread.take n) :=
    lastDelivered_le_deliveredThrough
  -- the new mark lies between what was read and what was not
  obtain ⟨htake, hdrop⟩ : (∀ e ∈ s.unread.take n, e.1 ≤ s.deliveredThrough (s.unread.take n)) ∧
      ∀ e ∈ s.unread.drop n, s.deliveredThrough (s.unread.take n) < e.1 := by
    have hsorted := s.unread_sorted
    rw [← List.take_append_drop n s.unread, List.pairwise_append] at hsorted
    refine ⟨le_deliveredThrough hsorted.1, fun e he => ?_⟩
    unfold deliveredThrough
    cases h : (s.unread.take n).getLast? with
    | none => exact (mem_unread.1 (List.mem_of_mem_drop he)).2
    | some m => exact hsorted.2.2 m (List.mem_of_getLast? h) e he
  show s.entries.filter (fun e => s.deliveredThrough (s.unread.take n) < e.1) = _
  generalize s.deliveredThrough (s.unread.take n) = mark at hmark htake hdrop
  -- what is above the new mark is above the old one, so filter the unread entries only
  calc s.entries.filter (fun e => mark < e.1)
      = s.unread.filter (fun e => mark < e.1) := by
        rw [unread, List.filter_filter]
        refine List.filter_congr fun e _ => ?_
        by_cases h : mark < e.1
        · simp [h, Nat.lt_of_le_of_lt hmark h]
        · simp [h]
    _ = (s.unread.take n ++ s.unread.drop n).filter (fun e => mark < e.1) := by
        rw [List.take_append_drop]
    _ = s.unread.drop n := by
        rw [List.filter_append,
          List.filter_eq_nil_iff.2 fun e he h => Nat.not_lt.2 (htake e he) (of_decide_eq_true h),
          List.filter_eq_self.2 fun e he => decide_eq_true (hdrop e he), List.nil_append]

/-- Unread entries up to the new mark are the ones that were read. -/
theorem mem_take_of_le_lastDelivered {s : GroupStream κ α} {c : κ} {n : Nat} {e : Nat × α}
    (h : e ∈ s.unread) (hle : e.1 ≤ (s.xreadgroupNew c n).2.lastDelivered) :
    e ∈ s.unread.take n := by
  rw [← List.take_append_drop n s.unread, List.mem_append] at h
  cases h with
  | inl h => exact h
  | inr h =>
    rw [← unread_xreadgroupNew s c n] at h
    exact absurd (mem_unread.1 h).2 (Nat.not_lt.2 hle)

@[simp] theorem pel_xack (s : GroupStream κ α) (ids : List Nat) :
    (s.xack ids).pel = s.pel.filter (fun p => p.id ∉ ids) := rfl

@[simp] theorem unread_xack (s : GroupStream κ α) (ids : List Nat) :
    (s.xack ids).unread = s.unread := rfl

theorem unread_xdel (s : GroupStream κ α) (ids : List Nat) :
    (s.xdel ids).unread = s.unread.filter (fun e => e.1 ∉ ids) := by
  show (s.entries.filter (fun e => e.1 ∉ ids)).filter (fun e => s.lastDelivered < e.1) = _
  rw [unread, List.filter_filter, List.filter_filter]
  exact List.filter_congr fun e _ => Bool.and_comm _ _

/-- IDs are unique. -/
theorem entry_unique {s : GroupStream κ α} {id : Nat} {v w : α} (hv : (id, v) ∈ s.entries)
    (hw : (id, w) ∈ s.entries) : v = w := by
  have hnd : (s.entries.map Prod.fst).Nodup :=
    List.pairwise_map.2 (s.sorted.imp Nat.ne_of_lt)
  exact congrArg Prod.snd (List.inj_on_of_nodup_map hnd hv hw rfl)

/-- Deleting an entry takes one value away. -/
theorem values_xdel_perm {s : GroupStream κ α} {id : Nat} {v : α} (h : (id, v) ∈ s.entries) :
    (s.entries.map Prod.snd).Perm (v :: (s.xdel [id]).entries.map Prod.snd) := by
  have hnd : s.entries.Nodup := s.sorted.imp fun hlt heq => Nat.ne_of_lt hlt (congrArg Prod.fst heq)
  -- the entries with this ID are this one entry
  have hone : (s.entries.filter (fun e => e.1 ∈ [id])).Perm [(id, v)] := by
    rw [List.perm_ext_iff_of_nodup (hnd.filter _) (List.nodup_singleton _)]
    intro e
    simp only [List.mem_filter, List.mem_singleton, decide_eq_true_eq]
    constructor
    · intro he
      obtain ⟨j, w⟩ := e
      obtain ⟨hmem, rfl⟩ := he
      rw [entry_unique hmem h]
    · intro he
      rw [he]
      exact ⟨h, rfl⟩
  -- split the entries into it and the others
  have hsplit := List.filter_append_perm (fun e : Nat × α => decide (e.1 ∈ [id])) s.entries
  have hrest : s.entries.filter (fun e => !decide (e.1 ∈ [id])) = (s.xdel [id]).entries :=
    List.filter_congr fun e _ => (decide_not).symm
  rw [hrest] at hsplit
  exact (hsplit.symm.trans (hone.append_right _)).map Prod.snd

/-! ### Deleted entries -/

/-- An ID that XADD has generated and whose entry is gone. -/
def Deleted (s : GroupStream κ α) (id : Nat) : Prop := id ≤ s.lastId ∧ ∀ e ∈ s.entries, e.1 ≠ id

theorem deleted_xdel {s : GroupStream κ α} {id : Nat} {v : α} (h : (id, v) ∈ s.entries) :
    (s.xdel [id]).Deleted id := by
  refine ⟨(s.bounded _ h).2, fun e he => ?_⟩
  have hne := of_decide_eq_true (List.mem_filter.1 he).2
  exact fun heq => hne (List.mem_singleton.2 heq)

/-- Deleting other entries changes nothing. -/
theorem Deleted.xdel {s : GroupStream κ α} {id : Nat} (h : s.Deleted id) (ids : List Nat) :
    (s.xdel ids).Deleted id :=
  ⟨h.1, fun e he => h.2 e (List.mem_of_mem_filter he)⟩

/-- No ID is generated twice. -/
theorem Deleted.xadd {s : GroupStream κ α} {id : Nat} (h : s.Deleted id) (v : α) :
    (s.xadd v).Deleted id := by
  refine ⟨Nat.le_succ_of_le h.1, fun e he => ?_⟩
  rw [entries_xadd, List.mem_append, List.mem_singleton] at he
  cases he with
  | inl he => exact h.2 e he
  | inr he =>
    have hle := h.1
    rw [he]
    show s.lastId + 1 ≠ id
    omega

theorem Deleted.xaddAll {s : GroupStream κ α} {id : Nat} (h : s.Deleted id) (vs : List α) :
    (s.xaddAll vs).Deleted id := by
  induction vs generalizing s with
  | nil => exact h
  | cons v vs ih =>
    rw [xaddAll_cons]
    exact ih (h.xadd v)

/-- Deleting it once more changes nothing. -/
theorem Deleted.entries_xdel {s : GroupStream κ α} {id : Nat} (h : s.Deleted id) :
    (s.xdel [id]).entries = s.entries := by
  apply List.filter_eq_self.2
  intro e he
  exact decide_eq_true fun hmem => h.2 e he (List.mem_singleton.1 hmem)

/-- Looking an ID up finds the entry with that ID. -/
theorem get?_eq_some {s : GroupStream κ α} {id : Nat} {v : α} :
    s.get? id = some v ↔ (id, v) ∈ s.entries := by
  simp only [get?, Option.map_eq_some_iff]
  constructor
  · rintro ⟨⟨j, w⟩, hfind, rfl⟩
    have hid : j = id := by simpa using List.find?_some hfind
    exact hid ▸ List.mem_of_find?_eq_some hfind
  · intro hmem
    cases hfind : s.entries.find? (fun e => e.1 = id) with
    | none => exact absurd (decide_eq_true rfl) (List.find?_eq_none.1 hfind (id, v) hmem)
    | some e =>
      obtain ⟨j, w⟩ := e
      have hid : j = id := by simpa using List.find?_some hfind
      exact ⟨(j, w), rfl, entry_unique (hid ▸ List.mem_of_find?_eq_some hfind) hmem⟩

section ConsumerLemmas

variable [DecidableEq κ]

/-- A read with `>` gives its entries to the reader. -/
theorem pelOf_xreadgroupNew_self (s : GroupStream κ α) (c : κ) (n : Nat) :
    (s.xreadgroupNew c n).2.pelOf c =
      s.pelOf c ++ (s.unread.take n).map (fun e => ⟨e.1, c, 1⟩) := by
  rw [pelOf, pel_xreadgroupNew, List.filter_append]
  congr 1
  refine List.filter_eq_self.2 fun p hp => ?_
  obtain ⟨e, _, rfl⟩ := List.mem_map.1 hp
  exact decide_eq_true rfl

/-- A read with `>` leaves every other consumer's PEL alone. -/
theorem pelOf_xreadgroupNew_ne (s : GroupStream κ α) {c d : κ} (h : d ≠ c) (n : Nat) :
    (s.xreadgroupNew d n).2.pelOf c = s.pelOf c := by
  rw [pelOf, pel_xreadgroupNew, List.filter_append]
  have hnil : ((s.unread.take n).map (fun e => (⟨e.1, d, 1⟩ : PelEntry κ))).filter
      (fun p => p.consumer = c) = [] := by
    refine List.filter_eq_nil_iff.2 fun p hp => ?_
    obtain ⟨e, _, rfl⟩ := List.mem_map.1 hp
    simpa using h
  rw [hnil, List.append_nil, pelOf]

theorem pelOf_xack (s : GroupStream κ α) (ids : List Nat) (c : κ) :
    (s.xack ids).pelOf c = (s.pelOf c).filter (fun p => p.id ∉ ids) := by
  rw [pelOf, pel_xack, pelOf, List.filter_filter, List.filter_filter]
  exact List.filter_congr fun p _ => Bool.and_comm _ _

@[simp] theorem entries_xreadgroupFrom (s : GroupStream κ α) (c : κ) (k n : Nat) :
    (s.xreadgroupFrom c k n).2.entries = s.entries := rfl

/-- Reading a backlog changes delivery counts only: IDs and owners stay. -/
theorem map_pel_xreadgroupFrom {β : Type _} (s : GroupStream κ α) (c : κ) (k n : Nat)
    (f : PelEntry κ → β) (hf : ∀ p d, f { p with deliveries := d } = f p) :
    (s.xreadgroupFrom c k n).2.pel.map f = s.pel.map f := by
  simp only [xreadgroupFrom, List.map_map]
  refine List.map_congr_left fun p _ => ?_
  simp only [Function.comp]
  split
  · exact hf p _
  · rfl

/-- A backlog read counts one more delivery for each entry that it returns with data. -/
theorem mem_pel_xreadgroupFrom {s : GroupStream κ α} {c : κ} {k n : Nat} {p : PelEntry κ} :
    p ∈ (s.xreadgroupFrom c k n).2.pel ↔ ∃ q ∈ s.pel,
      p = if q ∈ s.backlog c k n ∧ (s.get? q.id).isSome then
        { q with deliveries := q.deliveries + 1 } else q := by
  simp only [xreadgroupFrom, List.mem_map, eq_comm]

/-- The same for the reader's own entries, in order. -/
theorem pelOf_xreadgroupFrom_self (s : GroupStream κ α) (c : κ) (k n : Nat) :
    (s.xreadgroupFrom c k n).2.pelOf c = (s.pelOf c).map fun p =>
      if p ∈ s.backlog c k n ∧ (s.get? p.id).isSome then
        { p with deliveries := p.deliveries + 1 } else p := by
  simp only [pelOf, xreadgroupFrom, List.filter_map]
  congr 1
  refine List.filter_congr fun p _ => ?_
  simp only [Function.comp]
  split <;> rfl

/-- The IDs pending for one consumer. -/
def pelIds (s : GroupStream κ α) (c : κ) : List Nat := (s.pelOf c).map PelEntry.id

theorem mem_pelIds {s : GroupStream κ α} {c : κ} {id : Nat} :
    id ∈ s.pelIds c ↔ ∃ p ∈ s.pel, p.consumer = c ∧ p.id = id := by
  simp [pelIds, mem_pelOf, and_assoc]

theorem pelIds_sorted (s : GroupStream κ α) (c : κ) : (s.pelIds c).Pairwise (· < ·) :=
  List.pairwise_map.2 (s.pelSorted.filter _)

theorem pelIds_bounded {s : GroupStream κ α} {c : κ} {id : Nat} (h : id ∈ s.pelIds c) :
    0 < id ∧ id ≤ s.lastDelivered := by
  obtain ⟨p, hp, -, rfl⟩ := mem_pelIds.1 h
  exact s.pelBounded p hp

omit [DecidableEq κ] in
/-- There is one PEL entry for each ID. -/
theorem pel_unique {s : GroupStream κ α} {p q : PelEntry κ} (hp : p ∈ s.pel) (hq : q ∈ s.pel)
    (h : p.id = q.id) : p = q := by
  have hnd : (s.pel.map PelEntry.id).Nodup := List.pairwise_map.2 (s.pelSorted.imp Nat.ne_of_lt)
  exact List.inj_on_of_nodup_map hnd hp hq h

/-- XPENDING finds the entry of an ID that is pending for the consumer. -/
theorem xpending_eq_some {s : GroupStream κ α} {c : κ} {id : Nat} {p : PelEntry κ} :
    s.xpending c id = some p ↔ p ∈ s.pel ∧ p.consumer = c ∧ p.id = id := by
  constructor
  · intro h
    have hmem := mem_pelOf.1 (List.mem_of_find?_eq_some h)
    exact ⟨hmem.1, hmem.2, by simpa using List.find?_some h⟩
  · rintro ⟨hp, hc, hid⟩
    cases hfind : s.xpending c id with
    | none =>
      have hnot := List.find?_eq_none.1 hfind p (mem_pelOf.2 ⟨hp, hc⟩)
      exact absurd (decide_eq_true hid) hnot
    | some q =>
      have hq := mem_pelOf.1 (List.mem_of_find?_eq_some hfind)
      have hqid : q.id = id := by simpa using List.find?_some hfind
      rw [pel_unique hp hq.1 (hid.trans hqid.symm)]

/-- An ID is pending for one consumer only. -/
theorem pelIds_owner {s : GroupStream κ α} {c d : κ} {id : Nat} (hc : id ∈ s.pelIds c)
    (hd : id ∈ s.pelIds d) : c = d := by
  obtain ⟨p, hp, rfl, hpid⟩ := mem_pelIds.1 hc
  obtain ⟨q, hq, rfl, hqid⟩ := mem_pelIds.1 hd
  rw [pel_unique hp hq (hpid.trans hqid.symm)]

@[simp] theorem pelIds_xaddAll (s : GroupStream κ α) (vs : List α) (c : κ) :
    (s.xaddAll vs).pelIds c = s.pelIds c := by
  rw [pelIds, pelOf, pel_xaddAll, pelIds, pelOf]

@[simp] theorem pelIds_xdel (s : GroupStream κ α) (ids : List Nat) (c : κ) :
    (s.xdel ids).pelIds c = s.pelIds c := rfl

theorem pelIds_xack (s : GroupStream κ α) (ids : List Nat) (c : κ) :
    (s.xack ids).pelIds c = (s.pelIds c).filter (fun id => id ∉ ids) := by
  rw [pelIds, pelOf_xack, pelIds, List.filter_map]
  rfl

theorem pelIds_xreadgroupNew_self (s : GroupStream κ α) (c : κ) (n : Nat) :
    (s.xreadgroupNew c n).2.pelIds c = s.pelIds c ++ (s.unread.take n).map Prod.fst := by
  rw [pelIds, pelOf_xreadgroupNew_self, List.map_append, List.map_map]
  rfl

theorem pelIds_xreadgroupNew_ne (s : GroupStream κ α) {c d : κ} (h : d ≠ c) (n : Nat) :
    (s.xreadgroupNew d n).2.pelIds c = s.pelIds c := by
  rw [pelIds, pelOf_xreadgroupNew_ne s h, pelIds]

/-- Reading a backlog, anyone's, changes no consumer's pending IDs. -/
@[simp] theorem pelIds_xreadgroupFrom (s : GroupStream κ α) (c d : κ) (k n : Nat) :
    (s.xreadgroupFrom d k n).2.pelIds c = s.pelIds c := by
  -- the pending IDs depend on owners and IDs only, and those stay
  have h := map_pel_xreadgroupFrom s d k n (fun p => (p.consumer, p.id)) (fun _ _ => rfl)
  have hids : ∀ l : List (PelEntry κ), (l.filter (fun p => p.consumer = c)).map PelEntry.id =
      ((l.map (fun p => (p.consumer, p.id))).filter (fun q => q.1 = c)).map Prod.snd := by
    intro l
    rw [List.filter_map, List.map_map]
    rfl
  show ((s.xreadgroupFrom d k n).2.pel.filter _).map _ = (s.pel.filter _).map _
  rw [hids, h, hids]

/-- A backlog read returns the first pending IDs after the cursor. -/
theorem ids_xreadgroupFrom (s : GroupStream κ α) (c : κ) (k n : Nat) :
    (s.xreadgroupFrom c k n).1.map Prod.fst =
      ((s.pelIds c).filter (fun id => k < id)).take n := by
  rw [pelIds, List.filter_map, ← List.map_take]
  show ((s.backlog c k n).map _).map _ = _
  rw [List.map_map]
  rfl

/-! ### Who has what was delivered -/

/-- Every entry that has been delivered and not deleted is pending for one of these consumers. -/
def DeliveredTo (s : GroupStream κ α) (S : κ → Prop) : Prop :=
  ∀ e ∈ s.entries, e.1 ≤ s.lastDelivered → ∃ c, S c ∧ e.1 ∈ s.pelIds c

/-- Every pending ID has its entry. -/
def Backed (s : GroupStream κ α) : Prop := ∀ c, ∀ id ∈ s.pelIds c, ∃ v, (id, v) ∈ s.entries

theorem deliveredTo_empty (S : κ → Prop) : (empty : GroupStream κ α).DeliveredTo S :=
  fun _ he => absurd he List.not_mem_nil

theorem backed_empty : (empty : GroupStream κ α).Backed :=
  fun _ _ hid => absurd hid List.not_mem_nil

theorem DeliveredTo.xadd {s : GroupStream κ α} {S : κ → Prop} (h : s.DeliveredTo S) (v : α) :
    (s.xadd v).DeliveredTo S := by
  intro e he hle
  rw [entries_xadd, List.mem_append, List.mem_singleton] at he
  cases he with
  | inl he => exact h e he hle
  | inr he =>
    -- the new entry is above the mark
    have hnew : s.lastId + 1 ≤ s.lastDelivered := by rw [he] at hle; exact hle
    have hmark := s.delivered_le
    omega

theorem Backed.xadd {s : GroupStream κ α} (h : s.Backed) (v : α) : (s.xadd v).Backed := by
  intro c id hid
  obtain ⟨w, hw⟩ := h c id hid
  exact ⟨w, List.mem_append_left _ hw⟩

theorem DeliveredTo.xaddAll {s : GroupStream κ α} {S : κ → Prop} (h : s.DeliveredTo S)
    (vs : List α) : (s.xaddAll vs).DeliveredTo S := by
  induction vs generalizing s with
  | nil => exact h
  | cons v vs ih => exact ih (h.xadd v)

theorem Backed.xaddAll {s : GroupStream κ α} (h : s.Backed) (vs : List α) :
    (s.xaddAll vs).Backed := by
  induction vs generalizing s with
  | nil => exact h
  | cons v vs ih => exact ih (h.xadd v)

theorem DeliveredTo.xreadgroupFrom {s : GroupStream κ α} {S : κ → Prop} (h : s.DeliveredTo S)
    (c : κ) (k n : Nat) : (s.xreadgroupFrom c k n).2.DeliveredTo S := by
  intro e he hle
  obtain ⟨d, hd, hid⟩ := h e he hle
  exact ⟨d, hd, by rw [pelIds_xreadgroupFrom]; exact hid⟩

theorem Backed.xreadgroupFrom {s : GroupStream κ α} (h : s.Backed) (c : κ) (k n : Nat) :
    (s.xreadgroupFrom c k n).2.Backed := by
  intro d id hid
  rw [pelIds_xreadgroupFrom] at hid
  exact h d id hid

/-- A reader among these consumers takes what it reads. -/
theorem DeliveredTo.xreadgroupNew {s : GroupStream κ α} {S : κ → Prop} (h : s.DeliveredTo S)
    {c : κ} (hc : S c) (n : Nat) : (s.xreadgroupNew c n).2.DeliveredTo S := by
  intro e he hle
  have he : e ∈ s.entries := he
  by_cases hold : e.1 ≤ s.lastDelivered
  · obtain ⟨d, hd, hid⟩ := h e he hold
    refine ⟨d, hd, ?_⟩
    by_cases hcd : c = d
    · subst hcd
      rw [pelIds_xreadgroupNew_self]
      exact List.mem_append_left _ hid
    · rw [pelIds_xreadgroupNew_ne s hcd]
      exact hid
  · -- the entry has just been read
    have hunread := mem_unread.2 ⟨he, Nat.not_le.1 hold⟩
    have htake := mem_take_of_le_lastDelivered hunread hle
    refine ⟨c, hc, ?_⟩
    rw [pelIds_xreadgroupNew_self]
    exact List.mem_append_right _ (List.mem_map_of_mem htake)

theorem Backed.xreadgroupNew {s : GroupStream κ α} (h : s.Backed) (c : κ) (n : Nat) :
    (s.xreadgroupNew c n).2.Backed := by
  intro d id hid
  by_cases hcd : c = d
  · subst hcd
    rw [pelIds_xreadgroupNew_self, List.mem_append] at hid
    cases hid with
    | inl hid => exact h c id hid
    | inr hid =>
      obtain ⟨e, he, rfl⟩ := List.mem_map.1 hid
      exact ⟨e.2, (mem_unread.1 (List.mem_of_mem_take he)).1⟩
  · rw [pelIds_xreadgroupNew_ne s hcd] at hid
    exact h d id hid

/-- Acknowledging and deleting the same entries. -/
theorem DeliveredTo.xack_xdel {s : GroupStream κ α} {S : κ → Prop} (h : s.DeliveredTo S)
    (ids : List Nat) : ((s.xack ids).xdel ids).DeliveredTo S := by
  intro e he hle
  obtain ⟨hmem, hnot⟩ := List.mem_filter.1 he
  obtain ⟨c, hc, hid⟩ := h e hmem hle
  refine ⟨c, hc, ?_⟩
  rw [pelIds_xdel, pelIds_xack]
  exact List.mem_filter.2 ⟨hid, hnot⟩

theorem Backed.xack_xdel {s : GroupStream κ α} (h : s.Backed) (ids : List Nat) :
    ((s.xack ids).xdel ids).Backed := by
  intro c id hid
  rw [pelIds_xdel, pelIds_xack] at hid
  obtain ⟨hmem, hnot⟩ := List.mem_filter.1 hid
  obtain ⟨v, hv⟩ := h c id hmem
  exact ⟨v, List.mem_filter.2 ⟨hv, hnot⟩⟩

/-- Whatever a backlog read returns is pending for the reader. -/
theorem mem_backlog {s : GroupStream κ α} {c : κ} {k n : Nat} {p : PelEntry κ}
    (h : p ∈ s.backlog c k n) : p ∈ s.pel ∧ p.consumer = c ∧ k < p.id := by
  have h' := List.mem_filter.1 (List.mem_of_mem_take h)
  have hp := mem_pelOf.1 h'.1
  exact ⟨hp.1, hp.2, of_decide_eq_true h'.2⟩

end ConsumerLemmas

end GroupStream

end Redis
