import Mathlib.Data.Finset.Max
import Mathlib.Data.Set.Function

/-!
# Maps that remember when a key was last used

A `RecencyMap` is a finite map with a time of last use for each of its keys. `set` makes room for a
new key, where there is none, by dropping the one that was not used for longest.

- `evict_eq`: which key that is.
- `card_set_le`: the bound is kept.
- `mem_keys_of_set`: nothing else is dropped.
-/

/-- A finite map with times of last use, all of them different. -/
structure RecencyMap (κ V : Type _) where
  value : κ → Option V
  keys : Finset κ
  lastUse : κ → Nat
  now : Nat
  mem_keys : ∀ key, key ∈ keys ↔ (value key).isSome = true
  lastUse_lt : ∀ key ∈ keys, lastUse key < now
  lastUse_inj : Set.InjOn lastUse keys

namespace RecencyMap

variable {κ V : Type _}

/-- Without keys. -/
def empty : RecencyMap κ V where
  value _ := none
  keys := ∅
  lastUse _ := 0
  now := 0
  mem_keys := by simp
  lastUse_lt := by simp
  lastUse_inj := by simp

/-- No key has been unused for longer. -/
structure IsLeastRecent (m : RecencyMap κ V) (key : κ) : Prop where
  mem : key ∈ m.keys
  le : ∀ other ∈ m.keys, m.lastUse key ≤ m.lastUse other

variable [DecidableEq κ]

/-- Now is after every other time. -/
private theorem update_lastUse_lt (m : RecencyMap κ V) (key : κ) :
    ∀ other ∈ insert key m.keys, Function.update m.lastUse key m.now other < m.now + 1 := by
  intro other hother
  by_cases heq : other = key
  · rw [heq, Function.update_self]
    omega
  · have hlt := m.lastUse_lt other (Finset.mem_of_mem_insert_of_ne hother heq)
    rw [Function.update_of_ne heq]
    omega

private theorem update_lastUse_inj (m : RecencyMap κ V) (key : κ) :
    Set.InjOn (Function.update m.lastUse key m.now) (insert key m.keys : Finset κ) := by
  have hne : ∀ other ∈ (insert key m.keys : Finset κ), other ≠ key →
      Function.update m.lastUse key m.now other = m.lastUse other ∧ other ∈ m.keys ∧
        m.lastUse other < m.now := by
    intro other hother heq
    have hmem := Finset.mem_of_mem_insert_of_ne hother heq
    exact ⟨Function.update_of_ne heq _ _, hmem, m.lastUse_lt other hmem⟩
  intro a ha b hb heq
  by_cases hak : a = key
  · by_cases hbk : b = key
    · rw [hak, hbk]
    · obtain ⟨hb', -, hlt⟩ := hne b hb hbk
      rw [hak, Function.update_self, hb'] at heq
      omega
  · obtain ⟨ha', hamem, hlt⟩ := hne a ha hak
    by_cases hbk : b = key
    · rw [hbk, Function.update_self, ha'] at heq
      omega
    · obtain ⟨hb', hbmem, -⟩ := hne b hb hbk
      rw [ha', hb'] at heq
      exact m.lastUse_inj hamem hbmem heq

/-- Uses a key now. -/
def touch (m : RecencyMap κ V) (key : κ) : RecencyMap κ V where
  value := m.value
  keys := m.keys
  lastUse := Function.update m.lastUse key m.now
  now := m.now + 1
  mem_keys := m.mem_keys
  lastUse_lt := fun other hother =>
    m.update_lastUse_lt key other (Finset.mem_insert_of_mem hother)
  lastUse_inj := (m.update_lastUse_inj key).mono (Finset.coe_subset.2 (Finset.subset_insert _ _))

/-- Removes a key. -/
def drop (m : RecencyMap κ V) (key : κ) : RecencyMap κ V where
  value := Function.update m.value key none
  keys := m.keys.erase key
  lastUse := m.lastUse
  now := m.now
  mem_keys := by
    intro other
    rw [Finset.mem_erase, m.mem_keys, Function.update_apply]
    split <;> simp_all
  lastUse_lt := fun other hother => m.lastUse_lt other (Finset.mem_of_mem_erase hother)
  lastUse_inj := m.lastUse_inj.mono (Finset.coe_subset.2 (Finset.erase_subset _ _))

/-- Sets the value of a key, which uses the key. -/
def store (m : RecencyMap κ V) (key : κ) (val : V) : RecencyMap κ V where
  value := Function.update m.value key (some val)
  keys := insert key m.keys
  lastUse := Function.update m.lastUse key m.now
  now := m.now + 1
  mem_keys := by
    intro other
    rw [Finset.mem_insert, m.mem_keys, Function.update_apply]
    split <;> simp_all
  lastUse_lt := m.update_lastUse_lt key
  lastUse_inj := m.update_lastUse_inj key

/-- Removes the key that was not used for longest. -/
noncomputable def evict (m : RecencyMap κ V) : RecencyMap κ V :=
  open Classical in if h : ∃ key, m.IsLeastRecent key then m.drop h.choose else m

/-- Sets the value of a key, after making room for it if it is new. -/
noncomputable def set (capacity : Nat) (m : RecencyMap κ V) (key : κ) (val : V) :
    RecencyMap κ V :=
  if capacity ≤ m.keys.card ∧ key ∉ m.keys then m.evict.store key val else m.store key val

variable {m : RecencyMap κ V} {key : κ}

omit [DecidableEq κ] in
/-- There is one such key only. -/
theorem IsLeastRecent.unique {other : κ} (h : m.IsLeastRecent key) (h' : m.IsLeastRecent other) :
    key = other :=
  m.lastUse_inj h.mem h'.mem (Nat.le_antisymm (h.le other h'.mem) (h'.le key h.mem))

theorem evict_eq (h : m.IsLeastRecent key) : m.evict = m.drop key := by
  have hex : ∃ key, m.IsLeastRecent key := ⟨key, h⟩
  rw [evict, dif_pos hex, hex.choose_spec.unique h]

omit [DecidableEq κ] in
/-- A map that is not empty has one. -/
theorem exists_isLeastRecent (h : m.keys.Nonempty) : ∃ key, m.IsLeastRecent key := by
  obtain ⟨key, hmem, hle⟩ := m.keys.exists_min_image m.lastUse h
  exact ⟨key, hmem, hle⟩

/-- A key that `set` drops. -/
theorem mem_keys_of_set {capacity : Nat} {new : κ} {val : V} (h : key ∈ m.keys)
    (hdropped : key ∉ (m.set capacity new val).keys) :
    capacity ≤ m.keys.card ∧ new ∉ m.keys ∧ m.IsLeastRecent key := by
  rw [set] at hdropped
  split at hdropped
  · next hfull =>
    obtain ⟨least, hleast⟩ := exists_isLeastRecent ⟨key, h⟩
    rw [evict_eq hleast] at hdropped
    have heq : key = least := by
      by_contra hne
      exact hdropped (Finset.mem_insert_of_mem (Finset.mem_erase.2 ⟨hne, h⟩))
    exact ⟨hfull.1, hfull.2, heq ▸ hleast⟩
  · exact absurd (Finset.mem_insert_of_mem h) hdropped

theorem card_set_le {capacity : Nat} (hcap : 1 ≤ capacity) (h : m.keys.card ≤ capacity)
    (key : κ) (val : V) : (m.set capacity key val).keys.card ≤ capacity := by
  rw [set]
  split
  · next hfull =>
    -- one key is dropped for the new one
    have hpos : 0 < m.keys.card := by omega
    obtain ⟨least, hleast⟩ := exists_isLeastRecent (Finset.card_pos.1 hpos)
    rw [evict_eq hleast]
    have hcard := Finset.card_insert_le key (m.keys.erase least)
    rw [Finset.card_erase_of_mem hleast.mem] at hcard
    show (insert key (m.keys.erase least)).card ≤ capacity
    omega
  · next hroom =>
    -- the key is not new, or there is room for it
    show (insert key m.keys).card ≤ capacity
    by_cases hmem : key ∈ m.keys
    · rwa [Finset.insert_eq_of_mem hmem]
    · rw [Finset.card_insert_of_notMem hmem]
      have hlt : ¬ capacity ≤ m.keys.card := fun hle => hroom ⟨hle, hmem⟩
      omega

end RecencyMap
