import BlockFeed.ForStd.Keyset
import BlockFeed.ForStd.RecencyMap
import BlockFeed.ForStd.Transition
import BlockFeed.Native.LruCache

/-!
# The LRU cache is a bounded recency map

`recencyCall` says what the functions of the cache do, in terms of values and times of last use.
The cache itself has no times: `Refines` relates the order of its keys to them.

- `call_refines`: one call, of any function and through any callback cache.
- `lru_refines`: any sequence of calls.
-/

namespace BlockFeed.Spec

open BlockFeed.Native Transition

/-- The calls of a cache and of the callback caches made from it. -/
inductive LruCall (κ V ε : Type) : Type 1 where
  | get (key : κ)
  | set (key : κ) (val : V)
  | getOrSet {P : Type} (callbacks : CallbackCache V ε P) (key : κ) (params : P)
  | invalidate (key : κ)

inductive LruResult (V ε : Type) where
  | got (val : Option V)
  | stored
  | gotOrSet (data : Except ε V) (called : Bool)
  | invalidated (count : Nat)

section Lru

variable {κ V ε : Type} [DecidableEq κ]

def lruCall (lru : LruCache κ V) : LruCall κ V ε → LruCache κ V × LruResult V ε
  | .get key => ((lru.get key).1, .got (lru.get key).2)
  | .set key val => (lru.set key val, .stored)
  | .getOrSet callbacks key params =>
    let r := lru.getOrSet callbacks key params
    (r.lru, .gotOrSet r.data r.called)
  | .invalidate key => ((lru.invalidate key).1, .invalidated (lru.invalidate key).2)

/-- The same calls of a map that remembers when a key was last used. -/
noncomputable def recencyCall (capacity : Nat) (m : RecencyMap κ V) :
    LruCall κ V ε → RecencyMap κ V × LruResult V ε
  | .get key =>
    match m.value key with
    | some val => (m.touch key, .got (some val))
    | none => (m, .got none)
  | .set key val => (m.set capacity key val, .stored)
  | .getOrSet callbacks key params =>
    match m.value key with
    | some val => (m.touch key, .gotOrSet (.ok val) false)
    | none =>
      match callbacks.cb params with
      | .ok val => (m.set capacity key val, .gotOrSet (.ok val) true)
      | .error e => (m, .gotOrSet (.error e) true)
  | .invalidate key => (m.drop key, .invalidated (if key ∈ m.keys then 1 else 0))

/-- The cache holds the values of the map, no more of them than it may, and its keys in the order of
    their last use. -/
structure Refines (capacity : Nat) (lru : LruCache κ V) (m : RecencyMap κ V) : Prop where
  capacity_eq : lru.capacity = capacity
  size_le : JsMap.size lru.cache ≤ capacity
  lookup_eq : ∀ key, lru.cache.lookup key = m.value key
  ordered : lru.cache.keys.Pairwise fun a b => m.lastUse b < m.lastUse a

/-! ### The map of the cache -/

theorem reinsert_cache (lru : LruCache κ V) (key : κ) (val : V) :
    (lru.reinsert key val).cache = lru.cache.insert key val := by
  have hnot : key ∉ lru.cache.erase key := fun h => (AList.mem_erase.1 h).1 rfl
  -- a deleted key loses its place, so it is inserted behind the others
  show JsMap.set (lru.cache.erase key) key val = _
  rw [JsMap.set, if_neg hnot, AList.insert_of_notMem hnot]
  rfl

omit [DecidableEq κ] in
theorem size_eq_length (cache : JsMap κ V) : JsMap.size cache = cache.keys.length :=
  (List.length_map _).symm

/-- The map has as many keys as the cache. -/
theorem card_eq_size {lru : LruCache κ V} {m : RecencyMap κ V}
    (h : ∀ key, lru.cache.lookup key = m.value key) : m.keys.card = JsMap.size lru.cache := by
  have hkeys : m.keys = lru.cache.keys.toFinset := by
    ext key
    rw [List.mem_toFinset, ← AList.mem_keys, m.mem_keys, ← h, AList.lookup_isSome]
  rw [hkeys, List.toFinset_card_of_nodup lru.cache.keys_nodup, size_eq_length]

namespace Refines

variable {capacity : Nat} {lru : LruCache κ V} {m : RecencyMap κ V}

theorem mem_iff (h : Refines capacity lru m) (key : κ) : key ∈ lru.cache ↔ key ∈ m.keys := by
  rw [m.mem_keys, ← h.lookup_eq, AList.lookup_isSome]

theorem card_eq (h : Refines capacity lru m) : m.keys.card = JsMap.size lru.cache :=
  card_eq_size h.lookup_eq

theorem card_le (h : Refines capacity lru m) : m.keys.card ≤ capacity := h.card_eq ▸ h.size_le

/-- A key that is used now comes first. -/
theorem ordered_insert (h : Refines capacity lru m) (key : κ) (val : V) :
    (lru.reinsert key val).cache.keys.Pairwise fun a b =>
      Function.update m.lastUse key m.now b < Function.update m.lastUse key m.now a := by
  rw [reinsert_cache, AList.keys_insert, List.pairwise_cons]
  have hne : ∀ other ∈ lru.cache.keys.erase key, other ≠ key := by
    intro other hother heq
    rw [heq] at hother
    exact (List.Nodup.not_mem_erase lru.cache.keys_nodup) hother
  constructor
  · -- now is later than every other use
    intro other hother
    have hmem := (h.mem_iff other).1 (AList.mem_keys.2 (List.mem_of_mem_erase hother))
    rw [Function.update_self, Function.update_of_ne (hne other hother)]
    exact m.lastUse_lt other hmem
  · -- the others keep their times and their order
    have herase := h.ordered.sublist (List.erase_sublist (a := key))
    refine herase.imp_of_mem fun ha hb hlt => ?_
    rwa [Function.update_of_ne (hne _ ha), Function.update_of_ne (hne _ hb)]

theorem lookup_reinsert (h : Refines capacity lru m) (key : κ) (val : V) (other : κ) :
    (lru.reinsert key val).cache.lookup other =
      Function.update m.value key (some val) other := by
  rw [reinsert_cache]
  by_cases heq : other = key
  · rw [heq, AList.lookup_insert, Function.update_self]
  · rw [AList.lookup_insert_ne heq, Function.update_of_ne heq, h.lookup_eq]

/-- To insert a key is to store its value. -/
theorem store (h : Refines capacity lru m) {key : κ} {val : V}
    (hcard : (m.store key val).keys.card ≤ capacity) :
    Refines capacity (lru.reinsert key val) (m.store key val) where
  capacity_eq := h.capacity_eq
  size_le := by
    have heq := card_eq_size (m := m.store key val) (h.lookup_reinsert key val)
    rwa [heq] at hcard
  lookup_eq := h.lookup_reinsert key val
  ordered := h.ordered_insert key val

theorem lookup_touch (h : Refines capacity lru m) {key : κ} {val : V}
    (hval : m.value key = some val) (other : κ) :
    (lru.reinsert key val).cache.lookup other = m.value other := by
  rw [h.lookup_reinsert, ← hval, Function.update_eq_self]

/-- To insert a key again with its own value is to use it. -/
theorem touch (h : Refines capacity lru m) {key : κ} {val : V} (hval : m.value key = some val) :
    Refines capacity (lru.reinsert key val) (m.touch key) where
  capacity_eq := h.capacity_eq
  size_le := by
    rw [← card_eq_size (m := m.touch key) (h.lookup_touch hval)]
    exact h.card_le
  lookup_eq := h.lookup_touch hval
  ordered := h.ordered_insert key val

theorem erase (h : Refines capacity lru m) (key : κ) :
    Refines capacity { lru with cache := lru.cache.erase key } (m.drop key) where
  capacity_eq := h.capacity_eq
  size_le := by
    have hle := h.size_le
    rw [size_eq_length] at hle ⊢
    rw [AList.keys_erase]
    exact Nat.le_trans List.length_erase_le hle
  lookup_eq := by
    intro other
    show _ = Function.update m.value key none other
    by_cases heq : other = key
    · rw [heq, AList.lookup_erase, Function.update_self]
    · rw [AList.lookup_erase_ne heq, Function.update_of_ne heq, h.lookup_eq]
  ordered := by
    rw [AList.keys_erase]
    exact h.ordered.sublist List.erase_sublist

/-! ### The key that is evicted -/

/-- The first key of the `Map` was not used for longest. -/
theorem isLeastRecent (h : Refines capacity lru m) {key : κ}
    (hfirst : JsMap.firstKey lru.cache = some key) : m.IsLeastRecent key where
  mem := by
    rw [JsMap.firstKey, List.head?_reverse] at hfirst
    exact (h.mem_iff key).1 (AList.mem_keys.2 (List.mem_of_getLast? hfirst))
  le := by
    intro other hother
    rw [JsMap.firstKey, List.head?_reverse] at hfirst
    have hmem := AList.mem_keys.1 ((h.mem_iff other).2 hother)
    exact Nat.not_lt.1 (Keyset.not_lt_getLast h.ordered hfirst hmem)

/-- So it is the one that the map drops. -/
theorem evict (h : Refines capacity lru m) (hsize : 0 < JsMap.size lru.cache) :
    Refines capacity lru.evict m.evict := by
  obtain ⟨key, hfirst⟩ : ∃ key, JsMap.firstKey lru.cache = some key := by
    rw [JsMap.firstKey, List.head?_reverse]
    apply Option.isSome_iff_exists.1
    rw [List.getLast?_isSome, ← List.length_pos_iff, ← size_eq_length]
    exact hsize
  have hevict : lru.evict = { lru with cache := lru.cache.erase key } := by
    rw [LruCache.evict, hfirst]
  rw [hevict, RecencyMap.evict_eq (h.isLeastRecent hfirst)]
  exact h.erase key

/-! ### One call -/

theorem set (hcap : 1 ≤ capacity) (h : Refines capacity lru m) (key : κ) (val : V) :
    Refines capacity (lru.set key val) (m.set capacity key val) := by
  have hcapacity := h.capacity_eq
  have hcond : (capacity ≤ m.keys.card ∧ key ∉ m.keys) ↔
      (lru.capacity ≤ JsMap.size lru.cache ∧ key ∉ lru.cache) := by
    rw [h.card_eq, h.mem_iff, hcapacity]
  have hcard := RecencyMap.card_set_le hcap h.card_le key val
  rw [RecencyMap.set] at hcard ⊢
  rw [LruCache.set]
  split
  · next hfull =>
    rw [if_pos (hcond.2 hfull)] at hcard ⊢
    -- a full cache is not empty, since there is room for one key at least
    exact (h.evict (by omega)).store hcard
  · next hroom =>
    have hroom' := fun hfull => hroom (hcond.1 hfull)
    rw [if_neg hroom'] at hcard ⊢
    exact h.store hcard

end Refines

/-- Each call does the same to both, with the same result. -/
theorem call_refines {capacity : Nat} (hcap : 1 ≤ capacity) (lru : LruCache κ V)
    (m : RecencyMap κ V) (call : LruCall κ V ε) (h : Refines capacity lru m) :
    Refines capacity (lruCall lru call).1 (recencyCall capacity m call).1 ∧
      (lruCall lru call).2 = (recencyCall capacity m call).2 := by
  cases call with
  | get key =>
    simp only [lruCall, recencyCall, LruCache.get, h.lookup_eq]
    cases hval : m.value key with
    | none => exact ⟨h, rfl⟩
    | some val => exact ⟨h.touch hval, rfl⟩
  | set key val => exact ⟨h.set hcap key val, rfl⟩
  | getOrSet callbacks key params =>
    simp only [lruCall, recencyCall, LruCache.getOrSet, LruCache.get, h.lookup_eq]
    cases hval : m.value key with
    | some val => exact ⟨h.touch hval, rfl⟩
    | none =>
      cases callbacks.cb params with
      | error e => exact ⟨h, rfl⟩
      | ok val => exact ⟨h.set hcap key val, rfl⟩
  | invalidate key =>
    refine ⟨h.erase key, ?_⟩
    simp only [lruCall, recencyCall, LruCache.invalidate, h.mem_iff]

theorem refines_create {capacity : Nat} :
    Refines capacity (createLruCache capacity : LruCache κ V) .empty where
  capacity_eq := rfl
  size_le := Nat.zero_le _
  lookup_eq := AList.lookup_empty
  ordered := List.Pairwise.nil

/-! ### What is dropped -/

/-- The key that a call may insert. -/
def storedKey : LruCall κ V ε → Option κ
  | .set key _ => some key
  | .getOrSet _ key _ => some key
  | .get _ | .invalidate _ => none

/-- The call removes the key, or it inserts a new one where there is no room for it and the key was
    not used for longest. -/
def DroppedFor (capacity : Nat) (lru : LruCache κ V) (m : RecencyMap κ V) (call : LruCall κ V ε)
    (key : κ) : Prop :=
  call = .invalidate key ∨
    ∃ new, storedKey call = some new ∧ new ∉ lru.cache ∧ JsMap.size lru.cache = capacity ∧
      ∀ other ∈ lru.cache, m.lastUse key ≤ m.lastUse other

theorem recencyCall_dropped {capacity : Nat} {m : RecencyMap κ V} {call : LruCall κ V ε} {key : κ}
    (h : key ∈ m.keys) (hdropped : key ∉ (recencyCall capacity m call).1.keys) :
    call = .invalidate key ∨ ∃ new, storedKey call = some new ∧ capacity ≤ m.keys.card ∧
      new ∉ m.keys ∧ m.IsLeastRecent key := by
  cases call with
  | get k =>
    simp only [recencyCall] at hdropped
    split at hdropped
    · exact absurd h hdropped
    · exact absurd h hdropped
  | set new val => exact .inr ⟨new, rfl, RecencyMap.mem_keys_of_set h hdropped⟩
  | getOrSet callbacks new params =>
    simp only [recencyCall] at hdropped
    split at hdropped
    · exact absurd h hdropped
    · split at hdropped
      · exact .inr ⟨new, rfl, RecencyMap.mem_keys_of_set h hdropped⟩
      · exact absurd h hdropped
  | invalidate k =>
    have heq : key = k := by
      by_contra hne
      exact hdropped (Finset.mem_erase.2 ⟨hne, h⟩)
    exact .inl (heq ▸ rfl)

theorem lruCall_dropped {capacity : Nat} (hcap : 1 ≤ capacity) {lru : LruCache κ V}
    {m : RecencyMap κ V} (h : Refines capacity lru m) {call : LruCall κ V ε} {key : κ}
    (hmem : key ∈ lru.cache) (hdropped : key ∉ (lruCall lru call).1.cache) :
    DroppedFor capacity lru m call key := by
  have hnext := (call_refines hcap lru m call h).1
  rw [h.mem_iff] at hmem
  rw [hnext.mem_iff] at hdropped
  refine (recencyCall_dropped hmem hdropped).imp_right ?_
  rintro ⟨new, hstored, hfull, hnew, hleast⟩
  rw [h.card_eq] at hfull
  refine ⟨new, hstored, fun hin => hnew ((h.mem_iff new).1 hin),
    Nat.le_antisymm h.size_le hfull, ?_⟩
  exact fun other hother => hleast.le other ((h.mem_iff other).1 hother)

theorem getOrSet_called {lru : LruCache κ V} {P : Type} (callbacks : CallbackCache V ε P) (key : κ)
    (params : P) : (lru.getOrSet callbacks key params).called = true ↔ key ∉ lru.cache := by
  rw [← AList.lookup_eq_none]
  simp only [LruCache.getOrSet, LruCache.get]
  cases lru.cache.lookup key with
  | some val => simp
  | none =>
    cases callbacks.cb params with
    | error e => simp
    | ok val => simp

/-- After any calls the cache is the bounded recency map: it has given the same results, holds the
    same values, drops a key for the same reasons, and calls a callback for a key it does not hold
    only. -/
theorem lru_refines {capacity : Nat} (hcap : 1 ≤ capacity) (calls : List (LruCall κ V ε)) :
    let lru := (answers lruCall (createLruCache capacity) calls).1
    let m := (answers (recencyCall capacity) RecencyMap.empty calls).1
    Refines capacity lru m ∧
      (answers lruCall (createLruCache capacity) calls).2 =
        (answers (recencyCall capacity) RecencyMap.empty calls).2 ∧
      (∀ (call : LruCall κ V ε) (key : κ), key ∈ lru.cache → key ∉ (lruCall lru call).1.cache →
        DroppedFor capacity lru m call key) ∧
      ∀ (P : Type) (callbacks : CallbackCache V ε P) (key : κ) (params : P),
        (lru.getOrSet callbacks key params).called = true ↔ key ∉ lru.cache := by
  intro lru m
  obtain ⟨hrefines, hresults⟩ := answers_simulates (call_refines hcap) refines_create calls
  refine ⟨hrefines, hresults, ?_, ?_⟩
  · exact fun call key hmem hdropped => lruCall_dropped hcap hrefines hmem hdropped
  · exact fun P callbacks key params => getOrSet_called callbacks key params

end Lru

/-- The third key takes the place of the second, since the first has been used again. -/
def threeKeys : List (LruCall String Nat String) :=
  [.set "a" 1, .set "b" 2, .get "a", .getOrSet (P := Nat) ⟨fun n => .ok n⟩ "c" 3]

theorem lru_refines_threeKeys :
    (answers lruCall (createLruCache 2) threeKeys).1.cache.keys = ["c", "a"] ∧
      Refines 2 (answers lruCall (createLruCache 2) threeKeys).1
        (answers (recencyCall 2) RecencyMap.empty threeKeys).1 :=
  ⟨by decide, (lru_refines (by decide) threeKeys).1⟩

end BlockFeed.Spec
