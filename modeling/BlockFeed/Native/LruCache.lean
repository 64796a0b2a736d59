import Mathlib.Data.List.AList

/-!
# The LRU cache

`lru.cache.ts`: a `Map` keeps its keys in the order in which they were inserted, and the cache uses
that order for recency: a key that is used is deleted and inserted again, so the first key is the
one to evict. `redis/src/cluster-provider.ts` keeps its connections in such a cache.

Values are neither null nor undefined.
-/

namespace BlockFeed.Native

/-- A `Map`, the key inserted last first. -/
abbrev JsMap (κ V : Type) := AList fun _ : κ => V

namespace JsMap

variable {κ V : Type} [DecidableEq κ]

omit [DecidableEq κ] in
def size (map : JsMap κ V) : Nat := map.entries.length

/-- A key that is there keeps its place. -/
def set (map : JsMap κ V) (key : κ) (val : V) : JsMap κ V :=
  if key ∈ map then map.replace key val else map.insert key val

omit [DecidableEq κ] in
/-- `Array.from(map.keys()).at(0)` -/
def firstKey (map : JsMap κ V) : Option κ := map.keys.reverse.head?

end JsMap

/-- What the functions of `createLruCache` share. -/
structure LruCache (κ V : Type) where
  capacity : Nat
  cache : JsMap κ V

/-- What the functions that `setCallback` returns share besides. A callback may throw. -/
structure CallbackCache (V ε P : Type) where
  cb : P → Except ε V

/-- `createLruCache` -/
def createLruCache {κ V : Type} (capacity : Nat) : LruCache κ V := ⟨capacity, ∅⟩

namespace LruCache

variable {κ V ε P : Type} [DecidableEq κ]

def reinsert (lru : LruCache κ V) (key : κ) (val : V) : LruCache κ V :=
  { lru with cache := JsMap.set (lru.cache.erase key) key val }

def invalidate (lru : LruCache κ V) (key : κ) : LruCache κ V × Nat :=
  ({ lru with cache := lru.cache.erase key }, if key ∈ lru.cache then 1 else 0)

def get (lru : LruCache κ V) (key : κ) : LruCache κ V × Option V :=
  match lru.cache.lookup key with
  | some val => (lru.reinsert key val, some val)
  | none => (lru, none)

/-- Deletes the least recently used key. -/
def evict (lru : LruCache κ V) : LruCache κ V :=
  match JsMap.firstKey lru.cache with
  | some leastRecentlyUsedKey => { lru with cache := lru.cache.erase leastRecentlyUsedKey }
  | none => lru

def set (lru : LruCache κ V) (key : κ) (val : V) : LruCache κ V :=
  -- a key that is held takes no more room
  if lru.capacity ≤ JsMap.size lru.cache ∧ key ∉ lru.cache then lru.evict.reinsert key val
  else lru.reinsert key val

/-- `getOrSet`; `called` says whether it has called the callback. -/
structure GetOrSet (κ V ε : Type) where
  lru : LruCache κ V
  data : Except ε V
  called : Bool

def getOrSet (lru : LruCache κ V) (callbacks : CallbackCache V ε P) (key : κ) (params : P) :
    GetOrSet κ V ε :=
  match lru.get key with
  -- `get` has already used the key
  | (lru, some cached) => ⟨lru, .ok cached, false⟩
  | (lru, none) =>
    match callbacks.cb params with
    | .ok data => ⟨lru.set key data, .ok data, true⟩
    | .error e => ⟨lru, .error e, true⟩

end LruCache

end BlockFeed.Native
