import BlockFeed.ForStd.Transition
import Mathlib.Logic.Function.Basic

/-!
# The Redis cache

`createRedisCache` gives `get`, `getOrSet` and `invalidate` on the keys of a namespace. Each call
is a few commands with awaits in between: `getOrSet` is GET, then on a miss the callback, which
reads the source, then SET. A `CacheState` holds the source, the cached values and all calls that
are running, in any number of processes; its actions are their single steps, in any order, and
changes of the source and expirations at any time. A call that fails is dropped where it stands.
A value is not `null`, which is what `get` gives for a missing key.

The time is the number of actions so far. What is known of fetched values and of finished calls
beyond the code, for the sake of the results, is when things happened: `Fetched.time` and the
records `invalidated` and `returned`.
-/

namespace BlockFeed.Native

/-- `makeCacheKey` of two strings. -/
def makeCacheKey (namespace_ key : String) : String := namespace_ ++ ":" ++ key

/-- `prefixWithNamespace`. -/
def prefixWithNamespace (namespace_ key : String) : String :=
  if namespace_ ≠ "" then makeCacheKey namespace_ key else key

theorem prefixWithNamespace_inj {namespace_ a b : String} :
    prefixWithNamespace namespace_ a = prefixWithNamespace namespace_ b ↔ a = b := by
  unfold prefixWithNamespace makeCacheKey
  split
  · exact String.append_right_inj _
  · exact Iff.rfl

/-- A value and the time when it was read from the source. -/
structure Fetched (τ : Type) where
  val : τ
  time : Nat
deriving DecidableEq, Repr

/-- A method and its argument beside the key. -/
inductive CacheMethod (ρ : Type) where
  | get
  | getOrSet (params : ρ)
  | invalidate

/-- The next step of a call. -/
inductive CacheCall (ρ τ : Type) where
  /-- GET of `get` -/
  | get
  /-- GET of `getOrSet` -/
  | getOrSet (params : ρ)
  | callback (params : ρ)
  | set (data : Fetched τ)
  | returns (data : Option (Fetched τ))
  | del
  /-- DEL has executed, its reply is on the way -/
  | deleted

/-- A call that has not returned. -/
structure RunningCall (ρ τ : Type) where
  key : String
  started : Nat
  call : CacheCall ρ τ

/-- A call of `invalidate` that has returned. -/
structure Invalidation where
  key : String
  started : Nat
  completed : Nat
deriving DecidableEq

/-- A call of `get` or `getOrSet` that has returned. -/
structure Returned (τ : Type) where
  key : String
  started : Nat
  data : Option (Fetched τ)
deriving DecidableEq

/-- The source, Redis, and the calls. -/
structure CacheState (ρ τ : Type) where
  source : ρ → τ
  redis : String → Option (Fetched τ)
  calls : Nat → Option (RunningCall ρ τ)
  /-- the number of the next call -/
  next : Nat
  now : Nat
  invalidated : List Invalidation
  returned : List (Returned τ)

/-- What happens to them. -/
inductive CacheAction (ρ τ : Type) where
  | start (key : String) (method : CacheMethod ρ)
  /-- the next step of a call -/
  | run (i : Nat)
  | fail (i : Nat)
  | setSource (params : ρ) (val : τ)
  | expire (key : String)

/-- The first step of a method. -/
def CacheMethod.call {ρ τ : Type} : CacheMethod ρ → CacheCall ρ τ
  | .get => .get
  | .getOrSet params => .getOrSet params
  | .invalidate => .del

namespace CacheState

variable {ρ τ : Type} [DecidableEq ρ]

/-- Nothing is cached, no call is running. -/
def init (source : ρ → τ) : CacheState ρ τ := ⟨source, fun _ => none, fun _ => none, 0, 0, [], []⟩

/-- Moves a call on. -/
def setCall (s : CacheState ρ τ) (i : Nat) (call : Option (RunningCall ρ τ)) : CacheState ρ τ :=
  { s with calls := Function.update s.calls i call }

/-- The next step of a call, without the clock. -/
def runCall (namespace_ : String) (s : CacheState ρ τ) (i : Nat) (c : RunningCall ρ τ) :
    CacheState ρ τ :=
  let redisKey := prefixWithNamespace namespace_ c.key
  match c.call with
  | .get => s.setCall i (some { c with call := .returns (s.redis redisKey) })
  | .getOrSet params =>
    match s.redis redisKey with
    | some cached => s.setCall i (some { c with call := .returns (some cached) })
    | none => s.setCall i (some { c with call := .callback params })
  | .callback params => s.setCall i (some { c with call := .set ⟨s.source params, s.now⟩ })
  | .set data =>
    { s.setCall i (some { c with call := .returns (some data) }) with
      redis := Function.update s.redis redisKey (some data) }
  | .returns data =>
    { s.setCall i none with returned := s.returned ++ [⟨c.key, c.started, data⟩] }
  | .del =>
    { s.setCall i (some { c with call := .deleted }) with
      redis := Function.update s.redis redisKey none }
  | .deleted =>
    { s.setCall i none with invalidated := s.invalidated ++ [⟨c.key, c.started, s.now⟩] }

/-- An action, without the clock. -/
def act (namespace_ : String) (s : CacheState ρ τ) :
    CacheAction ρ τ → Option (CacheState ρ τ)
  | .start key method =>
    some { s.setCall s.next (some ⟨key, s.now, method.call⟩) with next := s.next + 1 }
  | .run i =>
    match s.calls i with
    | none => none
    | some c => some (s.runCall namespace_ i c)
  | .fail i => some (s.setCall i none)
  | .setSource params val => some { s with source := Function.update s.source params val }
  | .expire key =>
    some { s with redis := Function.update s.redis (prefixWithNamespace namespace_ key) none }

/-- Takes one action, `none` when it is not enabled. -/
def step (namespace_ : String) (s : CacheState ρ τ) (a : CacheAction ρ τ) :
    Option (CacheState ρ τ) :=
  (s.act namespace_ a).map fun s' => { s' with now := s.now + 1 }

theorem step_eq_some {namespace_ : String} {s s' : CacheState ρ τ} {a : CacheAction ρ τ} :
    s.step namespace_ a = some s' ↔
      ∃ t, s.act namespace_ a = some t ∧ s' = { t with now := s.now + 1 } := by
  rw [step, Option.map_eq_some_iff]
  exact exists_congr fun t => and_congr_right fun _ => eq_comm

end CacheState

end BlockFeed.Native
