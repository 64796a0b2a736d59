import BlockFeed.Native.RedisCache

/-!
# Invalidation in the Redis cache

A call of `getOrSet` reads the source in one step and writes to Redis in a later one, and nothing
connects the two. When an `invalidate` begins after the first and has executed its DEL before the
second, what is written was read before the invalidation began, and later calls return it.

`Effective` is what an invalidation is for. It holds all along every run where each SET is of a
value that no executed DEL of its key is later than (`SetsFresh`), and a SET that is not leads,
once the invalidation has returned, to a `get` that returns such a value (`invalidate_effective`).
-/

namespace BlockFeed.Spec

open BlockFeed.Native Transition

section Invalidation

variable {ρ τ : Type} [DecidableEq ρ]

/-- A call of `invalidate` whose DEL has executed began at `start`. -/
def DeletedAt (s : CacheState ρ τ) (key : String) (start : Nat) : Prop :=
  (∃ inv ∈ s.invalidated, inv.key = key ∧ inv.started = start) ∨
    ∃ i c, s.calls i = some c ∧ c.call = .deleted ∧ c.key = key ∧ c.started = start

/-- What is cached was read from the source after the start of every executed invalidation. -/
def CachedFresh (namespace_ : String) (s : CacheState ρ τ) : Prop :=
  ∀ key data, s.redis (prefixWithNamespace namespace_ key) = some data →
    ∀ start, DeletedAt s key start → start ≤ data.time

/-- If the action is the SET of a call, its value was read after the start of every executed
    invalidation of its key. -/
def SetsFresh (s : CacheState ρ τ) (a : CacheAction ρ τ) : Prop :=
  ∀ i c data, a = .run i → s.calls i = some c → c.call = .set data →
    ∀ start, DeletedAt s c.key start → start ≤ data.time

/-- A value was read from the source after each invalidation that returned before `start` had
    begun. -/
def ReadAfter (s : CacheState ρ τ) (key : String) (start : Nat) (data : Fetched τ) : Prop :=
  ∀ inv ∈ s.invalidated, inv.key = key → inv.completed < start → inv.started ≤ data.time

/-- No call that began after an invalidation had returned has returned a value read from the
    source before that invalidation began. -/
def Effective (s : CacheState ρ τ) : Prop :=
  ∀ r ∈ s.returned, ∀ data, r.data = some data → ReadAfter s r.key r.started data

/-! ## What a step of a call does -/

/-- The call is about to write the value or to return it. -/
def Carries : CacheCall ρ τ → Fetched τ → Prop
  | .set data, data' => data = data'
  | .returns data, data' => data = some data'
  | _, _ => False

/-- The steps of the call `c`, with those alike in one case. -/
inductive RunStep (namespace_ : String) (s : CacheState ρ τ) (i : Nat) (c : RunningCall ρ τ) :
    CacheState ρ τ → Prop where
  /-- GET and the callback: a value comes from Redis, or from the source at this moment -/
  | read (call : CacheCall ρ τ) (hset : ∀ data, c.call ≠ .set data) (hdel : call ≠ .deleted)
      (hdata : ∀ data, Carries call data →
        s.redis (prefixWithNamespace namespace_ c.key) = some data ∨ data.time = s.now) :
      RunStep namespace_ s i c (s.setCall i (some { c with call := call }))
  | set (data : Fetched τ) (hcall : c.call = .set data) :
      RunStep namespace_ s i c
        { s.setCall i (some { c with call := .returns (some data) }) with
          redis := Function.update s.redis (prefixWithNamespace namespace_ c.key) (some data) }
  | returns (data : Option (Fetched τ)) (hcall : c.call = .returns data) :
      RunStep namespace_ s i c
        { s.setCall i none with returned := s.returned ++ [⟨c.key, c.started, data⟩] }
  | del (hcall : c.call = .del) :
      RunStep namespace_ s i c
        { s.setCall i (some { c with call := .deleted }) with
          redis := Function.update s.redis (prefixWithNamespace namespace_ c.key) none }
  | deleted (hcall : c.call = .deleted) :
      RunStep namespace_ s i c
        { s.setCall i none with invalidated := s.invalidated ++ [⟨c.key, c.started, s.now⟩] }

omit [DecidableEq ρ] in
theorem runStep_runCall (namespace_ : String) (s : CacheState ρ τ) (i : Nat)
    (c : RunningCall ρ τ) : RunStep namespace_ s i c (s.runCall namespace_ i c) := by
  obtain ⟨key, started, call⟩ := c
  cases call with
  | get =>
    refine RunStep.read _ nofun nofun fun data hdata => ?_
    exact Or.inl hdata
  | getOrSet params =>
    simp only [CacheState.runCall]
    cases hcached : s.redis (prefixWithNamespace namespace_ key) with
    | none => exact RunStep.read _ nofun nofun nofun
    | some cached =>
      refine RunStep.read _ nofun nofun fun data hdata => ?_
      exact Or.inl (hcached.trans hdata)
  | callback params =>
    refine RunStep.read _ nofun nofun fun data hdata => ?_
    cases hdata
    exact Or.inr rfl
  | set data => exact RunStep.set data rfl
  | returns data => exact RunStep.returns data rfl
  | del => exact RunStep.del rfl
  | deleted => exact RunStep.deleted rfl

theorem runStep_of_act {namespace_ : String} {s t : CacheState ρ τ} {i : Nat}
    (h : s.act namespace_ (.run i) = some t) :
    ∃ c, s.calls i = some c ∧ RunStep namespace_ s i c t := by
  simp only [CacheState.act] at h
  cases hc : s.calls i with
  | none => simp only [hc, reduceCtorEq] at h
  | some c =>
    simp only [hc, Option.some.injEq] at h
    subst h
    exact ⟨c, rfl, runStep_runCall namespace_ s i c⟩

omit [DecidableEq ρ] in
private theorem calls_setCall {s : CacheState ρ τ} {i j : Nat}
    {call : Option (RunningCall ρ τ)} {c : RunningCall ρ τ}
    (h : (s.setCall i call).calls j = some c) : call = some c ∨ s.calls j = some c := by
  simp only [CacheState.setCall, Function.update_apply] at h
  split at h
  · exact Or.inl h
  · exact Or.inr h

/-! ## What has been deleted -/

omit [DecidableEq ρ] in
/-- A call that is not moved to its end by DEL adds nothing. -/
private theorem DeletedAt.of_setCall {s : CacheState ρ τ} {i : Nat}
    {call : Option (RunningCall ρ τ)} (hcall : ∀ c, call = some c → c.call ≠ .deleted)
    {key : String} {start : Nat} (h : DeletedAt (s.setCall i call) key start) :
    DeletedAt s key start := by
  cases h with
  | inl hinv => exact Or.inl hinv
  | inr hrun =>
    obtain ⟨j, c, hc, hdel, hkey, hstart⟩ := hrun
    cases calls_setCall hc with
    | inl hnew => exact absurd hdel (hcall c hnew)
    | inr hold => exact Or.inr ⟨j, c, hold, hdel, hkey, hstart⟩

omit [DecidableEq ρ] in
private theorem DeletedAt.of_setCall_none {s : CacheState ρ τ} {i : Nat} {key : String}
    {start : Nat} (h : DeletedAt (s.setCall i none) key start) : DeletedAt s key start := by
  refine h.of_setCall fun c hc => ?_
  cases hc

omit [DecidableEq ρ] in
/-- A call whose DEL has not executed takes nothing away. -/
private theorem DeletedAt.setCall {s : CacheState ρ τ} {i : Nat} {c : RunningCall ρ τ}
    (hc : s.calls i = some c) (hcall : c.call ≠ .deleted) {call : Option (RunningCall ρ τ)}
    {key : String} {start : Nat} (h : DeletedAt s key start) :
    DeletedAt (s.setCall i call) key start := by
  cases h with
  | inl hinv => exact Or.inl hinv
  | inr hrun =>
    obtain ⟨j, c', hc', hdel, hkey, hstart⟩ := hrun
    have hne : j ≠ i := by
      rintro rfl
      cases hc.symm.trans hc'
      exact hcall hdel
    exact Or.inr ⟨j, c', (Function.update_of_ne hne _ _).trans hc', hdel, hkey, hstart⟩

omit [DecidableEq ρ] in
/-- DEL adds its own call, and an invalidation that returns stays. -/
private theorem deletedAt_runStep {namespace_ : String} {s t : CacheState ρ τ} {i : Nat}
    {c : RunningCall ρ τ} (hc : s.calls i = some c) (hrun : RunStep namespace_ s i c t)
    {key : String} {start : Nat} (h : DeletedAt t key start) :
    DeletedAt s key start ∨
      (key = c.key ∧ t.redis (prefixWithNamespace namespace_ c.key) = none) := by
  cases hrun with
  | read call hset hdel hdata =>
    refine Or.inl (DeletedAt.of_setCall (fun c' hc' => ?_) h)
    cases hc'
    exact hdel
  | set data hcall =>
    refine Or.inl (DeletedAt.of_setCall (s := s) (i := i) (fun c' hc' => ?_) h)
    cases hc'
    exact nofun
  | returns data hcall =>
    have hnone : DeletedAt (s.setCall i none) key start := h
    exact Or.inl (hnone.of_setCall_none)
  | del hcall =>
    cases h with
    | inl hinv => exact Or.inl (Or.inl hinv)
    | inr hrun =>
      obtain ⟨j, c', hc', hdel, hkey, hstart⟩ := hrun
      cases calls_setCall hc' with
      | inl hnew =>
        cases hnew
        exact Or.inr ⟨hkey.symm, Function.update_self ..⟩
      | inr hold => exact Or.inl (Or.inr ⟨j, c', hold, hdel, hkey, hstart⟩)
  | deleted hcall =>
    cases h with
    | inl hinv =>
      obtain ⟨inv, hmem, hkey, hstart⟩ := hinv
      cases List.mem_append.1 hmem with
      | inl hold => exact Or.inl (Or.inl ⟨inv, hold, hkey, hstart⟩)
      | inr hnew =>
        cases List.mem_singleton.1 hnew
        exact Or.inl (Or.inr ⟨i, c, hc, hcall, hkey, hstart⟩)
    | inr hrun =>
      have hnone : DeletedAt (s.setCall i none) key start := Or.inr hrun
      exact Or.inl (hnone.of_setCall_none)

/-! ## When the cache stays fresh -/

omit [DecidableEq ρ] in
/-- A step keeps the cache fresh exactly when its SET, if it is one, is of a fresh value. -/
private theorem cachedFresh_runStep {namespace_ : String} {s t : CacheState ρ τ} {i : Nat}
    {c : RunningCall ρ τ} (hc : s.calls i = some c) (hrun : RunStep namespace_ s i c t)
    (h : CachedFresh namespace_ s) : CachedFresh namespace_ t ↔ SetsFresh s (.run i) := by
  -- without a SET nothing new is cached
  have hkeep : (∀ data, c.call ≠ .set data) → (∀ key data,
      t.redis (prefixWithNamespace namespace_ key) = some data →
        s.redis (prefixWithNamespace namespace_ key) = some data) →
      (CachedFresh namespace_ t ↔ SetsFresh s (.run i)) := by
    intro hset hold
    refine iff_of_true (fun key data hcached start hdel => ?_) fun j c' data hj hc' hset' => ?_
    · cases deletedAt_runStep hc hrun hdel with
      | inl hdel' => exact h key data (hold key data hcached) start hdel'
      | inr hnone =>
        obtain ⟨rfl, hnone⟩ := hnone
        rw [hnone] at hcached
        cases hcached
    · cases hj
      cases hc.symm.trans hc'
      exact absurd hset' (hset data)
  cases hrun with
  | read call hset hdel hdata => exact hkeep hset fun key data hcached => hcached
  | returns data hcall =>
    exact hkeep (fun data' => hcall ▸ nofun) fun key data hcached => hcached
  | deleted hcall => exact hkeep (fun data => hcall ▸ nofun) fun key data hcached => hcached
  | del hcall =>
    refine hkeep (fun data => hcall ▸ nofun) fun key data hcached => ?_
    simp only [Function.update_apply] at hcached
    split at hcached
    · cases hcached
    · exact hcached
  | set data hcall =>
    constructor
    · intro hfresh j c' data' hj hc' hcall' start hdel
      cases hj
      cases hc.symm.trans hc'
      cases hcall.symm.trans hcall'
      have hne : c.call ≠ .deleted := hcall ▸ nofun
      exact hfresh c.key data (Function.update_self ..) start (hdel.setCall hc hne)
    · intro hsets key data' hcached start hdel
      have hdel' : DeletedAt s key start := by
        refine DeletedAt.of_setCall (s := s) (i := i) (fun c' hc' => ?_) hdel
        cases hc'
        exact nofun
      simp only [Function.update_apply, prefixWithNamespace_inj] at hcached
      split at hcached
      case isTrue heq =>
        cases hcached
        exact hsets i c data rfl hc hcall start (heq ▸ hdel')
      case isFalse => exact h key data' hcached start hdel'

/-- An action keeps the cache fresh exactly when its SET, if it is one, is of a fresh value. -/
private theorem cachedFresh_step {namespace_ : String} {s s' : CacheState ρ τ}
    {a : CacheAction ρ τ} (hstep : s.step namespace_ a = some s') (h : CachedFresh namespace_ s) :
    CachedFresh namespace_ s' ↔ SetsFresh s a := by
  obtain ⟨t, ht, rfl⟩ := CacheState.step_eq_some.1 hstep
  -- the clock is not part of what is said
  have hclock : CachedFresh namespace_ { t with now := s.now + 1 } ↔ CachedFresh namespace_ t :=
    Iff.rfl
  rw [hclock]
  cases a with
  | start key method =>
    cases ht
    refine iff_of_true (fun key' data hcached start hdel => ?_) nofun
    refine h key' data hcached start (DeletedAt.of_setCall (s := s) (fun c hc => ?_) hdel)
    cases hc
    cases method <;> exact nofun
  | fail i =>
    cases ht
    refine iff_of_true (fun key data hcached start hdel => ?_) nofun
    have hdel' := hdel.of_setCall_none
    exact h key data hcached start hdel'
  | setSource params val =>
    cases ht
    exact iff_of_true h nofun
  | expire key =>
    cases ht
    refine iff_of_true (fun key' data hcached start hdel => ?_) nofun
    simp only [Function.update_apply] at hcached
    split at hcached
    · cases hcached
    · exact h key' data hcached start hdel
  | run i =>
    obtain ⟨c, hc, hrun⟩ := runStep_of_act ht
    exact cachedFresh_runStep hc hrun h

/-! ## The clock -/

/-- What has happened has a time below the bound. -/
structure Clocked (bound : Nat) (s : CacheState ρ τ) : Prop where
  running : ∀ i c, s.calls i = some c → c.started < bound
  invalidated : ∀ inv ∈ s.invalidated, inv.started < bound ∧ inv.completed < bound
  returned : ∀ r ∈ s.returned, r.started < bound

omit [DecidableEq ρ] in
theorem clocked_init (source : ρ → τ) : Clocked 0 (CacheState.init source) :=
  ⟨nofun, nofun, nofun⟩

omit [DecidableEq ρ] in
private theorem Clocked.succ {bound : Nat} {s : CacheState ρ τ} (h : Clocked bound s) :
    Clocked (bound + 1) s :=
  ⟨fun i c hc => Nat.lt_succ_of_lt (h.running i c hc),
    fun inv hmem => (h.invalidated inv hmem).imp Nat.lt_succ_of_lt Nat.lt_succ_of_lt,
    fun r hmem => Nat.lt_succ_of_lt (h.returned r hmem)⟩

omit [DecidableEq ρ] in
private theorem Clocked.setCall {bound : Nat} {s : CacheState ρ τ} (h : Clocked bound s) {i : Nat}
    {call : Option (RunningCall ρ τ)} (hcall : ∀ c, call = some c → c.started < bound) :
    Clocked bound (s.setCall i call) := by
  refine ⟨fun j c hc => ?_, h.invalidated, h.returned⟩
  cases calls_setCall hc with
  | inl hnew => exact hcall c hnew
  | inr hold => exact h.running j c hold

omit [DecidableEq ρ] in
private theorem clocked_runStep {namespace_ : String} {s t : CacheState ρ τ} {i : Nat}
    {c : RunningCall ρ τ} (hc : s.calls i = some c) (hrun : RunStep namespace_ s i c t)
    (h : Clocked s.now s) : Clocked (s.now + 1) t := by
  have hstarted := Nat.lt_succ_of_lt (h.running i c hc)
  have hmoved : ∀ call, Clocked (s.now + 1) (s.setCall i (some { c with call := call })) := by
    intro call
    refine h.succ.setCall fun c' hc' => ?_
    cases hc'
    exact hstarted
  have hended : Clocked (s.now + 1) (s.setCall i none) := by
    refine h.succ.setCall fun c' hc' => ?_
    cases hc'
  cases hrun with
  | read call hset hdel hdata => exact hmoved call
  | set data hcall =>
    have hset := hmoved (.returns (some data))
    exact ⟨hset.running, hset.invalidated, hset.returned⟩
  | del hcall =>
    have hdel := hmoved .deleted
    exact ⟨hdel.running, hdel.invalidated, hdel.returned⟩
  | returns data hcall =>
    refine ⟨hended.running, hended.invalidated, fun r hmem => ?_⟩
    cases List.mem_append.1 hmem with
    | inl hold => exact hended.returned r hold
    | inr hnew =>
      cases List.mem_singleton.1 hnew
      exact hstarted
  | deleted hcall =>
    refine ⟨hended.running, fun inv hmem => ?_, hended.returned⟩
    cases List.mem_append.1 hmem with
    | inl hold => exact hended.invalidated inv hold
    | inr hnew =>
      cases List.mem_singleton.1 hnew
      exact ⟨hstarted, Nat.lt_succ_self _⟩

/-- The clock is ahead of everything in every state. -/
theorem clocked_step {namespace_ : String} {s s' : CacheState ρ τ} {a : CacheAction ρ τ}
    (hstep : s.step namespace_ a = some s') (h : Clocked s.now s) : Clocked s'.now s' := by
  obtain ⟨t, ht, rfl⟩ := CacheState.step_eq_some.1 hstep
  suffices ht : Clocked (s.now + 1) t from ⟨ht.running, ht.invalidated, ht.returned⟩
  cases a with
  | start key method =>
    cases ht
    have hstarted : Clocked (s.now + 1)
        (s.setCall s.next (some ⟨key, s.now, method.call⟩)) := by
      refine h.succ.setCall fun c hc => ?_
      cases hc
      exact Nat.lt_succ_self _
    exact ⟨hstarted.running, hstarted.invalidated, hstarted.returned⟩
  | fail i =>
    cases ht
    refine h.succ.setCall fun c hc => ?_
    cases hc
  | setSource params val =>
    cases ht
    exact ⟨h.succ.running, h.succ.invalidated, h.succ.returned⟩
  | expire key =>
    cases ht
    exact ⟨h.succ.running, h.succ.invalidated, h.succ.returned⟩
  | run i =>
    obtain ⟨c, hc, hrun⟩ := runStep_of_act ht
    exact clocked_runStep hc hrun h

/-! ## Effective invalidation -/

/-- What the results of later calls rest on: the values on their way to a caller. -/
structure EffectiveInv (namespace_ : String) (s : CacheState ρ τ) : Prop where
  clocked : Clocked s.now s
  cached : CachedFresh namespace_ s
  carried : ∀ i c data, s.calls i = some c → Carries c.call data →
    ReadAfter s c.key c.started data
  effective : Effective s

omit [DecidableEq ρ] in
theorem effectiveInv_init (namespace_ : String) (source : ρ → τ) :
    EffectiveInv namespace_ (CacheState.init source) :=
  ⟨clocked_init source, nofun, nofun, nofun⟩

omit [DecidableEq ρ] in
/-- The calls and the finished ones after one call has moved on. -/
private theorem readAfter_setCall {s : CacheState ρ τ} {i : Nat}
    {call : Option (RunningCall ρ τ)}
    (h : ∀ j c data, s.calls j = some c → Carries c.call data →
      ReadAfter s c.key c.started data)
    (hcall : ∀ c data, call = some c → Carries c.call data → ReadAfter s c.key c.started data) :
    ∀ j c data, (s.setCall i call).calls j = some c → Carries c.call data →
      ReadAfter s c.key c.started data := by
  intro j c data hc hdata
  cases calls_setCall hc with
  | inl hnew => exact hcall c data hnew hdata
  | inr hold => exact h j c data hold hdata

omit [DecidableEq ρ] in
private theorem effective_runStep {namespace_ : String} {s t : CacheState ρ τ} {i : Nat}
    {c : RunningCall ρ τ} (hc : s.calls i = some c) (hrun : RunStep namespace_ s i c t)
    (h : EffectiveInv namespace_ s) :
    (∀ j c' data, t.calls j = some c' → Carries c'.call data →
      ReadAfter t c'.key c'.started data) ∧ Effective t := by
  cases hrun with
  | read call hset hdel hdata =>
    refine ⟨readAfter_setCall h.carried fun c' data hc' hcarry => ?_, h.effective⟩
    cases hc'
    intro inv hmem hkey _
    cases hdata data hcarry with
    | inl hcached => exact h.cached c.key data hcached inv.started (Or.inl ⟨inv, hmem, hkey, rfl⟩)
    | inr hnow => exact hnow ▸ Nat.le_of_lt (h.clocked.invalidated inv hmem).1
  | set data hcall =>
    refine ⟨readAfter_setCall h.carried fun c' data' hc' hcarry => ?_, h.effective⟩
    cases hc'
    have hcarried : Carries c.call data := hcall ▸ rfl
    cases hcarry
    exact h.carried i c data hc hcarried
  | del hcall =>
    refine ⟨readAfter_setCall h.carried fun c' data' hc' hcarry => ?_, h.effective⟩
    cases hc'
    cases hcarry
  | returns data hcall =>
    refine ⟨readAfter_setCall h.carried fun c' data' hc' => ?_, fun r hmem data' hdata => ?_⟩
    · cases hc'
    · cases List.mem_append.1 hmem with
      | inl hold => exact h.effective r hold data' hdata
      | inr hnew =>
        cases List.mem_singleton.1 hnew
        exact h.carried i c data' hc (hcall ▸ hdata)
  | deleted hcall =>
    -- every call that is running or has returned began before this invalidation returns
    have hnew : ∀ key start data, start < s.now → ReadAfter s key start data →
        ReadAfter { s.setCall i none with
          invalidated := s.invalidated ++ [⟨c.key, c.started, s.now⟩] } key start data := by
      intro key start data hstart hafter inv hmem hkey hlt
      cases List.mem_append.1 hmem with
      | inl hold => exact hafter inv hold hkey hlt
      | inr hnew =>
        cases List.mem_singleton.1 hnew
        exact absurd hlt (Nat.lt_asymm hstart)
    constructor
    · intro j c' data hc' hcarry
      cases calls_setCall hc' with
      | inl hnone => cases hnone
      | inr hold =>
        exact hnew _ _ _ (h.clocked.running j c' hold) (h.carried j c' data hold hcarry)
    · intro r hmem data hdata
      exact hnew _ _ _ (h.clocked.returned r hmem) (h.effective r hmem data hdata)

theorem effectiveInv_step {namespace_ : String} {s s' : CacheState ρ τ} {a : CacheAction ρ τ}
    (hstep : s.step namespace_ a = some s') (hset : SetsFresh s a)
    (h : EffectiveInv namespace_ s) : EffectiveInv namespace_ s' := by
  have hclocked := clocked_step hstep h.clocked
  have hcached := (cachedFresh_step hstep h.cached).2 hset
  obtain ⟨t, ht, rfl⟩ := CacheState.step_eq_some.1 hstep
  suffices ht : (∀ j c data, t.calls j = some c → Carries c.call data →
      ReadAfter t c.key c.started data) ∧ Effective t from ⟨hclocked, hcached, ht.1, ht.2⟩
  cases a with
  | start key method =>
    cases ht
    refine ⟨readAfter_setCall h.carried fun c data hc hcarry => ?_, h.effective⟩
    cases hc
    cases method <;> cases hcarry
  | fail i =>
    cases ht
    refine ⟨readAfter_setCall h.carried fun c data hc => ?_, h.effective⟩
    cases hc
  | setSource params val =>
    cases ht
    exact ⟨h.carried, h.effective⟩
  | expire key =>
    cases ht
    exact ⟨h.carried, h.effective⟩
  | run i =>
    obtain ⟨c, hc, hrun⟩ := runStep_of_act ht
    exact effective_runStep hc hrun h

/-! ## A stale value is returned -/

/-- A `get` of a cached value that an invalidation which has returned is later than. -/
private theorem not_effective_get {namespace_ : String} {s : CacheState ρ τ} {inv : Invalidation}
    {data : Fetched τ} (hmem : inv ∈ s.invalidated) (hcompleted : inv.completed < s.now)
    (hcached : s.redis (prefixWithNamespace namespace_ inv.key) = some data)
    (hstale : data.time < inv.started) :
    ∃ t, run (CacheState.step namespace_) s
      [.start inv.key .get, .run s.next, .run s.next] = some t ∧ ¬ Effective t := by
  simp only [run, CacheState.step, CacheState.act, CacheState.setCall, CacheState.runCall,
    CacheMethod.call, Option.map_some, Function.update_self, hcached]
  refine ⟨_, rfl, fun heff => ?_⟩
  have hle := heff ⟨inv.key, s.now, some data⟩ (List.mem_append_right _ (List.mem_singleton.2 rfl))
    data rfl inv hmem rfl hcompleted
  exact absurd hstale (Nat.not_lt.2 hle)

/-- Once a stale value is cached, the invalidation can return and a `get` after it finds the
    value. -/
private theorem not_effective_of_not_cachedFresh {namespace_ : String} {s : CacheState ρ τ}
    (hclocked : Clocked s.now s) (h : ¬ CachedFresh namespace_ s) :
    ∃ as t, run (CacheState.step namespace_) s as = some t ∧ ¬ Effective t := by
  simp only [CachedFresh, not_forall, Nat.not_le] at h
  obtain ⟨key, data, hcached, start, hdel, hstale⟩ := h
  cases hdel with
  | inl hinv =>
    obtain ⟨inv, hmem, rfl, rfl⟩ := hinv
    obtain ⟨t, ht, hnot⟩ := not_effective_get hmem (hclocked.invalidated inv hmem).2 hcached hstale
    exact ⟨_, t, ht, hnot⟩
  | inr hrun =>
    obtain ⟨i, c, hc, hcall, rfl, rfl⟩ := hrun
    let inv : Invalidation := ⟨c.key, c.started, s.now⟩
    let s' := { s.setCall i none with invalidated := s.invalidated ++ [inv], now := s.now + 1 }
    have hreturn : s.step namespace_ (.run i) = some s' := by
      simp only [CacheState.step, CacheState.act, hc, CacheState.runCall, hcall, Option.map_some]
      rfl
    have hmem : inv ∈ s'.invalidated := List.mem_append_right _ (List.mem_singleton.2 rfl)
    obtain ⟨t, ht, hnot⟩ := not_effective_get hmem (Nat.lt_succ_self _) hcached hstale
    exact ⟨_ :: _, t, run_cons.2 ⟨s', hreturn, ht⟩, hnot⟩

/-- Invalidation is effective in every run whose SETs are of values no older than an executed
    invalidation; where a run has a SET of an older one, the run up to it can go on to return
    that value to a caller that began after the invalidation. -/
theorem invalidate_effective (namespace_ : String) (source : ρ → τ)
    (as : List (CacheAction ρ τ)) :
    (Meets (CacheState.step namespace_) SetsFresh (CacheState.init source) as →
      Always (CacheState.step namespace_) Effective (CacheState.init source) as) ∧
    (¬ Meets (CacheState.step namespace_) SetsFresh (CacheState.init source) as →
      ∃ pre bs t, pre <+: as ∧
        run (CacheState.step namespace_) (CacheState.init source) (pre ++ bs) = some t ∧
        ¬ Effective t) := by
  constructor
  · intro hsets
    exact always_of_invariant (fun s a s' hstep hset h => effectiveInv_step hstep hset h)
      (fun s h => h.effective) hsets (effectiveInv_init namespace_ source)
  · intro hsets
    have hcached : ¬ Always (CacheState.step namespace_) (CachedFresh namespace_)
        (CacheState.init source) as := by
      rwa [always_iff_meets (I := fun _ => True) (fun _ _ _ _ _ => trivial)
        (fun s a s' hstep _ => cachedFresh_step hstep) trivial
        (effectiveInv_init namespace_ source).cached]
    obtain ⟨pre, t, hpre, ht, hnot⟩ := exists_of_not_always hcached
    have hclocked : Clocked t.now t :=
      run_invariant (P := fun s => Clocked s.now s) (fun s a s' hstep h => clocked_step hstep h) ht
        (clocked_init source)
    obtain ⟨bs, u, hu, hne⟩ := not_effective_of_not_cachedFresh hclocked hnot
    exact ⟨pre, bs, u, hpre, run_append.2 ⟨t, ht, hu⟩, hne⟩

end Invalidation

/-! ### A run can be checked for it -/

section Check

variable {ρ τ : Type} [DecidableEq ρ]

/-- No call has a number from `next` on. -/
def Numbered (s : CacheState ρ τ) : Prop := ∀ i, s.next ≤ i → s.calls i = none

omit [DecidableEq ρ] in
theorem Numbered.setCall {s : CacheState ρ τ} (h : Numbered s) {i : Nat}
    {call : Option (RunningCall ρ τ)} (hi : call = none ∨ i < s.next) :
    Numbered (s.setCall i call) := by
  intro j hj
  have hjnext : s.next ≤ j := hj
  by_cases heq : j = i
  · subst heq
    have hnone : call = none := hi.resolve_right (by omega)
    simp [CacheState.setCall, hnone]
  · exact (Function.update_of_ne heq ..).trans (h j hjnext)

theorem numbered_step {namespace_ : String} {s s' : CacheState ρ τ} {a : CacheAction ρ τ}
    (hstep : s.step namespace_ a = some s') (h : Numbered s) : Numbered s' := by
  obtain ⟨t, hact, rfl⟩ := CacheState.step_eq_some.1 hstep
  suffices hnumbered : Numbered t from hnumbered
  cases a with
  | start key method =>
    cases hact
    intro i hi
    have hnext : s.next < i := hi
    exact (Function.update_of_ne (Nat.ne_of_gt hnext) ..).trans (h i (Nat.le_of_lt hnext))
  | run i =>
    simp only [CacheState.act] at hact
    split at hact
    · cases hact
    · next c hc =>
      cases hact
      have hi : i < s.next := by
        by_contra hge
        rw [h i (by omega)] at hc
        cases hc
      simp only [CacheState.runCall]
      split
      · exact h.setCall (.inr hi)
      · split
        · exact h.setCall (.inr hi)
        · exact h.setCall (.inr hi)
      · exact h.setCall (.inr hi)
      · exact h.setCall (.inr hi)
      · exact h.setCall (.inl rfl)
      · exact h.setCall (.inr hi)
      · exact h.setCall (.inl rfl)
  | fail i =>
    cases hact
    exact h.setCall (.inl rfl)
  | setSource params val =>
    cases hact
    exact h
  | expire key =>
    cases hact
    exact h

/-- `SetsFresh` where the calls are numbered. -/
def setsFresh (s : CacheState ρ τ) : CacheAction ρ τ → Bool
  | .run i =>
    match s.calls i with
    | some ⟨key, _, .set data⟩ =>
      (s.invalidated.all fun inv => inv.key ≠ key || inv.started ≤ data.time) &&
        (List.range s.next).all fun j => (s.calls j).all fun c =>
          match c.call with
          | .deleted => c.key ≠ key || c.started ≤ data.time
          | _ => true
    | _ => true
  | _ => true

omit [DecidableEq ρ] in
theorem setsFresh_of_numbered {s : CacheState ρ τ} {a : CacheAction ρ τ} (h : Numbered s)
    (hfresh : setsFresh s a = true) : SetsFresh s a := by
  rintro i ⟨key, started, _⟩ data rfl hc rfl start hdel
  simp only [setsFresh, hc, Bool.and_eq_true, List.all_eq_true, Bool.or_eq_true,
    decide_eq_true_eq, List.mem_range] at hfresh
  cases hdel with
  | inl hinv =>
    obtain ⟨inv, hmem, hkey, rfl⟩ := hinv
    exact (hfresh.1 inv hmem).resolve_left fun hne => hne hkey
  | inr hcall =>
    obtain ⟨j, c, hj, hdeleted, hkey, rfl⟩ := hcall
    have hlt : j < s.next := by
      by_contra hge
      rw [h j (by omega)] at hj
      cases hj
    have hall := hfresh.2 j hlt
    rw [hj, Option.all_some, hdeleted] at hall
    simpa [hkey] using hall

end Check

/-- A value is cached, the source changes, and the value is invalidated while another `getOrSet` has
    missed it. That call reads the source after the invalidation has begun. -/
def missedWhileInvalidated : List (CacheAction Unit String) :=
  [.start "user" (.getOrSet ()), .run 0, .run 0, .run 0, .run 0, .setSource () "canceled",
    .start "user" .invalidate, .run 1, .start "user" (.getOrSet ()), .run 2, .run 2, .run 1, .run 2,
    .run 2]

theorem invalidate_effective_missedWhileInvalidated :
    (run (CacheState.step "stripe:checkout:session") (CacheState.init fun _ : Unit => "active")
        missedWhileInvalidated).map (fun s => (s.returned.map Returned.data, s.invalidated)) =
      some ([some ⟨"active", 2⟩, some ⟨"canceled", 10⟩], [⟨"user", 6, 11⟩]) ∧
    Always (CacheState.step "stripe:checkout:session") Effective
      (CacheState.init fun _ : Unit => "active") missedWhileInvalidated := by
  have hchecked : Meets (CacheState.step "stripe:checkout:session")
      (fun s a => setsFresh s a = true) (CacheState.init fun _ : Unit => "active")
      missedWhileInvalidated := by decide +kernel
  refine ⟨rfl, (invalidate_effective _ _ missedWhileInvalidated).1 ?_⟩
  exact meets_of_invariant (fun _ _ _ hstep _ => numbered_step hstep)
    (fun _ _ hfresh h => setsFresh_of_numbered h hfresh) hchecked fun _ _ => rfl

/-- `getOrSet` reads the source, the source changes and is invalidated, and only then the value
    is written: the next `get` returns it. -/
theorem not_effective : ∃ t, run (CacheState.step "stripe:checkout:session")
    (CacheState.init fun _ : Unit => "active")
    [.start "user" (.getOrSet ()), .run 0, .run 0, .setSource () "canceled",
      .start "user" .invalidate, .run 1, .run 1, .run 0, .start "user" .get, .run 2, .run 2] =
        some t ∧ ¬ Effective t := by
  refine ⟨_, rfl, fun heff => ?_⟩
  have hle := heff ⟨"user", 8, some ⟨"active", 2⟩⟩ (by decide) _ rfl ⟨"user", 4, 6⟩ (by decide) rfl
    (by decide)
  exact absurd hle (by decide)

end BlockFeed.Spec
