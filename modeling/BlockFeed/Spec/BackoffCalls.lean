import BlockFeed.ForStd.Transition
import BlockFeed.Native.ExponentialBackoff

/-!
# How often ExponentialBackoff tries

A call fares as promised (`AsPromised`) if it tries no more often than `maxRetries` says, counts its
tries, stops at the first success with its result, and otherwise returns an error that tells
whether its context ended it. It does so in every run but those where a first failure leads to
`rand.Intn(0)` (`tries_asPromised_iff`).

A timer's channel stays open, so an error never comes back as an empty success. For the same
reason the Flow source's model of a call is this one with its timers left out (`step_erase`).
-/

namespace BlockFeed.Spec

open BlockFeed.Native Transition

section BackoffCalls

variable {τ ε : Type} [Inhabited τ] {platform : Double.Value → Int64} {opts : BackoffOpts}

/-- `NewFlowBlockSource` admits all numbers that are not negative, 0 included. -/
theorem newBackoffOpts_admits (initWaitMs maxRetries maxRandMs : Nat) :
    newBackoffOpts ⟨⟨some maxRandMs, some maxRetries⟩, some initWaitMs⟩ =
      ⟨⟨maxRandMs, maxRetries⟩, initWaitMs⟩ := by
  have hkept (n default : Nat) : reconnectOption (some n) default = n := by
    rw [reconnectOption, if_pos (Int.natCast_nonneg n), Int.toNat_natCast]
  simp only [newBackoffOpts, newFlowBlockSourceOpts, hkept]

/-- None of the calls of the callback succeeded. -/
def NoSuccess (inputs : List (BackoffInput τ ε)) : Prop :=
  ∀ result, .succeeded result ∉ inputs

/-- A call that has come to `c` with these inputs is as promised. -/
structure AsPromised (platform : Double.Value → Int64) (opts : BackoffOpts)
    (inputs : List (BackoffInput τ ε)) (c : BackoffCall τ ε) : Prop where
  neverPanics : c.phase ≠ .panicked
  /-- the callback is called with 0, 1, 2, ... -/
  calls : c.calls = List.range c.calls.length
  calls_le : c.calls.length ≤ opts.maxRetries
  /-- nothing follows a success, and its result is returned -/
  success : ∀ before result after, inputs = before ++ .succeeded result :: after →
    after = [] ∧ c.phase = .returned result none
  failure : ∀ value err, c.phase = .returned value err → NoSuccess inputs →
    value = default ∧ err ≠ none ∧
      ∀ e, err = some (.ctx e) ↔ inputs.getLast? = some (.ctxDone e)
  exhausted : c.phase = .returned default (some BackoffCall.retryLimitExceeded) →
    c.calls.length = opts.maxRetries
  /-- it returns, or goes on with whatever it waits for -/
  live : (∃ value err, c.phase = .returned value err) ∨
    ((∀ result, (BackoffCall.step platform opts c (.succeeded result)).isSome) ∧
      ∀ rand, (BackoffCall.step platform opts c (.failed rand)).isSome) ∨
    (BackoffCall.step platform opts c .timer).isSome ∧
      ∀ e, (BackoffCall.step platform opts c (.ctxDone e)).isSome
  /-- and it does not go on forever -/
  bounded : inputs.length ≤ 2 * opts.maxRetries - 1

/-! ### The invariant -/

/-- How a call comes to return after `n` calls of the callback. -/
inductive Ended (opts : BackoffOpts) (n : Nat) :
    List (BackoffInput τ ε) → τ → Option (BackoffError ε) → Prop where
  | success {before : List (BackoffInput τ ε)} (result : τ) (h : NoSuccess before) :
    Ended opts n (before ++ [.succeeded result]) result none
  | ctxDone {before : List (BackoffInput τ ε)} (e : ε) (h : NoSuccess before) :
    Ended opts n (before ++ [.ctxDone e]) default (some (.ctx e))
  | exhausted {inputs : List (BackoffInput τ ε)} (h : NoSuccess inputs)
    (hlast : ∀ e, inputs.getLast? ≠ some (.ctxDone e)) (hn : n = opts.maxRetries) :
    Ended opts n inputs default (some BackoffCall.retryLimitExceeded)

/-- What the position knows after `n` calls of the callback. -/
def PositionInv (opts : BackoffOpts) (inputs : List (BackoffInput τ ε)) (n : Nat) :
    BackoffPhase τ ε → Prop
  | .calling retryCount timer =>
    n = retryCount + 1 ∧ n ≤ opts.maxRetries ∧ NoSuccess inputs ∧
      inputs.length = 2 * retryCount ∧
      match timer with
      | none => inputs = []
      | some timer => timer.ok ∧ 0 < opts.maxRandMs
  | .waiting retryCount timer =>
    n = retryCount ∧ n < opts.maxRetries ∧ NoSuccess inputs ∧
      inputs.length + 1 = 2 * retryCount ∧ timer.ok ∧ 0 < opts.maxRandMs
  | .returned value err =>
    n ≤ opts.maxRetries ∧ inputs.length ≤ 2 * opts.maxRetries - 1 ∧
      Ended opts n inputs value err
  | .panicked =>
    opts.maxRandMs = 0 ∧ 1 < opts.maxRetries ∧ ∃ rand, inputs = [.failed rand]

/-- The callback was called with 0, 1, 2, ..., which the position agrees with. -/
structure BackoffInv (opts : BackoffOpts) (inputs : List (BackoffInput τ ε))
    (c : BackoffCall τ ε) : Prop where
  calls : c.calls = List.range c.calls.length
  position : PositionInv opts inputs c.calls.length c.phase

omit [Inhabited τ] in
theorem noSuccess_concat {inputs : List (BackoffInput τ ε)} {input : BackoffInput τ ε}
    (h : NoSuccess inputs) (hinput : ∀ result, input ≠ .succeeded result) :
    NoSuccess (inputs ++ [input]) := by
  intro result hmem
  rcases List.mem_append.1 hmem with hold | hnew
  · exact h result hold
  · exact hinput result (List.mem_singleton.1 hnew).symm

omit [Inhabited τ] in
theorem noSuccess_failed {inputs : List (BackoffInput τ ε)} (h : NoSuccess inputs) (rand : Nat) :
    NoSuccess (inputs ++ [.failed rand]) :=
  noSuccess_concat h nofun

omit [Inhabited τ] in
theorem noSuccess_timer {inputs : List (BackoffInput τ ε)} (h : NoSuccess inputs) :
    NoSuccess (inputs ++ [.timer]) :=
  noSuccess_concat h nofun

namespace BackoffInv

variable {inputs : List (BackoffInput τ ε)} {c : BackoffCall τ ε} {retryCount : Nat}

theorem start (opts : BackoffOpts) :
    BackoffInv opts [] (BackoffCall.start opts : BackoffCall τ ε) := by
  unfold BackoffCall.start
  split
  · rename_i hzero
    refine ⟨rfl, Nat.zero_le _, Nat.zero_le _, ?_⟩
    exact .exhausted (fun _ => List.not_mem_nil) nofun hzero.symm
  · rename_i hpos
    exact ⟨rfl, rfl, Nat.pos_of_ne_zero hpos, fun _ => List.not_mem_nil, rfl, rfl⟩

theorem succeeded {timer : Option Timer} (h : BackoffInv opts inputs c)
    (hphase : c.phase = .calling retryCount timer) (result : τ) :
    BackoffInv opts (inputs ++ [.succeeded result]) { c with phase := .returned result none } := by
  have hcalling := h.position
  rw [hphase] at hcalling
  obtain ⟨hn, hle, hnone, hlength, -⟩ := hcalling
  refine ⟨h.calls, hle, ?_, .success result hnone⟩
  rw [List.length_append, List.length_singleton]
  omega

/-- A failure is the last one, or leads to the next wait. Only the first can lead to a panic:
    after it `rand.Intn` has been called. -/
theorem failed {timer : Option Timer} (h : BackoffInv opts inputs c)
    (hphase : c.phase = .calling retryCount timer) (rand : Nat) :
    BackoffInv opts (inputs ++ [.failed rand])
      (BackoffCall.retry platform opts c retryCount timer rand) := by
  have hcalling := h.position
  rw [hphase] at hcalling
  obtain ⟨hn, hle, hnone, hlength, htimer⟩ := hcalling
  have hnone' := noSuccess_failed hnone rand
  have hlength' : (inputs ++ [BackoffInput.failed rand]).length = 2 * retryCount + 1 := by
    rw [List.length_append, List.length_singleton, hlength]
  rcases Nat.lt_or_ge (retryCount + 1) opts.maxRetries with hmore | hlast
  · cases timer with
    | none =>
      rcases Nat.eq_zero_or_pos opts.maxRandMs with hzero | hpos
      · rw [BackoffCall.retry_panic hmore hzero]
        refine ⟨h.calls, hzero, by omega, rand, ?_⟩
        rw [htimer, List.nil_append]
      · rw [BackoffCall.retry_first hmore hpos]
        exact ⟨h.calls, hn, hn ▸ hmore, hnone', by omega, Timer.ok_new _, hpos⟩
    | some timer =>
      obtain ⟨hok, hpos⟩ := htimer
      rw [BackoffCall.retry_next hmore hpos]
      exact ⟨h.calls, hn, hn ▸ hmore, hnone', by omega, (Timer.ok_reset _ _).trans hok, hpos⟩
  · rw [BackoffCall.retry_last hlast]
    refine ⟨h.calls, hle, by omega, .exhausted hnone' ?_ ?_⟩
    · intro e he
      rw [List.getLast?_concat] at he
      cases he
    · exact Nat.le_antisymm hle (hn.symm ▸ hlast)

theorem timer {timer : Timer} (h : BackoffInv opts inputs c)
    (hphase : c.phase = .waiting retryCount timer) :
    BackoffInv opts (inputs ++ [.timer])
      { c with phase := .calling retryCount (some timer), calls := c.calls ++ [retryCount] } := by
  have hwaiting := h.position
  rw [hphase] at hwaiting
  obtain ⟨hn, hlt, hnone, hlength, hok, hpos⟩ := hwaiting
  have hcalls : (c.calls ++ [retryCount]).length = retryCount + 1 := by
    rw [List.length_append, List.length_singleton, hn]
  refine ⟨?_, hcalls, hcalls ▸ hn ▸ hlt, noSuccess_timer hnone, ?_, hok, hpos⟩
  · show c.calls ++ [retryCount] = List.range (c.calls ++ [retryCount]).length
    rw [hcalls, List.range_succ, ← hn, ← h.calls]
  · rw [List.length_append, List.length_singleton, hlength]

theorem ctxDone {timer : Timer} (h : BackoffInv opts inputs c)
    (hphase : c.phase = .waiting retryCount timer) (e : ε) :
    BackoffInv opts (inputs ++ [.ctxDone e])
      { c with phase := .returned default (some (.ctx e)) } := by
  have hwaiting := h.position
  rw [hphase] at hwaiting
  obtain ⟨hn, hlt, hnone, hlength, -⟩ := hwaiting
  refine ⟨h.calls, Nat.le_of_lt hlt, ?_, .ctxDone e hnone⟩
  rw [List.length_append, List.length_singleton]
  omega

theorem step {input : BackoffInput τ ε} {c' : BackoffCall τ ε} (h : BackoffInv opts inputs c)
    (hstep : BackoffCall.step platform opts c input = some c') :
    BackoffInv opts (inputs ++ [input]) c' := by
  cases BackoffCall.step_cases hstep with
  | succeeded result hphase => exact h.succeeded hphase result
  | failed rand hphase => exact h.failed hphase rand
  | timer hphase => exact h.timer hphase
  | closed hphase hclosed =>
    -- no timer closes its channel
    have hwaiting := h.position
    rw [hphase] at hwaiting
    exact absurd hwaiting.2.2.2.2.1 hclosed
  | ctxDone e hphase => exact h.ctxDone hphase e

end BackoffInv

theorem backoffInv_run {inputs : List (BackoffInput τ ε)} {c : BackoffCall τ ε}
    (hrun : run (BackoffCall.step platform opts) (BackoffCall.start opts) inputs = some c) :
    BackoffInv opts inputs c :=
  run_invariant_history (fun _ _ _ _ hstep h => h.step hstep) hrun (.start opts)

/-! ### As promised -/

/-- A success ends the call. -/
theorem Ended.success_last {n : Nat} {inputs : List (BackoffInput τ ε)} {value : τ}
    {err : Option (BackoffError ε)} (h : Ended opts n inputs value err)
    {before after : List (BackoffInput τ ε)} {result : τ}
    (heq : inputs = before ++ .succeeded result :: after) :
    after = [] ∧ value = result ∧ err = none := by
  have hmem : .succeeded result ∈ inputs :=
    heq ▸ List.mem_append_right before List.mem_cons_self
  cases h with
  | success value hnone =>
    cases List.eq_nil_or_concat after with
    | inl hnil =>
      subst hnil
      obtain ⟨-, hlast⟩ := List.append_inj' heq rfl
      cases hlast
      exact ⟨rfl, rfl, rfl⟩
    | inr hconcat =>
      -- then it was not the first
      obtain ⟨init, last, rfl⟩ := hconcat
      rw [List.concat_eq_append, ← List.cons_append, ← List.append_assoc] at heq
      obtain ⟨rfl, -⟩ := List.append_inj' heq rfl
      exact absurd (List.mem_append_right before List.mem_cons_self) (hnone result)
  | ctxDone e hnone =>
    have hnone' : NoSuccess (_ ++ [.ctxDone e]) := noSuccess_concat hnone nofun
    exact absurd hmem (hnone' result)
  | exhausted hnone => exact absurd hmem (hnone result)

/-- Without one there is an error, and it tells whether the context ended the call. -/
theorem Ended.error {n : Nat} {inputs : List (BackoffInput τ ε)} {value : τ}
    {err : Option (BackoffError ε)} (h : Ended opts n inputs value err)
    (hnone : NoSuccess inputs) :
    value = default ∧ err ≠ none ∧
      ∀ e, err = some (.ctx e) ↔ inputs.getLast? = some (.ctxDone e) := by
  cases h with
  | success value _ =>
    exact absurd (List.mem_append_right _ (List.mem_singleton.2 rfl)) (hnone value)
  | ctxDone e _ =>
    refine ⟨rfl, nofun, fun e' => ?_⟩
    rw [List.getLast?_concat, Option.some.injEq, Option.some.injEq, BackoffError.ctx.injEq,
      BackoffInput.ctxDone.injEq]
  | exhausted _ hlast _ =>
    refine ⟨rfl, nofun, fun e' => ⟨fun h => ?_, fun h => absurd h (hlast e')⟩⟩
    simp only [BackoffCall.retryLimitExceeded, Option.some.injEq, reduceCtorEq] at h

theorem Ended.allTried {n : Nat} {inputs : List (BackoffInput τ ε)} {value : τ}
    (h : Ended opts n inputs value (some BackoffCall.retryLimitExceeded)) :
    n = opts.maxRetries := by
  cases h with
  | exhausted _ _ hn => exact hn

namespace BackoffInv

variable {inputs : List (BackoffInput τ ε)} {c : BackoffCall τ ε}

theorem returned (h : BackoffInv opts inputs c) {value : τ} {err : Option (BackoffError ε)}
    (hphase : c.phase = .returned value err) : Ended opts c.calls.length inputs value err := by
  have hreturned := h.position
  rw [hphase] at hreturned
  exact hreturned.2.2

/-- As long as a call goes on there was no success. -/
theorem success (h : BackoffInv opts inputs c) {before after : List (BackoffInput τ ε)}
    {result : τ} (heq : inputs = before ++ .succeeded result :: after) :
    after = [] ∧ c.phase = .returned result none := by
  have hmem : .succeeded result ∈ inputs :=
    heq ▸ List.mem_append_right before List.mem_cons_self
  have hposition := h.position
  cases hphase : c.phase with
  | calling retryCount timer =>
    rw [hphase] at hposition
    exact absurd hmem (hposition.2.2.1 result)
  | waiting retryCount timer =>
    rw [hphase] at hposition
    exact absurd hmem (hposition.2.2.1 result)
  | returned value err =>
    obtain ⟨hafter, rfl, rfl⟩ := (h.returned hphase).success_last heq
    exact ⟨hafter, rfl⟩
  | panicked =>
    rw [hphase] at hposition
    obtain ⟨-, -, rand, rfl⟩ := hposition
    cases List.mem_singleton.1 hmem

theorem calls_le (h : BackoffInv opts inputs c) (hpanic : c.phase ≠ .panicked) :
    c.calls.length ≤ opts.maxRetries := by
  have hposition := h.position
  cases hphase : c.phase with
  | calling retryCount timer => rw [hphase] at hposition; exact hposition.2.1
  | waiting retryCount timer => rw [hphase] at hposition; exact Nat.le_of_lt hposition.2.1
  | returned value err => rw [hphase] at hposition; exact hposition.1
  | panicked => exact absurd hphase hpanic

/-- Two inputs for each call of the callback, the last one without a wait. -/
theorem bounded (h : BackoffInv opts inputs c) : inputs.length ≤ 2 * opts.maxRetries - 1 := by
  have hposition := h.position
  cases hphase : c.phase with
  | calling retryCount timer =>
    rw [hphase] at hposition
    obtain ⟨hn, hle, -, hlength, -⟩ := hposition
    omega
  | waiting retryCount timer =>
    rw [hphase] at hposition
    obtain ⟨hn, hlt, -, hlength, -⟩ := hposition
    omega
  | returned value err => rw [hphase] at hposition; exact hposition.2.1
  | panicked =>
    rw [hphase] at hposition
    obtain ⟨-, hmore, rand, rfl⟩ := hposition
    show 1 ≤ 2 * opts.maxRetries - 1
    omega

theorem asPromised (h : BackoffInv opts inputs c) (hpanic : c.phase ≠ .panicked) :
    AsPromised platform opts inputs c where
  neverPanics := hpanic
  calls := h.calls
  calls_le := h.calls_le hpanic
  success := fun _ _ _ heq => h.success heq
  failure := fun _ _ hphase hnone => (h.returned hphase).error hnone
  exhausted := fun hphase => (h.returned hphase).allTried
  live := by
    cases hphase : c.phase with
    | calling retryCount timer => exact .inr (.inl (by simp [BackoffCall.step, hphase]))
    | waiting retryCount timer =>
      have hwaiting := h.position
      rw [hphase] at hwaiting
      exact .inr (.inr (by simp [BackoffCall.step, hphase, hwaiting.2.2.2.2.1]))
    | returned value err => exact .inl ⟨value, err, rfl⟩
    | panicked => exact absurd hphase hpanic
  bounded := h.bounded

end BackoffInv

/-- A panic ends a run. -/
theorem run_panicked {c c' : BackoffCall τ ε} {inputs : List (BackoffInput τ ε)}
    (hphase : c.phase = .panicked)
    (hrun : run (BackoffCall.step platform opts) c inputs = some c') : c'.phase = .panicked := by
  cases inputs with
  | nil =>
    cases hrun
    exact hphase
  | cons input inputs =>
    obtain ⟨next, hstep, -⟩ := run_cons.1 hrun
    cases BackoffCall.step_cases hstep <;> simp_all only [reduceCtorEq]

/-- `rand.Intn(0)` is called if the first try fails and is not the only one. -/
theorem run_failed_panics (hzero : opts.maxRandMs = 0) (hmore : 1 < opts.maxRetries)
    {inputs : List (BackoffInput τ ε)} {c : BackoffCall τ ε} {rand : Nat}
    (hfirst : inputs.head? = some (.failed rand))
    (hrun : run (BackoffCall.step platform opts) (BackoffCall.start opts) inputs = some c) :
    c.phase = .panicked := by
  cases inputs with
  | nil => cases hfirst
  | cons input inputs =>
    cases hfirst
    obtain ⟨next, hstep, hrest⟩ := run_cons.1 hrun
    have hstart : (BackoffCall.start opts : BackoffCall τ ε) = ⟨.calling 0 none, [0], []⟩ :=
      if_neg (by omega)
    simp only [hstart, BackoffCall.step, BackoffCall.retry_panic hmore hzero,
      Option.some.injEq] at hstep
    exact run_panicked (hstep ▸ rfl) hrest

/-- A call fares as promised if and only if `rand.Intn` is given a positive number or is not
    called at all: there is one try at most, or the first does not fail. -/
theorem tries_asPromised_iff {inputs : List (BackoffInput τ ε)} {c : BackoffCall τ ε}
    (hrun : run (BackoffCall.step platform opts) (BackoffCall.start opts) inputs = some c) :
    AsPromised platform opts inputs c ↔
      0 < opts.maxRandMs ∨ opts.maxRetries ≤ 1 ∨ ∀ rand, inputs.head? ≠ some (.failed rand) := by
  constructor
  · intro h
    rcases Nat.eq_zero_or_pos opts.maxRandMs with hzero | hpos
    · rcases Nat.lt_or_ge 1 opts.maxRetries with hmore | hone
      · exact .inr (.inr fun rand hfirst =>
          h.neverPanics (run_failed_panics hzero hmore hfirst hrun))
      · exact .inr (.inl hone)
    · exact .inl hpos
  · intro h
    have hinv := backoffInv_run hrun
    refine hinv.asPromised fun hphase => ?_
    have hpanicked := hinv.position
    rw [hphase] at hpanicked
    obtain ⟨hzero, hmore, rand, rfl⟩ := hpanicked
    rcases h with hpos | hone | hfirst
    · omega
    · omega
    · exact hfirst rand rfl

theorem tries_asPromised_secondTry :
    AsPromised (fun _ => 0) (newBackoffOpts ⟨⟨none, none⟩, none⟩)
      [BackoffInput.failed (τ := Nat) (ε := Unit) 7, .timer, .succeeded 5]
      ⟨.returned 5 none, [0, 1], [⟨1, 7, 507000000⟩]⟩ :=
  (tries_asPromised_iff (by decide)).2 (.inl (by decide))

/-- A source with no random delay and the other options left out panics on a first failure. -/
theorem not_asPromised :
    run (BackoffCall.step (fun _ => 0) (newBackoffOpts ⟨⟨some 0, none⟩, none⟩))
      (BackoffCall.start (newBackoffOpts ⟨⟨some 0, none⟩, none⟩))
      [BackoffInput.failed (τ := Nat) (ε := Unit) 0] = some ⟨.panicked, [0], []⟩ ∧
    ¬ AsPromised (fun _ => 0) (newBackoffOpts ⟨⟨some 0, none⟩, none⟩)
      [BackoffInput.failed (τ := Nat) (ε := Unit) 0] ⟨.panicked, [0], []⟩ :=
  ⟨by decide, fun h => h.neverPanics rfl⟩

/-! ### The Flow source's model of a call -/

/-- A position without the timer and what is returned with an error. -/
def erasePhase : BackoffPhase τ ε → BackoffStep τ
  | .calling retryCount _ => .next (.calling retryCount)
  | .waiting retryCount _ => .next (.waiting retryCount)
  | .returned value none => .result value
  | .returned _ (some _) => .error
  | .panicked => .panicked

def eraseInput : BackoffInput τ ε → BackoffEvent τ
  | .succeeded result => .returned (some result)
  | .failed _ => .returned none
  | .timer => .timer
  | .ctxDone _ => .ctxDone

theorem erasePhase_retry (c : BackoffCall τ ε) (retryCount : Nat) (timer : Option Timer)
    (rand : Nat) :
    ExponentialBackoff.step opts.toReconnectOpts (.calling retryCount) (.returned none) =
      some (erasePhase (BackoffCall.retry platform opts c retryCount timer rand).phase) := by
  rcases Nat.lt_or_ge (retryCount + 1) opts.maxRetries with hmore | hlast
  · rcases Nat.eq_zero_or_pos opts.maxRandMs with hzero | hpos
    · rw [BackoffCall.retry_panic hmore hzero]
      simp only [ExponentialBackoff.step, if_neg (Nat.not_le.2 hmore), if_pos hzero, erasePhase]
    · cases timer with
      | none =>
        rw [BackoffCall.retry_first hmore hpos]
        simp only [ExponentialBackoff.step, if_neg (Nat.not_le.2 hmore),
          if_neg (Nat.pos_iff_ne_zero.1 hpos), erasePhase]
      | some timer =>
        rw [BackoffCall.retry_next hmore hpos]
        simp only [ExponentialBackoff.step, if_neg (Nat.not_le.2 hmore),
          if_neg (Nat.pos_iff_ne_zero.1 hpos), erasePhase]
  · rw [BackoffCall.retry_last hlast]
    exact if_pos hlast

/-- Along every run the Flow source's model takes the same steps. -/
theorem step_erase {inputs : List (BackoffInput τ ε)} {c : BackoffCall τ ε}
    (hrun : run (BackoffCall.step platform opts) (BackoffCall.start opts) inputs = some c)
    {b : Backoff} (hb : erasePhase c.phase = .next b) (input : BackoffInput τ ε) :
    ExponentialBackoff.step opts.toReconnectOpts b (eraseInput input) =
      (BackoffCall.step platform opts c input).map fun c' => erasePhase c'.phase := by
  have hposition := (backoffInv_run hrun).position
  cases hphase : c.phase with
  | calling retryCount timer =>
    rw [hphase] at hb
    cases hb
    cases input with
    | succeeded result => simp only [BackoffCall.step, hphase]; rfl
    | failed rand =>
      simp only [BackoffCall.step, hphase]
      exact erasePhase_retry c retryCount timer rand
    | timer => simp only [BackoffCall.step, hphase]; rfl
    | ctxDone e => simp only [BackoffCall.step, hphase]; rfl
  | waiting retryCount timer =>
    rw [hphase] at hb hposition
    cases hb
    have hok : timer.ok = true := hposition.2.2.2.2.1
    cases input with
    | succeeded result => simp only [BackoffCall.step, hphase]; rfl
    | failed rand => simp only [BackoffCall.step, hphase]; rfl
    | timer =>
      simp only [BackoffCall.step, hphase, hok, Bool.not_true, Bool.false_eq_true, if_false]
      rfl
    | ctxDone e => simp only [BackoffCall.step, hphase]; rfl
  | returned value err =>
    rw [hphase] at hb
    cases err <;> cases hb
  | panicked =>
    rw [hphase] at hb
    cases hb

end BackoffCalls

end BlockFeed.Spec
