import BlockFeed.Spec.BackoffCalls

/-!
# How long ExponentialBackoff waits

The wait before try `k` is `initWaitMs ^ k` milliseconds and some jitter. As long as its
nanoseconds fit in an `int64` it is computed exactly, so the waits are positive and, apart from
jitter, do not decrease (`waits_neverCollapse`). A wait that does not fit is wrapped; after an odd
number of half turns it is negative, and the timer fires at once.

With the default delays that is the case from the sixth try on (`defaultDelays_neverCollapse_iff`).
-/

namespace BlockFeed.Spec

open BlockFeed.Native Transition

section BackoffWaits

variable {τ ε : Type} {platform : Double.Value → Int64} {opts : BackoffOpts}

/-- The nanoseconds of a wait without its jitter. -/
def withoutJitter (w : BackoffWait) : Int := w.duration.toInt - w.jitter * 1000000

/-- The waits are positive, and apart from jitter they do not decrease. -/
structure NeverCollapse (opts : BackoffOpts) (waits : List BackoffWait) : Prop where
  positive : ∀ w ∈ waits, 0 < w.duration.toInt
  jitter_lt : ∀ w ∈ waits, w.jitter < opts.maxRandMs
  nondecreasing : waits.Pairwise fun w w' => withoutJitter w ≤ withoutJitter w'

/-- The milliseconds of a wait, as a number. -/
def waitMs (opts : BackoffOpts) (w : BackoffWait) : Nat :=
  opts.initWaitMs ^ w.retryCount + w.jitter

/-- How often its nanoseconds pass a multiple of `2 ^ 63`. -/
def halfTurns (opts : BackoffOpts) (w : BackoffWait) : Nat := waitMs opts w * 1000000 / 2 ^ 63

/-- The waits are wrapped by whole turns of an `int64` only, and from one to a later one by no more
    than the power grows. -/
structure WholeTurns (opts : BackoffOpts) (waits : List BackoffWait) : Prop where
  even : ∀ w ∈ waits, halfTurns opts w % 2 = 0
  growth : waits.Pairwise fun w w' =>
    opts.initWaitMs ^ w.retryCount * 1000000 + halfTurns opts w' * 2 ^ 63 ≤
      opts.initWaitMs ^ w'.retryCount * 1000000 + halfTurns opts w * 2 ^ 63

/-- How the duration of a wait is computed. -/
def Computed (platform : Double.Value → Int64) (opts : BackoffOpts) (w : BackoffWait) : Prop :=
  (w.retryCount = 1 ∧ w.duration = BackoffCall.firstWait opts w.jitter) ∨
    w.duration = BackoffCall.nextWait platform opts w.retryCount w.jitter

/-- The position after `n` waits. -/
def WaitedFor (n : Nat) : BackoffPhase τ ε → Prop
  | .calling retryCount none => retryCount = 0 ∧ n = 0
  | .calling retryCount (some _) => n = retryCount
  | .waiting retryCount _ => n = retryCount
  | _ => True

/-- The waits so far, one before each further try. -/
structure WaitsInv (platform : Double.Value → Int64) (opts : BackoffOpts) (c : BackoffCall τ ε) :
    Prop where
  retryCounts : c.waits.map (·.retryCount) = List.range' 1 c.waits.length
  retryCount_lt : ∀ w ∈ c.waits, w.retryCount < opts.maxRetries
  jitter_lt : ∀ w ∈ c.waits, w.jitter < opts.maxRandMs
  computed : ∀ w ∈ c.waits, Computed platform opts w
  waitedFor : WaitedFor c.waits.length c.phase

/-! ### The durations as numbers -/

theorem toInt_ofNat_neg_iff {n : Nat} : (Int64.ofNat n).toInt < 0 ↔ n / 2 ^ 63 % 2 = 1 := by
  have hsize : Int64.size = 2 ^ 64 := rfl
  rw [Int64.toInt_ofNat', hsize, Int.bmod_def]
  split <;> omega

theorem toInt_ofNat_of_even {n : Nat} (h : n / 2 ^ 63 % 2 = 0) :
    (Int64.ofNat n).toInt = n - (n / 2 ^ 63 * 2 ^ 63 : Nat) := by
  have hsize : Int64.size = 2 ^ 64 := rfl
  rw [Int64.toInt_ofNat', hsize, Int.bmod_def]
  split <;> omega

/-- Fewer than `2 ^ 53` milliseconds are no multiple of a half turn. -/
theorem nanoseconds_mod_pos {ms : Nat} (hpos : 0 < ms) (hlt : ms < 2 ^ 53) :
    0 < ms * 1000000 % 2 ^ 63 := by
  refine Nat.pos_of_ne_zero fun hzero => ?_
  -- 1000000 has no more than six factors 2
  have hdvd : 2 ^ 57 * 2 ^ 6 ∣ ms * 15625 * 2 ^ 6 := by
    rw [Nat.mul_assoc, show 15625 * 2 ^ 6 = 1000000 by decide, ← Nat.pow_add]
    exact Nat.dvd_of_mod_eq_zero hzero
  have hcoprime : Nat.Coprime (2 ^ 57) 15625 := Nat.Coprime.pow_left 57 (by decide)
  have hms : 2 ^ 57 ∣ ms :=
    hcoprime.dvd_of_dvd_mul_right (Nat.dvd_of_mul_dvd_mul_right (by decide) hdvd)
  exact absurd (Nat.le_of_dvd hpos hms) (Nat.not_le.2 (Nat.lt_trans hlt (by decide)))

theorem toInt_ofNat_pos {n : Nat} (heven : n / 2 ^ 63 % 2 = 0) (hrest : 0 < n % 2 ^ 63) :
    0 < (Int64.ofNat n).toInt := by
  rw [toInt_ofNat_of_even heven]
  omega

theorem milliseconds_ofNat (n : Nat) :
    milliseconds (Int64.ofNat n) = Int64.ofNat (n * 1000000) := by
  rw [Int64.ofNat_mul]
  rfl

/-- Milliseconds that `float64` holds exactly are computed exactly, and multiplied as `int64`. -/
theorem nextWait_eq (ha : 2 ≤ opts.initWaitMs) {retryCount jitter : Nat} (hk : 0 < retryCount)
    (h : opts.initWaitMs ^ retryCount + jitter < 2 ^ 53) :
    BackoffCall.nextWait platform opts retryCount jitter =
      Int64.ofNat ((opts.initWaitMs ^ retryCount + jitter) * 1000000) := by
  have hbase : opts.initWaitMs ≤ opts.initWaitMs ^ retryCount :=
    Nat.le_self_pow (by omega) opts.initWaitMs
  have hcount : retryCount < opts.initWaitMs ^ retryCount := Nat.lt_pow_self (by omega)
  have hpow : Double.pow opts.initWaitMs retryCount = .nat (opts.initWaitMs ^ retryCount) :=
    Double.pow_of_lt (by omega) (by omega)
  have hsum := Double.nearest_of_lt h
  simp only [BackoffCall.nextWait, Double.round_eq_self (show opts.initWaitMs < 2 ^ 53 by omega),
    Double.round_eq_self (show retryCount < 2 ^ 53 by omega), hpow,
    Double.nearest_of_lt (show jitter < 2 ^ 53 by omega), Double.add, hsum, truncate]
  rw [if_pos (by omega), milliseconds_ofNat]

theorem Computed.duration_eq {w : BackoffWait} (hw : Computed platform opts w)
    (ha : 2 ≤ opts.initWaitMs) (hk : 0 < w.retryCount) (h : waitMs opts w < 2 ^ 53) :
    w.duration = Int64.ofNat (waitMs opts w * 1000000) := by
  rcases hw with ⟨hone, hfirst⟩ | hnext
  · rw [hfirst, BackoffCall.firstWait, ← Int64.ofNat_add, milliseconds_ofNat, waitMs, hone,
      Nat.pow_one]
  · rw [hnext, nextWait_eq ha hk h, waitMs]

theorem WaitsInv.retryCount_pos {c : BackoffCall τ ε} (h : WaitsInv platform opts c)
    {w : BackoffWait} (hw : w ∈ c.waits) : 0 < w.retryCount := by
  have hmem : w.retryCount ∈ List.range' 1 c.waits.length :=
    h.retryCounts ▸ List.mem_map_of_mem hw
  exact (List.mem_range'_1.1 hmem).1

namespace WaitsInv

variable {c : BackoffCall τ ε}

theorem duration_eq (h : WaitsInv platform opts c) (ha : 2 ≤ opts.initWaitMs) {w : BackoffWait}
    (hw : w ∈ c.waits) (hlt : waitMs opts w < 2 ^ 53) :
    w.duration = Int64.ofNat (waitMs opts w * 1000000) :=
  (h.computed w hw).duration_eq ha (h.retryCount_pos hw) hlt

/-- A wait that is positive is wrapped by whole turns. -/
theorem even_of_pos (h : WaitsInv platform opts c) (ha : 2 ≤ opts.initWaitMs) {w : BackoffWait}
    (hw : w ∈ c.waits) (hlt : waitMs opts w < 2 ^ 53) (hpos : 0 < w.duration.toInt) :
    halfTurns opts w % 2 = 0 := by
  rcases Nat.mod_two_eq_zero_or_one (halfTurns opts w) with heven | hodd
  · exact heven
  · have hneg := toInt_ofNat_neg_iff.2 hodd
    rw [← h.duration_eq ha hw hlt] at hneg
    omega

theorem toInt_duration (h : WaitsInv platform opts c) (ha : 2 ≤ opts.initWaitMs)
    {w : BackoffWait} (hw : w ∈ c.waits) (hlt : waitMs opts w < 2 ^ 53)
    (heven : halfTurns opts w % 2 = 0) :
    w.duration.toInt = (waitMs opts w * 1000000 : Nat) - (halfTurns opts w * 2 ^ 63 : Nat) := by
  rw [h.duration_eq ha hw hlt, toInt_ofNat_of_even heven]
  rfl

/-- Without its jitter, a wait is the power but for the turns. -/
theorem withoutJitter_eq (h : WaitsInv platform opts c) (ha : 2 ≤ opts.initWaitMs)
    {w : BackoffWait} (hw : w ∈ c.waits) (hlt : waitMs opts w < 2 ^ 53)
    (heven : halfTurns opts w % 2 = 0) :
    withoutJitter w =
      (opts.initWaitMs ^ w.retryCount * 1000000 : Nat) - (halfTurns opts w * 2 ^ 63 : Nat) := by
  rw [withoutJitter, h.toInt_duration ha hw hlt heven, waitMs, Nat.add_mul]
  omega

theorem pairwise_retryCount (h : WaitsInv platform opts c) :
    c.waits.Pairwise fun w w' => w.retryCount < w'.retryCount := by
  have hsorted := List.pairwise_lt_range' (s := 1) (n := c.waits.length)
  rw [← h.retryCounts] at hsorted
  exact List.pairwise_map.1 hsorted

/-- What decides whether a wait that `float64` holds is positive and no less than those before. -/
theorem neverCollapse_iff (h : WaitsInv platform opts c) (ha : 2 ≤ opts.initWaitMs)
    (hlt : ∀ w ∈ c.waits, waitMs opts w < 2 ^ 53) :
    NeverCollapse opts c.waits ↔ WholeTurns opts c.waits := by
  have horder (heven : ∀ w ∈ c.waits, halfTurns opts w % 2 = 0) {w w' : BackoffWait}
      (hw : w ∈ c.waits) (hw' : w' ∈ c.waits) :
      withoutJitter w ≤ withoutJitter w' ↔
        opts.initWaitMs ^ w.retryCount * 1000000 + halfTurns opts w' * 2 ^ 63 ≤
          opts.initWaitMs ^ w'.retryCount * 1000000 + halfTurns opts w * 2 ^ 63 := by
    rw [h.withoutJitter_eq ha hw (hlt w hw) (heven w hw),
      h.withoutJitter_eq ha hw' (hlt w' hw') (heven w' hw')]
    omega
  constructor
  · intro hgood
    have heven : ∀ w ∈ c.waits, halfTurns opts w % 2 = 0 := fun w hw =>
      h.even_of_pos ha hw (hlt w hw) (hgood.positive w hw)
    exact ⟨heven, hgood.nondecreasing.imp_of_mem fun hw hw' => (horder heven hw hw').1⟩
  · intro hturns
    refine ⟨fun w hw => ?_, h.jitter_lt,
      hturns.growth.imp_of_mem fun hw hw' => (horder hturns.even hw hw').2⟩
    have hpow : 0 < opts.initWaitMs ^ w.retryCount := Nat.pow_pos (by omega)
    rw [h.duration_eq ha hw (hlt w hw)]
    exact toInt_ofNat_pos (hturns.even w hw)
      (nanoseconds_mod_pos (Nat.add_pos_left hpow w.jitter) (hlt w hw))

theorem wholeTurns_of_fits (h : WaitsInv platform opts c) (ha : 2 ≤ opts.initWaitMs)
    (hfits : ∀ w ∈ c.waits, waitMs opts w * 1000000 < 2 ^ 63) : WholeTurns opts c.waits := by
  have hzero : ∀ w ∈ c.waits, halfTurns opts w = 0 := fun w hw => Nat.div_eq_of_lt (hfits w hw)
  refine ⟨fun w hw => by rw [hzero w hw], h.pairwise_retryCount.imp_of_mem ?_⟩
  intro w w' hw hw' hless
  rw [hzero w hw, hzero w' hw', Nat.zero_mul, Nat.add_zero, Nat.add_zero]
  exact Nat.mul_le_mul_right 1000000
    (Nat.pow_le_pow_right (show 0 < opts.initWaitMs by omega) (Nat.le_of_lt hless))

theorem neverCollapse (h : WaitsInv platform opts c) (ha : 2 ≤ opts.initWaitMs)
    (hfits : ∀ w ∈ c.waits, waitMs opts w * 1000000 < 2 ^ 63) : NeverCollapse opts c.waits := by
  refine (h.neverCollapse_iff ha fun w hw => ?_).2 (h.wholeTurns_of_fits ha hfits)
  have hfit := hfits w hw
  omega

end WaitsInv

/-! ### The waits of a run -/

section Runs

variable [Inhabited τ]

namespace WaitsInv

variable {c : BackoffCall τ ε} {retryCount : Nat}

theorem start (opts : BackoffOpts) :
    WaitsInv platform opts (BackoffCall.start opts : BackoffCall τ ε) := by
  unfold BackoffCall.start
  split
  · exact ⟨rfl, fun _ => nofun, fun _ => nofun, fun _ => nofun, trivial⟩
  · exact ⟨rfl, fun _ => nofun, fun _ => nofun, fun _ => nofun, rfl, rfl⟩

omit [Inhabited τ] in
/-- A move that sets no timer. -/
theorem move (h : WaitsInv platform opts c) {phase : BackoffPhase τ ε}
    (hphase : WaitedFor c.waits.length phase) (calls : List Nat) :
    WaitsInv platform opts { c with phase := phase, calls := calls } :=
  ⟨h.retryCounts, h.retryCount_lt, h.jitter_lt, h.computed, hphase⟩

omit [Inhabited τ] in
/-- The timer is set once more. -/
theorem wait (h : WaitsInv platform opts c) (hn : c.waits.length = retryCount) {w : BackoffWait}
    (hcount : w.retryCount = retryCount + 1) (hlt : retryCount + 1 < opts.maxRetries)
    (hjitter : w.jitter < opts.maxRandMs) (hw : Computed platform opts w) (timer : Timer) :
    WaitsInv platform opts
      ({ c with phase := .waiting (retryCount + 1) timer, waits := c.waits ++ [w] } :
        BackoffCall τ ε) where
  retryCounts := by
    rw [List.map_append, h.retryCounts, List.length_append, List.length_singleton,
      List.range'_concat, List.map_singleton, hcount, hn, Nat.one_mul, Nat.add_comm]
  retryCount_lt := List.forall_mem_append.2
    ⟨h.retryCount_lt, List.forall_mem_singleton.2 (hcount ▸ hlt)⟩
  jitter_lt := List.forall_mem_append.2 ⟨h.jitter_lt, List.forall_mem_singleton.2 hjitter⟩
  computed := List.forall_mem_append.2 ⟨h.computed, List.forall_mem_singleton.2 hw⟩
  waitedFor := by
    show (c.waits ++ [w]).length = retryCount + 1
    rw [List.length_append, List.length_singleton, hn]

theorem failed {timer : Option Timer} (h : WaitsInv platform opts c)
    (hphase : c.phase = .calling retryCount timer) (rand : Nat) :
    WaitsInv platform opts (BackoffCall.retry platform opts c retryCount timer rand) := by
  have hwaited := h.waitedFor
  rw [hphase] at hwaited
  rcases Nat.lt_or_ge (retryCount + 1) opts.maxRetries with hmore | hlast
  · rcases Nat.eq_zero_or_pos opts.maxRandMs with hzero | hpos
    · rw [BackoffCall.retry_panic hmore hzero]
      exact h.move (by trivial) c.calls
    · have hjitter := Nat.mod_lt rand hpos
      cases timer with
      | none =>
        obtain ⟨rfl, hn⟩ := hwaited
        rw [BackoffCall.retry_first hmore hpos]
        exact h.wait hn rfl hmore hjitter (.inl ⟨rfl, rfl⟩) _
      | some timer =>
        rw [BackoffCall.retry_next hmore hpos]
        exact h.wait hwaited rfl hmore hjitter (.inr rfl) _
  · rw [BackoffCall.retry_last hlast]
    exact h.move (by trivial) c.calls

theorem step {input : BackoffInput τ ε} {c' : BackoffCall τ ε}
    (hstep : BackoffCall.step platform opts c input = some c') (h : WaitsInv platform opts c) :
    WaitsInv platform opts c' := by
  cases BackoffCall.step_cases hstep with
  | succeeded result hphase => exact h.move (by trivial) c.calls
  | failed rand hphase => exact h.failed hphase rand
  | timer hphase =>
    have hwaited := h.waitedFor
    rw [hphase] at hwaited
    exact h.move (by exact hwaited) _
  | closed hphase => exact h.move (by trivial) c.calls
  | ctxDone e hphase => exact h.move (by trivial) c.calls

end WaitsInv

theorem waitsInv_run {inputs : List (BackoffInput τ ε)} {c : BackoffCall τ ε}
    (hrun : run (BackoffCall.step platform opts) (BackoffCall.start opts) inputs = some c) :
    WaitsInv platform opts c :=
  run_invariant (fun _ _ _ hstep h => h.step hstep) hrun (.start opts)

/-- The waits of a run never collapse if they all fit in an `int64`. If they do not, but `float64`
    still holds their milliseconds, it depends on how often each of them wraps. -/
theorem waits_neverCollapse (ha : 2 ≤ opts.initWaitMs) {inputs : List (BackoffInput τ ε)}
    {c : BackoffCall τ ε}
    (hrun : run (BackoffCall.step platform opts) (BackoffCall.start opts) inputs = some c) :
    ((∀ w ∈ c.waits, waitMs opts w * 1000000 < 2 ^ 63) → NeverCollapse opts c.waits) ∧
      ((∀ w ∈ c.waits, waitMs opts w < 2 ^ 53) →
        (NeverCollapse opts c.waits ↔ WholeTurns opts c.waits)) :=
  have hinv := waitsInv_run hrun
  ⟨hinv.neverCollapse ha, hinv.neverCollapse_iff ha⟩

theorem waits_neverCollapse_threeTries :
    NeverCollapse (newBackoffOpts ⟨⟨none, none⟩, none⟩)
      [⟨1, 7, 507000000⟩, ⟨2, 3, 250003000000⟩] := by
  have hrun : run (BackoffCall.step (fun _ => 0) (newBackoffOpts ⟨⟨none, none⟩, none⟩))
      (BackoffCall.start (newBackoffOpts ⟨⟨none, none⟩, none⟩))
      [BackoffInput.failed (τ := Unit) (ε := Unit) 7, .timer, .failed 3, .timer, .failed 0] =
        some ⟨.returned () (some (.new "retry limit exceeded")), [0, 1, 2],
          [⟨1, 7, 507000000⟩, ⟨2, 3, 250003000000⟩]⟩ := by decide
  exact (waits_neverCollapse (by decide) hrun).1 (by decide)

/-- With the default delays and six tries, the last wait is negative. -/
theorem waits_collapse :
    (run (BackoffCall.step (fun _ => 0) (newBackoffOpts ⟨⟨none, some 6⟩, none⟩))
      (BackoffCall.start (newBackoffOpts ⟨⟨none, some 6⟩, none⟩))
      [BackoffInput.failed (τ := Unit) (ε := Unit) 0, .timer, .failed 0, .timer, .failed 0,
        .timer, .failed 0, .timer, .failed 0]).map (·.waits) =
      some [⟨1, 0, 500000000⟩, ⟨2, 0, 250000000000⟩, ⟨3, 0, 125000000000000⟩,
        ⟨4, 0, 62500000000000000⟩, ⟨5, 0, -5643488147419103232⟩] ∧
    ¬ NeverCollapse (newBackoffOpts ⟨⟨none, some 6⟩, none⟩)
      [⟨1, 0, 500000000⟩, ⟨2, 0, 250000000000⟩, ⟨3, 0, 125000000000000⟩,
        ⟨4, 0, 62500000000000000⟩, ⟨5, 0, -5643488147419103232⟩] :=
  ⟨by decide, fun h => absurd (h.positive ⟨5, 0, -5643488147419103232⟩ (by decide)) (by decide)⟩

/-! ### The options alone -/

/-- If the longest wait that the options allow fits, all waits do. -/
theorem neverCollapse_of_opts (ha : 2 ≤ opts.initWaitMs)
    (hfits : (opts.initWaitMs ^ (opts.maxRetries - 1) + opts.maxRandMs) * 1000000 ≤ 2 ^ 63)
    {inputs : List (BackoffInput τ ε)} {c : BackoffCall τ ε}
    (hrun : run (BackoffCall.step platform opts) (BackoffCall.start opts) inputs = some c) :
    NeverCollapse opts c.waits := by
  have hinv := waitsInv_run hrun
  refine hinv.neverCollapse ha fun w hw => ?_
  have hcount := hinv.retryCount_lt w hw
  have hjitter := hinv.jitter_lt w hw
  have hpow : opts.initWaitMs ^ w.retryCount ≤ opts.initWaitMs ^ (opts.maxRetries - 1) :=
    Nat.pow_le_pow_right (by omega) (by omega)
  rw [waitMs]
  omega

/-- A failure that is not the last one leads to a wait; here the generator yields no jitter. -/
theorem retry_waiting (platform : Double.Value → Int64) (hpos : 0 < opts.maxRandMs)
    {retryCount : Nat} (h : retryCount + 1 < opts.maxRetries) (c : BackoffCall τ ε)
    (timer : Option Timer) :
    ∃ timer', (BackoffCall.retry platform opts c retryCount timer 0).phase =
        .waiting (retryCount + 1) timer' ∧
      ∃ w ∈ (BackoffCall.retry platform opts c retryCount timer 0).waits,
        w.retryCount = retryCount + 1 ∧ w.jitter = 0 := by
  cases timer with
  | none =>
    rw [BackoffCall.retry_first h hpos]
    exact ⟨_, rfl, _, List.mem_append_right _ (List.mem_singleton.2 rfl), rfl, Nat.zero_mod _⟩
  | some timer =>
    rw [BackoffCall.retry_next h hpos]
    exact ⟨_, rfl, _, List.mem_append_right _ (List.mem_singleton.2 rfl), rfl, Nat.zero_mod _⟩

/-- While all tries fail, the wait before each try is reached. -/
theorem exists_run_waiting (platform : Double.Value → Int64) (hpos : 0 < opts.maxRandMs) {n : Nat}
    (h : n + 1 < opts.maxRetries) :
    ∃ (inputs : List (BackoffInput τ ε)) (c : BackoffCall τ ε) (timer : Timer),
      run (BackoffCall.step platform opts) (BackoffCall.start opts) inputs = some c ∧
        NoSuccess inputs ∧ c.phase = .waiting (n + 1) timer ∧
        ∃ w ∈ c.waits, w.retryCount = n + 1 ∧ w.jitter = 0 := by
  induction n with
  | zero =>
    have hstart : (BackoffCall.start opts : BackoffCall τ ε) = ⟨.calling 0 none, [0], []⟩ :=
      if_neg (by omega)
    obtain ⟨timer', hphase', hw⟩ :=
      retry_waiting platform hpos h (BackoffCall.start opts : BackoffCall τ ε) none
    refine ⟨[.failed 0], _, timer', run_cons.2 ⟨_, ?_, rfl⟩, ?_, hphase', hw⟩
    · simp only [BackoffCall.step, hstart]
    · exact noSuccess_failed (fun _ => List.not_mem_nil) 0
  | succ n ih =>
    obtain ⟨inputs, c, timer, hrun, hnone, hphase, -⟩ := ih (by omega)
    have hposition := (backoffInv_run hrun).position
    rw [hphase] at hposition
    have hok : timer.ok = true := hposition.2.2.2.2.1
    -- the next try, and its failure
    let called : BackoffCall τ ε :=
      { c with phase := .calling (n + 1) (some timer), calls := c.calls ++ [n + 1] }
    have hcalled : BackoffCall.step platform opts c .timer = some called := by
      simp only [BackoffCall.step, hphase, hok, Bool.not_true, Bool.false_eq_true, if_false]
      rfl
    obtain ⟨timer', hphase', hw⟩ := retry_waiting platform hpos h called (some timer)
    refine ⟨inputs ++ [.timer] ++ [.failed 0], _, timer',
      run_concat.2 ⟨called, run_concat.2 ⟨c, hrun, hcalled⟩, rfl⟩, ?_, hphase', hw⟩
    exact noSuccess_failed (noSuccess_timer hnone) 0

/-- With the default delays of 500 ms no wait collapses in any run if and only if there are at
    most five tries: 500 ^ 5 milliseconds leave the range of an `int64`. -/
theorem defaultDelays_neverCollapse_iff (maxRetries : Nat) :
    (∀ (inputs : List (BackoffInput τ ε)) (c : BackoffCall τ ε),
      run (BackoffCall.step platform ⟨⟨500, maxRetries⟩, 500⟩)
          (BackoffCall.start ⟨⟨500, maxRetries⟩, 500⟩) inputs = some c →
        NeverCollapse ⟨⟨500, maxRetries⟩, 500⟩ c.waits) ↔ maxRetries ≤ 5 := by
  constructor
  · intro h
    by_contra hmore
    have hfive : 4 + 1 < (⟨⟨500, maxRetries⟩, 500⟩ : BackoffOpts).maxRetries := by
      show 5 < maxRetries
      omega
    obtain ⟨inputs, c, -, hrun, -, -, w, hw, hcount, hjitter⟩ :=
      exists_run_waiting (τ := τ) (ε := ε) platform (show 0 < 500 by decide) hfive
    have hwait : waitMs ⟨⟨500, maxRetries⟩, 500⟩ w = 31250000000000 := by
      rw [waitMs, hcount, hjitter, Nat.add_zero]
      show 500 ^ 5 = 31250000000000
      decide
    have heven := (waitsInv_run hrun).even_of_pos (show 2 ≤ 500 by decide) hw
      (hwait ▸ by decide) ((h inputs c hrun).positive w hw)
    rw [halfTurns, hwait] at heven
    exact absurd heven (by decide)
  · intro hfive inputs c hrun
    refine neverCollapse_of_opts (show 2 ≤ 500 by decide) ?_ hrun
    have hpow : 500 ^ (maxRetries - 1) ≤ 500 ^ 4 := Nat.pow_le_pow_right (by decide) (by omega)
    show (500 ^ (maxRetries - 1) + 500) * 1000000 ≤ 2 ^ 63
    omega

end Runs

end BackoffWaits

end BlockFeed.Spec
