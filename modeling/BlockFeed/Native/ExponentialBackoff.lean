import BlockFeed.ForStd.Double
import BlockFeed.Native.FlowSource

/-!
# ExponentialBackoff with its timer

`common.ExponentialBackoff` in full, where the Flow source's model has only what its calls come to.
A `BackoffPhase` is where the call is; `BackoffInput` is what it sees there: the outcome of the
callback, or which case of the `select` is taken. `BackoffCall` adds what it has done so far: the
calls of the callback, and what its timer was set to.

Milliseconds are computed as `int` for the first wait and as `float64` for the others. A
`time.Duration` is an `int64` of nanoseconds.
-/

namespace BlockFeed.Native

/-! ## The options -/

/-- The numbers that `ExponentialBackoff` is called with. `NewFlowBlockSource` admits no negative
    ones. -/
structure BackoffOpts extends ReconnectOpts where
  initWaitMs : Nat

/-- `flowsrc.FlowBlockSourceOpts`. -/
structure FlowDelayOpts extends FlowBlockSourceOpts where
  reconnectInitDelayMs : Option Int

/-- The options that `NewFlowBlockSource` keeps for its calls. -/
def newBackoffOpts (opts : FlowDelayOpts) : BackoffOpts where
  toReconnectOpts := newFlowBlockSourceOpts opts.toFlowBlockSourceOpts
  initWaitMs := reconnectOption opts.reconnectInitDelayMs 500

/-! ## Timers and random numbers -/

/-- `time.Timer`: what it was last set to, and whether its channel is closed. -/
structure Timer where
  duration : Int64
  closed : Bool
deriving DecidableEq

namespace Timer

/-- `time.NewTimer`. -/
def new (d : Int64) : Timer := ⟨d, false⟩

/-- `timer.Reset`. It does not touch the channel, nor does `timer.Stop`. -/
def reset (timer : Timer) (d : Int64) : Timer := { timer with duration := d }

/-- The second value of a receive from `timer.C`. -/
def ok (timer : Timer) : Bool := !timer.closed

@[simp] theorem ok_new (d : Int64) : (new d).ok = true := rfl

@[simp] theorem ok_reset (timer : Timer) (d : Int64) : (timer.reset d).ok = timer.ok := rfl

end Timer

/-- `rand.Intn(n)` on what the generator yields. It panics if `n <= 0`. -/
def intn (n rand : Nat) : Option Nat :=
  if n = 0 then none else some (rand % n)

/-- `time.Duration(ms) * time.Millisecond`. -/
def milliseconds (ms : Int64) : Int64 := ms * 1000000

/-- A `float64` as an `int64`. If it does not fit, the result depends on the platform. -/
def truncate (platform : Double.Value → Int64) : Double.Value → Int64
  | .nat n => if n < 2 ^ 63 then Int64.ofNat n else platform (.nat n)
  | .inf => platform .inf

/-! ## ExponentialBackoff -/

/-- The errors it returns: its own, by its text, or the one of its context. -/
inductive BackoffError (ε : Type) where
  | new (text : String)
  | ctx (err : ε)
deriving DecidableEq

/-- Where a call is. -/
inductive BackoffPhase (τ ε : Type) where
  /-- in the callback; the first time there is no timer -/
  | calling (retryCount : Nat) (timer : Option Timer)
  /-- in the `select` -/
  | waiting (retryCount : Nat) (timer : Timer)
  | returned (value : τ) (err : Option (BackoffError ε))
  | panicked
deriving DecidableEq

/-- What it sees there. -/
inductive BackoffInput (τ ε : Type) where
  /-- the callback returns `result, nil` -/
  | succeeded (result : τ)
  /-- the callback returns an error; `rand` is what the generator yields next -/
  | failed (rand : Nat)
  /-- `<-timer.C` is selected -/
  | timer
  /-- `<-ctx.Done()` is selected -/
  | ctxDone (err : ε)
deriving DecidableEq

/-- One setting of the timer, `jitter` being the random part of its milliseconds. -/
structure BackoffWait where
  retryCount : Nat
  jitter : Nat
  duration : Int64
deriving DecidableEq

/-- A call with what it has done. -/
structure BackoffCall (τ ε : Type) where
  phase : BackoffPhase τ ε
  /-- the `retryCount` of each call of the callback -/
  calls : List Nat
  waits : List BackoffWait
deriving DecidableEq

namespace BackoffCall

variable {τ ε : Type} [Inhabited τ] (platform : Double.Value → Int64) (opts : BackoffOpts)

/-- `errors.New("retry limit exceeded")`. -/
def retryLimitExceeded : BackoffError ε := .new "retry limit exceeded"

/-- The call up to the first call of the callback. -/
def start : BackoffCall τ ε :=
  if opts.maxRetries = 0 then ⟨.returned default (some retryLimitExceeded), [], []⟩
  else ⟨.calling 0 none, [0], []⟩

/-- The first wait. -/
def firstWait (jitter : Nat) : Int64 :=
  milliseconds (Int64.ofNat opts.initWaitMs + Int64.ofNat jitter)

/-- The wait in the loop, where the counter has been incremented. -/
def nextWait (retryCount jitter : Nat) : Int64 :=
  let waitMs := Double.add
    (Double.pow (Double.round opts.initWaitMs) (Double.round retryCount)) (Double.nearest jitter)
  milliseconds (truncate platform waitMs)

/-- From an error of the callback to the `select`. -/
def retry (c : BackoffCall τ ε) (retryCount : Nat) (timer : Option Timer) (rand : Nat) :
    BackoffCall τ ε :=
  let retryCount := retryCount + 1
  if retryCount ≥ opts.maxRetries then
    { c with phase := .returned default (some retryLimitExceeded) }
  else
    match intn opts.maxRandMs rand with
    | none => { c with phase := .panicked }
    | some jitter =>
      match timer with
      | none =>
        let d := firstWait opts jitter
        { c with
          phase := .waiting retryCount (.new d)
          waits := c.waits ++ [⟨retryCount, jitter, d⟩] }
      | some timer =>
        let d := nextWait platform opts retryCount jitter
        { c with
          phase := .waiting retryCount (timer.reset d)
          waits := c.waits ++ [⟨retryCount, jitter, d⟩] }

/-- The call up to where it next calls the callback or selects. -/
def step (c : BackoffCall τ ε) : BackoffInput τ ε → Option (BackoffCall τ ε)
  | .succeeded result =>
    match c.phase with
    | .calling _ _ => some { c with phase := .returned result none }
    | _ => none
  | .failed rand =>
    match c.phase with
    | .calling retryCount timer => some (retry platform opts c retryCount timer rand)
    | _ => none
  | .timer =>
    match c.phase with
    | .waiting retryCount timer =>
      if !timer.ok then some { c with phase := .returned default none }
      else some { c with
        phase := .calling retryCount (some timer)
        calls := c.calls ++ [retryCount] }
    | _ => none
  | .ctxDone err =>
    match c.phase with
    | .waiting _ _ => some { c with phase := .returned default (some (.ctx err)) }
    | _ => none

section Retry

variable {platform opts} {c : BackoffCall τ ε} {retryCount : Nat}

theorem retry_last (h : opts.maxRetries ≤ retryCount + 1) (timer : Option Timer) (rand : Nat) :
    retry platform opts c retryCount timer rand =
      { c with phase := .returned default (some retryLimitExceeded) } :=
  if_pos h

theorem retry_panic (h : retryCount + 1 < opts.maxRetries) (hzero : opts.maxRandMs = 0)
    (timer : Option Timer) (rand : Nat) :
    retry platform opts c retryCount timer rand = { c with phase := .panicked } := by
  have hintn : intn opts.maxRandMs rand = none := if_pos hzero
  simp only [retry, if_neg (Nat.not_le.2 h), hintn]

theorem retry_first (h : retryCount + 1 < opts.maxRetries) (hpos : 0 < opts.maxRandMs)
    (rand : Nat) :
    retry platform opts c retryCount none rand =
      { c with
        phase := .waiting (retryCount + 1) (.new (firstWait opts (rand % opts.maxRandMs)))
        waits := c.waits ++ [⟨retryCount + 1, rand % opts.maxRandMs,
          firstWait opts (rand % opts.maxRandMs)⟩] } := by
  have hintn : intn opts.maxRandMs rand = some (rand % opts.maxRandMs) :=
    if_neg (Nat.pos_iff_ne_zero.1 hpos)
  simp only [retry, if_neg (Nat.not_le.2 h), hintn]

theorem retry_next (h : retryCount + 1 < opts.maxRetries) (hpos : 0 < opts.maxRandMs)
    (timer : Timer) (rand : Nat) :
    retry platform opts c retryCount (some timer) rand =
      { c with
        phase := .waiting (retryCount + 1)
          (timer.reset (nextWait platform opts (retryCount + 1) (rand % opts.maxRandMs)))
        waits := c.waits ++ [⟨retryCount + 1, rand % opts.maxRandMs,
          nextWait platform opts (retryCount + 1) (rand % opts.maxRandMs)⟩] } := by
  have hintn : intn opts.maxRandMs rand = some (rand % opts.maxRandMs) :=
    if_neg (Nat.pos_iff_ne_zero.1 hpos)
  simp only [retry, if_neg (Nat.not_le.2 h), hintn]

end Retry

/-- The steps of a call, one for each place it can be in and what it sees there. -/
inductive Steps (c : BackoffCall τ ε) : BackoffInput τ ε → BackoffCall τ ε → Prop where
  | succeeded {retryCount : Nat} {timer : Option Timer} (result : τ)
    (h : c.phase = .calling retryCount timer) :
    Steps c (.succeeded result) { c with phase := .returned result none }
  | failed {retryCount : Nat} {timer : Option Timer} (rand : Nat)
    (h : c.phase = .calling retryCount timer) :
    Steps c (.failed rand) (retry platform opts c retryCount timer rand)
  | timer {retryCount : Nat} {timer : Timer} (h : c.phase = .waiting retryCount timer)
    (hok : timer.ok) :
    Steps c .timer
      { c with phase := .calling retryCount (some timer), calls := c.calls ++ [retryCount] }
  | closed {retryCount : Nat} {timer : Timer} (h : c.phase = .waiting retryCount timer)
    (hok : ¬ timer.ok) : Steps c .timer { c with phase := .returned default none }
  | ctxDone {retryCount : Nat} {timer : Timer} (err : ε)
    (h : c.phase = .waiting retryCount timer) :
    Steps c (.ctxDone err) { c with phase := .returned default (some (.ctx err)) }

variable {platform opts} in
theorem step_cases {c c' : BackoffCall τ ε} {input : BackoffInput τ ε}
    (h : step platform opts c input = some c') : Steps platform opts c input c' := by
  unfold step at h
  split at h
  · split at h
    · rename_i hphase
      cases h
      exact .succeeded _ hphase
    · cases h
  · split at h
    · rename_i hphase
      cases h
      exact .failed _ hphase
    · cases h
  · split at h
    · rename_i hphase
      split at h
      · rename_i hclosed
        cases h
        exact .closed hphase (by simpa using hclosed)
      · rename_i hopen
        cases h
        exact .timer hphase (by simpa using hopen)
    · cases h
  · split at h
    · rename_i hphase
      cases h
      exact .ctxDone _ hphase
    · cases h

end BackoffCall

end BlockFeed.Native
