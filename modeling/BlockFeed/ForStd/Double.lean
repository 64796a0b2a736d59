import Mathlib.Algebra.Group.Nat.Defs
import Mathlib.Order.Monotone.Basic
import Mathlib.Data.Nat.Log

/-!
# Natural numbers as IEEE 754 doubles

`Double.round n` is the integer held by the binary64 value nearest to `n`, with ties
going to the even significand. Up to `2 ^ 53` every integer is exact; above, neighbouring
integers start to share a double. The order of integers survives the rounding
(`round_mono`), strictness does not.

A `Value` is a double that holds a natural number, or `+Inf`; `pow` computes a power as a library
does, by repeated squaring with every product rounded. It is exact where the power is below
`2 ^ 53` (`pow_of_lt`).
-/

namespace Double

/-- The gap between neighbouring doubles around `n`: one up to `2 ^ 53`, then doubling
    with each binary order of magnitude. -/
def ulp (n : Nat) : Nat := 2 ^ (Nat.log2 n - 52)

/-- Rounds `n` to a multiple of `u`, ties to the even quotient. -/
def roundTo (u n : Nat) : Nat :=
  if 2 * (n % u) < u ∨ 2 * (n % u) = u ∧ n / u % 2 = 0 then n / u * u else (n / u + 1) * u

/-- The integer value of the double nearest to `n`. -/
def round (n : Nat) : Nat := roundTo (ulp n) n

theorem ulp_pos (n : Nat) : 0 < ulp n := Nat.two_pow_pos _

/-- Rounding to a multiple of `u` never goes below the last multiple. -/
theorem le_roundTo (u n : Nat) : n / u * u ≤ roundTo u n := by
  unfold roundTo
  split
  · exact Nat.le_refl _
  · exact Nat.mul_le_mul_right u (Nat.le_succ _)

/-- Rounding to a multiple of `u` never goes above the next multiple. -/
theorem roundTo_le (u n : Nat) : roundTo u n ≤ (n / u + 1) * u := by
  unfold roundTo
  split
  · exact Nat.mul_le_mul_right u (Nat.le_succ _)
  · exact Nat.le_refl _

/-- With a fixed gap, rounding keeps the order. -/
theorem roundTo_mono (u : Nat) {n m : Nat} (h : n ≤ m) : roundTo u n ≤ roundTo u m := by
  have hq : n / u ≤ m / u := Nat.div_le_div_right h
  rcases Nat.lt_or_eq_of_le hq with hlt | heq
  · calc roundTo u n ≤ (n / u + 1) * u := roundTo_le u n
      _ ≤ m / u * u := Nat.mul_le_mul_right u hlt
      _ ≤ roundTo u m := le_roundTo u m
  · -- same quotient: the remainders are ordered, so `m` rounds up whenever `n` does
    have hn := Nat.div_add_mod n u
    have hm := Nat.div_add_mod m u
    rw [heq] at hn
    have hr : n % u ≤ m % u := by omega
    unfold roundTo
    rw [heq]
    split <;> split
    · exact Nat.le_refl _
    · exact Nat.mul_le_mul_right u (Nat.le_succ _)
    · omega
    · exact Nat.le_refl _

private theorem ulp_dvd_pow {n k : Nat} (h : Nat.log2 n ≤ k) : ulp n ∣ 2 ^ k :=
  Nat.pow_dvd_pow 2 (by omega)

/-- A value stays below the next power of two after rounding. -/
private theorem round_le_pow (n : Nat) : round n ≤ 2 ^ (Nat.log2 n + 1) := by
  obtain ⟨k, hk⟩ := ulp_dvd_pow (n := n) (Nat.le_succ (Nat.log2 n))
  have hlt : n < ulp n * k := hk ▸ Nat.lt_log2_self
  have hq : n / ulp n < k := Nat.div_lt_of_lt_mul hlt
  calc round n ≤ (n / ulp n + 1) * ulp n := roundTo_le _ _
    _ ≤ k * ulp n := Nat.mul_le_mul_right _ hq
    _ = 2 ^ (Nat.log2 n + 1) := by rw [Nat.mul_comm]; exact hk.symm

/-- A nonzero value stays above its leading power of two after rounding. -/
private theorem pow_le_round {n : Nat} (h : n ≠ 0) : 2 ^ Nat.log2 n ≤ round n := by
  obtain ⟨k, hk⟩ := ulp_dvd_pow (n := n) (Nat.le_refl (Nat.log2 n))
  have hle : k * ulp n ≤ n := by rw [Nat.mul_comm, ← hk]; exact Nat.log2_self_le h
  have hq : k ≤ n / ulp n := (Nat.le_div_iff_mul_le (ulp_pos n)).2 hle
  calc 2 ^ Nat.log2 n = k * ulp n := by rw [Nat.mul_comm]; exact hk
    _ ≤ n / ulp n * ulp n := Nat.mul_le_mul_right _ hq
    _ ≤ round n := le_roundTo _ _

/-- Rounding keeps the order of integers. -/
theorem round_mono : Monotone round := by
  intro n m h
  rcases Nat.eq_zero_or_pos n with rfl | hpos
  · -- zero rounds to zero
    simp [round, roundTo, ulp]
  have hlog : Nat.log2 n ≤ Nat.log2 m := by
    rw [Nat.log2_eq_log_two, Nat.log2_eq_log_two]
    exact Nat.log_mono_right h
  rcases Nat.lt_or_eq_of_le hlog with hlt | heq
  · -- a power of two lies between them, and rounding does not cross it
    calc round n ≤ 2 ^ (Nat.log2 n + 1) := round_le_pow n
      _ ≤ 2 ^ Nat.log2 m := Nat.pow_le_pow_right (by omega) hlt
      _ ≤ round m := pow_le_round (by omega)
  · -- the same gap on both sides
    have hu : ulp n = ulp m := by simp only [ulp, heq]
    unfold round
    rw [hu]
    exact roundTo_mono (ulp m) h

/-- If the doubles are strictly ordered, so are the integers. -/
theorem lt_of_round_lt {n m : Nat} (h : round n < round m) : n < m :=
  round_mono.reflect_lt h

/-- Integers below `2 ^ 53` are their own doubles. -/
theorem round_eq_self {n : Nat} (h : n < 2 ^ 53) : round n = n := by
  have hlog : Nat.log2 n < 53 := by
    rcases Nat.eq_zero_or_pos n with rfl | hpos
    · decide
    · exact (Nat.log2_lt (by omega)).2 h
  -- the gap is one, so there is nothing to round
  have hu : ulp n = 1 := by
    rw [ulp, show Nat.log2 n - 52 = 0 by omega, Nat.pow_zero]
  simp [round, roundTo, hu, Nat.mod_one]

/-- The first integer the doubles lose: it shares its double with its predecessor. -/
example : round (2 ^ 53 + 1) = round (2 ^ 53) := by decide

/-! ### Doubles that hold natural numbers -/

/-- A double that holds a natural number, or `+Inf`. -/
inductive Value where
  | nat (n : Nat)
  | inf
deriving DecidableEq, Repr

/-- The double of a natural number of 53 significant bits. From `2 ^ 1024` on it is `+Inf`. -/
def ofRounded (n : Nat) : Value :=
  if Nat.log2 n < 1024 then .nat n else .inf

/-- The double nearest to a natural number. -/
def nearest (n : Nat) : Value := ofRounded (round n)

def add : Value → Value → Value
  | .nat n, .nat m => nearest (n + m)
  | _, _ => .inf

/-- `a * x ^ i` by repeated squaring, each product rounded to 53 significant bits. Exponents are
    kept apart from significands, so no product overflows. -/
def powLoop : Nat → Nat → Nat → Nat → Nat
  | 0, _, a, _ => a
  | fuel + 1, i, a, x =>
    if i = 0 then a
    -- the result overflows whatever the rest of the power is
    else if 4096 ≤ Nat.log2 x then a * x
    else powLoop fuel (i / 2) (if i % 2 = 1 then round (a * x) else a) (round (x * x))

/-- The double that `x ^ y` is computed to. -/
def pow (x y : Nat) : Value := ofRounded (powLoop y y 1 x)

theorem ofRounded_of_lt {n : Nat} (h : n < 2 ^ 53) : ofRounded n = .nat n := by
  have hlog : Nat.log2 n < 1024 := by
    rcases Nat.eq_zero_or_pos n with rfl | hpos
    · decide
    · exact Nat.lt_trans ((Nat.log2_lt (by omega)).2 h) (by decide)
  exact if_pos hlog

theorem nearest_of_lt {n : Nat} (h : n < 2 ^ 53) : nearest n = .nat n := by
  rw [nearest, round_eq_self h, ofRounded_of_lt h]

@[simp] theorem powLoop_zero (fuel a x : Nat) : powLoop fuel 0 a x = a := by
  cases fuel <;> rfl

/-- A power that a double holds exactly is computed exactly: so are all the products on the way,
    which are no larger. -/
theorem powLoop_eq {fuel i a x : Nat} (hi : i ≤ fuel) (ha : 0 < a) (hx : 0 < x)
    (h : a * x ^ i < 2 ^ 53) : powLoop fuel i a x = a * x ^ i := by
  induction fuel generalizing i a x with
  | zero => rw [Nat.le_zero.1 hi, powLoop_zero, Nat.pow_zero, Nat.mul_one]
  | succ fuel ih =>
    rcases Nat.eq_zero_or_pos i with rfl | hpos
    · rw [powLoop_zero, Nat.pow_zero, Nat.mul_one]
    have hbound {k : Nat} (hk : k ≤ i) : a * x ^ k < 2 ^ 53 :=
      Nat.lt_of_le_of_lt (Nat.mul_le_mul_left a (Nat.pow_le_pow_right hx hk)) h
    have hlog : Nat.log2 x < 53 := by
      refine (Nat.log2_lt (by omega)).2 (Nat.lt_of_le_of_lt ?_ (hbound hpos))
      rw [Nat.pow_one]
      exact Nat.le_mul_of_pos_left x ha
    have hacc : (if i % 2 = 1 then round (a * x) else a) = a * x ^ (i % 2) := by
      split
      · rename_i hodd
        rw [hodd]
        exact (congrArg round (by rw [Nat.pow_one])).trans (round_eq_self (hbound hpos))
      · rename_i heven
        rw [show i % 2 = 0 by omega, Nat.pow_zero, Nat.mul_one]
    -- the power at hand, split at half its exponent
    have hsplit : a * x ^ i = a * x ^ (i % 2) * (x * x) ^ (i / 2) := by
      rw [Nat.mul_assoc, ← Nat.pow_two, ← Nat.pow_mul, ← Nat.pow_add, Nat.mod_add_div]
    rw [powLoop, if_neg (by omega), if_neg (by omega), hacc, hsplit]
    rcases Nat.eq_zero_or_pos (i / 2) with hhalf | hhalf
    · rw [hhalf, powLoop_zero, Nat.pow_zero, Nat.mul_one]
    · have hsquare : round (x * x) = x * x := by
        refine round_eq_self (Nat.lt_of_le_of_lt ?_ (hbound (k := 2) (by omega)))
        rw [Nat.pow_two]
        exact Nat.le_mul_of_pos_left (x * x) ha
      rw [hsquare]
      exact ih (by omega) (Nat.mul_pos ha (Nat.pow_pos hx)) (Nat.mul_pos hx hx) (hsplit ▸ h)

theorem pow_of_lt {x y : Nat} (hx : 0 < x) (h : x ^ y < 2 ^ 53) : pow x y = .nat (x ^ y) := by
  have hloop : powLoop y y 1 x = x ^ y := by
    have hone := powLoop_eq (Nat.le_refl y) Nat.one_pos hx ((Nat.one_mul _).symm ▸ h)
    rwa [Nat.one_mul] at hone
  rw [pow, hloop, ofRounded_of_lt h]

end Double
