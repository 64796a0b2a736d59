import Mathlib.Data.List.Basic
import Mathlib.Tactic.Common

/-!
# Base64

The standard alphabet with padding. `decode` skips line breaks wherever they stand, as decoders of
mail do, and ignores the bits of the last digit that belong to no byte. It inverts `encode`
(`decode_encode`).
-/

namespace Base64

/-- The digit of a value below 64. -/
def digit (n : Nat) : Char :=
  if n < 26 then Char.ofNat ('A'.toNat + n)
  else if n < 52 then Char.ofNat ('a'.toNat + (n - 26))
  else if n < 62 then Char.ofNat ('0'.toNat + (n - 52))
  else if n = 62 then '+'
  else '/'

/-- The value of a digit. -/
def value (c : Char) : Option Nat :=
  if 'A' ≤ c ∧ c ≤ 'Z' then some (c.toNat - 'A'.toNat)
  else if 'a' ≤ c ∧ c ≤ 'z' then some (c.toNat - 'a'.toNat + 26)
  else if '0' ≤ c ∧ c ≤ '9' then some (c.toNat - '0'.toNat + 52)
  else if c = '+' then some 62
  else if c = '/' then some 63
  else none

/-- Three bytes are four digits; one or two bytes at the end are padded. -/
def encode : List UInt8 → List Char
  | [] => []
  | [a] => [digit (a.toNat / 4), digit (a.toNat % 4 * 16), '=', '=']
  | [a, b] =>
    [digit (a.toNat / 4), digit (a.toNat % 4 * 16 + b.toNat / 16), digit (b.toNat % 16 * 4), '=']
  | a :: b :: c :: bytes =>
    digit (a.toNat / 4) :: digit (a.toNat % 4 * 16 + b.toNat / 16) ::
      digit (b.toNat % 16 * 4 + c.toNat / 64) :: digit (c.toNat % 64) :: encode bytes

/-- The bytes of a text without line breaks. -/
def decodeQuanta : List Char → Option (List UInt8)
  | [] => some []
  | [c₀, c₁, '=', '='] =>
    match value c₀, value c₁ with
    | some d₀, some d₁ => some [UInt8.ofNat (d₀ * 4 + d₁ / 16)]
    | _, _ => none
  | [c₀, c₁, c₂, '='] =>
    match value c₀, value c₁, value c₂ with
    | some d₀, some d₁, some d₂ =>
      some [UInt8.ofNat (d₀ * 4 + d₁ / 16), UInt8.ofNat (d₁ % 16 * 16 + d₂ / 4)]
    | _, _, _ => none
  | c₀ :: c₁ :: c₂ :: c₃ :: text =>
    match value c₀, value c₁, value c₂, value c₃, decodeQuanta text with
    | some d₀, some d₁, some d₂, some d₃, some bytes =>
      some (UInt8.ofNat (d₀ * 4 + d₁ / 16) :: UInt8.ofNat (d₁ % 16 * 16 + d₂ / 4) ::
        UInt8.ofNat (d₂ % 4 * 64 + d₃) :: bytes)
    | _, _, _, _, _ => none
  | _ => none

/-- The bytes of a text. -/
def decode (text : List Char) : Option (List UInt8) :=
  decodeQuanta (text.filter fun c => c ≠ '\r' ∧ c ≠ '\n')

theorem value_digit {n : Nat} (h : n < 64) : value (digit n) = some n := by
  have hall : ∀ n < 64, value (digit n) = some n := by decide
  exact hall n h

/-- No digit is the padding. -/
theorem digit_ne {n : Nat} (h : n < 64) : digit n ≠ '=' := by
  have hall : ∀ n < 64, digit n ≠ '=' := by decide
  exact hall n h

private theorem ofNat_eq {n : Nat} {a : UInt8} (h : n = a.toNat) : UInt8.ofNat n = a := by
  rw [h, UInt8.ofNat_toNat]

/-- What holds of the digits and of the padding holds of every character of an encoded text. -/
theorem forall_mem_encode {P : Char → Prop} (hdigit : ∀ n < 64, P (digit n)) (hpad : P '=')
    (bytes : List UInt8) : ∀ c ∈ encode bytes, P c := by
  fun_induction encode bytes with
  | case1 => simp
  | case2 a =>
    have ha := a.toNat_lt
    have h₀ := hdigit (a.toNat / 4) (by omega)
    have h₁ := hdigit (a.toNat % 4 * 16) (by omega)
    simp [h₀, h₁, hpad]
  | case3 a b =>
    have ha := a.toNat_lt
    have hb := b.toNat_lt
    have h₀ := hdigit (a.toNat / 4) (by omega)
    have h₁ := hdigit (a.toNat % 4 * 16 + b.toNat / 16) (by omega)
    have h₂ := hdigit (b.toNat % 16 * 4) (by omega)
    simp [h₀, h₁, h₂, hpad]
  | case4 a b c bytes ih =>
    have ha := a.toNat_lt
    have hb := b.toNat_lt
    have hc := c.toNat_lt
    have h₀ := hdigit (a.toNat / 4) (by omega)
    have h₁ := hdigit (a.toNat % 4 * 16 + b.toNat / 16) (by omega)
    have h₂ := hdigit (b.toNat % 16 * 4 + c.toNat / 64) (by omega)
    have h₃ := hdigit (c.toNat % 64) (by omega)
    simpa [h₀, h₁, h₂, h₃] using ih

private theorem decodeQuanta_encode (bytes : List UInt8) :
    decodeQuanta (encode bytes) = some bytes := by
  fun_induction encode bytes with
  | case1 => rfl
  | case2 a =>
    have ha := a.toNat_lt
    have h₀ := value_digit (n := a.toNat / 4) (by omega)
    have h₁ := value_digit (n := a.toNat % 4 * 16) (by omega)
    rw [decodeQuanta, h₀, h₁]
    simp only
    rw [ofNat_eq (a := a) (by omega)]
  | case3 a b =>
    have ha := a.toNat_lt
    have hb := b.toNat_lt
    have h₀ := value_digit (n := a.toNat / 4) (by omega)
    have h₁ := value_digit (n := a.toNat % 4 * 16 + b.toNat / 16) (by omega)
    have h₂ := value_digit (n := b.toNat % 16 * 4) (by omega)
    have hne : digit (b.toNat % 16 * 4) ≠ '=' := digit_ne (by omega)
    rw [decodeQuanta, h₀, h₁, h₂]
    · simp only
      rw [ofNat_eq (a := a) (by omega), ofNat_eq (a := b) (by omega)]
    · exact hne
  | case4 a b c bytes ih =>
    have ha := a.toNat_lt
    have hb := b.toNat_lt
    have hc := c.toNat_lt
    have h₀ := value_digit (n := a.toNat / 4) (by omega)
    have h₁ := value_digit (n := a.toNat % 4 * 16 + b.toNat / 16) (by omega)
    have h₂ := value_digit (n := b.toNat % 16 * 4 + c.toNat / 64) (by omega)
    have h₃ := value_digit (n := c.toNat % 64) (by omega)
    -- the last digit is not the padding, so this is a full quantum
    have hne : digit (c.toNat % 64) ≠ '=' := digit_ne (by omega)
    rw [decodeQuanta, h₀, h₁, h₂, h₃, ih]
    · simp only
      rw [ofNat_eq (a := a) (by omega), ofNat_eq (a := b) (by omega), ofNat_eq (a := c) (by omega)]
    · exact fun _ h => absurd h hne
    · exact fun h => absurd h hne

theorem decode_encode (bytes : List UInt8) : decode (encode bytes) = some bytes := by
  -- there is no line break to skip
  have hbreaks : (encode bytes).filter (fun c => c ≠ '\r' ∧ c ≠ '\n') = encode bytes := by
    have hnone : ∀ c ∈ encode bytes, c ≠ '\r' ∧ c ≠ '\n' :=
      forall_mem_encode (by decide) (by decide) bytes
    exact List.filter_eq_self.2 fun c hc => decide_eq_true (hnone c hc)
  rw [decode, hbreaks, decodeQuanta_encode]

end Base64
