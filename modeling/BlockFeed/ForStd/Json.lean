import Mathlib.Data.List.Forall2
import Mathlib.Data.List.TakeDrop

/-!
# JSON texts

A parser for JSON texts (`parse`), on lists of characters. What a writer prints is shown to be read
back by rules that follow the shape of the value: `Reads v text` says that `text` reads as `v`
whatever follows it, and each kind of value has a rule.

- `reads_string`: a string in which every character is printed by one of its escapes.
- `reads_number`: a natural number in decimal.
- `reads_array`, `reads_object`: texts in brackets and braces, with white space between them.
- `parse_of_reads`: a whole text.
-/

/-- A JSON value. A number is kept as the literal it is written as. -/
inductive Json where
  | null
  | bool (b : Bool)
  | number (literal : List Char)
  | string (s : List Char)
  | array (items : List Json)
  | object (members : List (List Char × Json))

namespace Json

/-! ## The parser -/

/-- White space. -/
def isSpace (c : Char) : Bool := c = ' ' || c = '\t' || c = '\n' || c = '\r'

/-- The text after leading white space. -/
def skip (text : List Char) : List Char := text.dropWhile isSpace

/-! ### Numbers -/

/-- The part after the decimal point, if there is one. -/
def readFraction : List Char → Option (List Char × List Char)
  | '.' :: text =>
    match text.span Char.isDigit with
    | ([], _) => none
    | (digits, rest) => some ('.' :: digits, rest)
  | text => some ([], text)

/-- The exponent, if there is one. -/
def readExponent : List Char → Option (List Char × List Char)
  | c :: text =>
    if c = 'e' ∨ c = 'E' then
      let (sign, text) := text.span fun c => c = '+' || c = '-'
      match text.span Char.isDigit with
      | ([], _) => none
      | (digits, rest) => if sign.length ≤ 1 then some (c :: sign ++ digits, rest) else none
    else some ([], c :: text)
  | [] => some ([], [])

/-- A number and the text after it. -/
def readNumber (text : List Char) : Option (List Char × List Char) :=
  let (sign, text) := text.span (· = '-')
  match text.span Char.isDigit with
  | (digits, rest) =>
    -- a leading zero stands alone
    if digits = [] ∨ 1 < sign.length ∨ digits.head? = some '0' ∧ 1 < digits.length then none
    else
      match readFraction rest with
      | none => none
      | some (frac, rest) =>
        match readExponent rest with
        | none => none
        | some (exp, rest) => some (sign ++ digits ++ frac ++ exp, rest)

/-! ### Strings -/

/-- The value of a hexadecimal digit. -/
def hexValue (c : Char) : Option Nat :=
  if '0' ≤ c ∧ c ≤ '9' then some (c.toNat - '0'.toNat)
  else if 'a' ≤ c ∧ c ≤ 'f' then some (c.toNat - 'a'.toNat + 10)
  else if 'A' ≤ c ∧ c ≤ 'F' then some (c.toNat - 'A'.toNat + 10)
  else none

/-- The code unit that four hexadecimal digits give. -/
def codeUnit (a b c d : Char) : Option Nat :=
  match hexValue a, hexValue b, hexValue c, hexValue d with
  | some a, some b, some c, some d => some (((a * 16 + b) * 16 + c) * 16 + d)
  | _, _, _, _ => none

/-- The character that a letter after a backslash stands for. -/
def unescape : Char → Option Char
  | '"' => some '"'
  | '\\' => some '\\'
  | '/' => some '/'
  | 'b' => some '\x08'
  | 'f' => some '\x0c'
  | 'n' => some '\n'
  | 'r' => some '\r'
  | 't' => some '\t'
  | _ => none

/-- A part of a string: a character, or a code unit written as `\uXXXX`. -/
inductive Piece where
  | char (c : Char)
  | unit (n : Nat)

/-- The parts of a string up to the closing quote, and the text after it. -/
def readPieces : List Char → Option (List Piece × List Char)
  | '"' :: rest => some ([], rest)
  | '\\' :: 'u' :: a :: b :: c :: d :: text =>
    match codeUnit a b c d, readPieces text with
    | some n, some (ps, rest) => some (.unit n :: ps, rest)
    | _, _ => none
  | '\\' :: e :: text =>
    match unescape e, readPieces text with
    | some c, some (ps, rest) => some (.char c :: ps, rest)
    | _, _ => none
  | c :: text =>
    if c.toNat < 0x20 then none
    else
      match readPieces text with
      | some (ps, rest) => some (.char c :: ps, rest)
      | none => none
  | [] => none

/-- The first halves of pairs of code units. -/
def isHigh (n : Nat) : Bool := 0xD800 ≤ n && n < 0xDC00

/-- The second halves. -/
def isLow (n : Nat) : Bool := 0xDC00 ≤ n && n < 0xE000

/-- What half a pair is replaced by. -/
def replacement : Char := '\uFFFD'

/-- The characters of a string, after the first half of a pair if there is one. -/
def join : Option Nat → List Piece → List Char
  | none, [] => []
  | none, .char c :: ps => c :: join none ps
  | none, .unit n :: ps =>
    if isHigh n then join (some n) ps
    else (if isLow n then replacement else Char.ofNat n) :: join none ps
  | some _, [] => [replacement]
  | some _, .char c :: ps => replacement :: c :: join none ps
  | some high, .unit n :: ps =>
    if isLow n then Char.ofNat (0x10000 + (high - 0xD800) * 0x400 + (n - 0xDC00)) :: join none ps
    else if isHigh n then replacement :: join (some n) ps
    else replacement :: Char.ofNat n :: join none ps

/-- A string from after its opening quote on, and the text after it. -/
def readString (text : List Char) : Option (List Char × List Char) :=
  match readPieces text with
  | some (ps, rest) => some (join none ps, rest)
  | none => none

/-! ### Values -/

mutual

/-- A value and the text after it. -/
def readValue : Nat → List Char → Option (Json × List Char)
  | 0, _ => none
  | fuel + 1, text =>
    match skip text with
    | 'n' :: 'u' :: 'l' :: 'l' :: rest => some (.null, rest)
    | 't' :: 'r' :: 'u' :: 'e' :: rest => some (.bool true, rest)
    | 'f' :: 'a' :: 'l' :: 's' :: 'e' :: rest => some (.bool false, rest)
    | '"' :: text =>
      match readString text with
      | some (s, rest) => some (.string s, rest)
      | none => none
    | '[' :: text =>
      match skip text with
      | ']' :: rest => some (.array [], rest)
      | text =>
        match readItems fuel text with
        | some (xs, rest) => some (.array xs, rest)
        | none => none
    | '{' :: text =>
      match skip text with
      | '}' :: rest => some (.object [], rest)
      | text =>
        match readMembers fuel text with
        | some (ms, rest) => some (.object ms, rest)
        | none => none
    | text =>
      match readNumber text with
      | some (n, rest) => some (.number n, rest)
      | none => none

/-- The items of an array, up to the closing bracket. -/
def readItems : Nat → List Char → Option (List Json × List Char)
  | 0, _ => none
  | fuel + 1, text =>
    match readValue fuel text with
    | none => none
    | some (x, text) =>
      match skip text with
      | ',' :: text =>
        match readItems fuel text with
        | some (xs, rest) => some (x :: xs, rest)
        | none => none
      | ']' :: rest => some ([x], rest)
      | _ => none

/-- The members of an object, up to the closing brace. -/
def readMembers : Nat → List Char → Option (List (List Char × Json) × List Char)
  | 0, _ => none
  | fuel + 1, text =>
    match skip text with
    | '"' :: text =>
      match readString text with
      | none => none
      | some (key, text) =>
        match skip text with
        | ':' :: text =>
          match readValue fuel text with
          | none => none
          | some (x, text) =>
            match skip text with
            | ',' :: text =>
              match readMembers fuel text with
              | some (ms, rest) => some ((key, x) :: ms, rest)
              | none => none
            | '}' :: rest => some ([(key, x)], rest)
            | _ => none
        | _ => none
    | _ => none

end

/-- The value of a whole text. Two steps for each character are enough. -/
def parse (text : List Char) : Option Json :=
  match readValue (2 * text.length + 1) text with
  | some (v, rest) => if skip rest = [] then some v else none
  | none => none

/-! ## What writers print -/

/-- What may stand after a value: nothing that a number could go on with. -/
def Ends (rest : List Char) : Prop :=
  ∀ c, rest.head? = some c → isSpace c = true ∨ c = ',' ∨ c = ']' ∨ c = '}'

/-- The text reads as the value, whatever stands after it. -/
structure Reads (v : Json) (text : List Char) : Prop where
  head : ∃ c t, text = c :: t ∧ isSpace c = false ∧ c ≠ ']'
  value : ∀ rest, Ends rest → ∀ fuel, 2 * (text ++ rest).length < fuel →
    readValue fuel (text ++ rest) = some (v, rest)

/-- One of the ways to print a character of a string. -/
inductive Escape : Char → List Char → Prop where
  | plain (c : Char) (hspace : 0x20 ≤ c.toNat) (hquote : c ≠ '"') (hslash : c ≠ '\\') :
    Escape c [c]
  | short (e c : Char) (h : unescape e = some c) : Escape c ['\\', e]
  | unit (a b c d : Char) (n : Nat) (h : codeUnit a b c d = some n) (hhigh : isHigh n = false)
    (hlow : isLow n = false) : Escape (Char.ofNat n) ['\\', 'u', a, b, c, d]

/-- A string in quotes, from the texts of its characters. -/
def quoted (texts : List (List Char)) : List Char := '"' :: (texts.flatten ++ ['"'])

/-- Texts with a separator between them. -/
def separated (sep : List Char) : List (List Char) → List Char
  | [] => []
  | [text] => text
  | text :: texts => text ++ (sep ++ separated sep texts)

/-- An array of printed items. `opening`, `gap` and `closing` are white space. -/
def arrayText (opening gap closing : List Char) (items : List (List Char)) : List Char :=
  '[' :: (opening ++ (separated (',' :: gap) items ++ (closing ++ [']'])))

/-- A member of an object. -/
def memberText (escape : Char → List Char) (key text : List Char) : List Char :=
  quoted (key.map escape) ++ ':' :: text

/-- An object of printed members. -/
def objectText (members : List (List Char)) : List Char :=
  '{' :: (separated [','] members ++ ['}'])

/-! ### White space -/

@[simp] theorem skip_nil : skip [] = [] := rfl

theorem skip_cons {c : Char} (h : isSpace c = false) (text : List Char) :
    skip (c :: text) = c :: text := by
  simp [skip, h]

theorem skip_append {ws : List Char} (h : ∀ c ∈ ws, isSpace c = true) (text : List Char) :
    skip (ws ++ text) = skip text := by
  rw [skip, List.dropWhile_append_of_pos h]
  rfl

theorem readValue_skip {ws : List Char} (h : ∀ c ∈ ws, isSpace c = true) (fuel : Nat)
    (text : List Char) : readValue fuel (ws ++ text) = readValue fuel text := by
  cases fuel with
  | zero => rfl
  | succ fuel => simp only [readValue, skip_append h]

/-! ### Strings -/

theorem readString_quote (rest : List Char) : readString ('"' :: rest) = some ([], rest) := rfl

/-- One printed character. -/
theorem readString_escape {c : Char} {printed : List Char} (h : Escape c printed)
    {text s rest : List Char} (htext : readString text = some (s, rest)) :
    readString (printed ++ text) = some (c :: s, rest) := by
  simp only [readString] at htext ⊢
  split at htext
  · next ps rest' hpieces =>
    cases htext
    cases h with
    | plain _ hspace hquote hslash =>
      simp [readPieces, hslash, Nat.not_lt.2 hspace, hpieces, join]
    | short e _ hunescape =>
      have hne : e ≠ 'u' := by
        intro heq
        rw [heq] at hunescape
        cases hunescape
      simp [readPieces, hne, hunescape, hpieces, join]
    | unit a b _ d n hunit hhigh hlow =>
      simp [readPieces, hunit, hpieces, join, hhigh, hlow]
  · cases htext

/-- A string from after its opening quote on. -/
theorem readString_flatten {s : List Char} {texts : List (List Char)}
    (h : List.Forall₂ Escape s texts) (rest : List Char) :
    readString (texts.flatten ++ '"' :: rest) = some (s, rest) := by
  induction h with
  | nil => exact readString_quote rest
  | cons hc _ ih =>
    rw [List.flatten_cons, List.append_assoc]
    exact readString_escape hc ih

theorem reads_string {s : List Char} {texts : List (List Char)}
    (h : List.Forall₂ Escape s texts) : Reads (.string s) (quoted texts) where
  head := ⟨'"', _, rfl, by decide, by decide⟩
  value := by
    intro rest _ fuel hfuel
    obtain ⟨fuel, rfl⟩ : ∃ n, fuel = n + 1 := ⟨fuel - 1, by omega⟩
    have htext : quoted texts ++ rest = '"' :: (texts.flatten ++ '"' :: rest) := by
      simp [quoted]
    rw [htext, readValue, skip_cons (by decide)]
    simp only [readString_flatten h]

/-- The texts that a writer prints for the characters of a string. -/
theorem escapes_map {escape : Char → List Char} {s : List Char}
    (h : ∀ c ∈ s, Escape c (escape c)) : List.Forall₂ Escape s (s.map escape) := by
  rw [List.forall₂_map_right_iff, List.forall₂_same]
  exact h

/-! ### Literals and numbers -/

theorem reads_null : Reads .null ['n', 'u', 'l', 'l'] where
  head := ⟨'n', _, rfl, by decide, by decide⟩
  value := by
    intro rest _ fuel hfuel
    obtain ⟨fuel, rfl⟩ : ∃ n, fuel = n + 1 := ⟨fuel - 1, by omega⟩
    rfl

/-- `true` or `false`. -/
def boolText (b : Bool) : List Char :=
  if b then ['t', 'r', 'u', 'e'] else ['f', 'a', 'l', 's', 'e']

theorem reads_bool (b : Bool) : Reads (.bool b) (boolText b) where
  head := by
    cases b with
    | true => exact ⟨'t', _, rfl, by decide, by decide⟩
    | false => exact ⟨'f', _, rfl, by decide, by decide⟩
  value := by
    intro rest _ fuel hfuel
    obtain ⟨fuel, rfl⟩ : ∃ n, fuel = n + 1 := ⟨fuel - 1, by omega⟩
    cases b <;> rfl

private theorem exists_toDigits (n : Nat) :
    ∃ c digits, Nat.toDigits 10 n = c :: digits ∧ c.isDigit = true := by
  cases hcons : Nat.toDigits 10 n with
  | nil => exact absurd hcons Nat.toDigits_ne_nil
  | cons c digits =>
    have hmem : c ∈ Nat.toDigits 10 n := hcons ▸ List.mem_cons_self
    exact ⟨c, digits, rfl, Nat.isDigit_of_mem_toDigits (by decide) (by decide) hmem⟩

/-- The first digit of a number with more than one is not zero. -/
private theorem head_toDigits {n : Nat} (h : 10 ≤ n) : (Nat.toDigits 10 n).head? ≠ some '0' := by
  induction n using Nat.strongRecOn with
  | ind n ih =>
    rw [Nat.toDigits_of_base_le (by decide) h]
    have hhead : (Nat.toDigits 10 (n / 10) ++ [(n % 10).digitChar]).head? =
        (Nat.toDigits 10 (n / 10)).head? := by
      obtain ⟨c, digits, hcons, -⟩ := exists_toDigits (n / 10)
      rw [hcons]
      rfl
    rw [hhead]
    rcases Nat.lt_or_ge (n / 10) 10 with hlt | hge
    · -- a single digit, and not zero
      rw [Nat.toDigits_of_lt_base hlt]
      have hpos : 0 < n / 10 := by omega
      generalize n / 10 = d at hlt hpos
      have hall : ∀ d : Fin 10, 0 < d.val → [d.val.digitChar].head? ≠ some '0' := by decide
      exact hall ⟨d, hlt⟩ hpos
    · exact ih (n / 10) (by omega) hge

private theorem isSpace_of_isDigit {c : Char} (h : c.isDigit = true) : isSpace c = false := by
  have hne : ∀ d, d.isDigit = false → c ≠ d := by
    rintro d hd rfl
    rw [h] at hd
    cases hd
  simp [isSpace, hne ' ' rfl, hne '\t' rfl, hne '\n' rfl, hne '\r' rfl]

/-- A digit opens neither a literal, nor a string, nor a bracket. -/
private theorem readValue_digit {c : Char} (hc : c.isDigit = true) (fuel : Nat)
    (text : List Char) : readValue (fuel + 1) (c :: text) =
      match readNumber (c :: text) with
      | some (n, rest) => some (.number n, rest)
      | none => none := by
  rw [readValue, skip_cons (isSpace_of_isDigit hc)]
  split
  all_goals first
    | rfl
    | (rename_i heq; cases heq; cases hc)

/-- What may stand after a value is not a digit, and starts no fraction and no exponent. -/
private theorem ends_cases {rest : List Char} (h : Ends rest) :
    rest.takeWhile Char.isDigit = [] ∧ rest.dropWhile Char.isDigit = rest ∧
      readFraction rest = some ([], rest) ∧ readExponent rest = some ([], rest) := by
  cases rest with
  | nil => exact ⟨rfl, rfl, rfl, rfl⟩
  | cons c rest =>
    have hcases := h c rfl
    simp only [isSpace, Bool.or_eq_true, decide_eq_true_eq] at hcases
    rcases hcases with (((rfl | rfl) | rfl) | rfl) | rfl | rfl | rfl <;>
      exact ⟨rfl, rfl, rfl, rfl⟩

/-- A natural number in decimal, and the text after it. -/
theorem readNumber_toDigits (n : Nat) {rest : List Char} (hends : Ends rest) :
    readNumber (Nat.toDigits 10 n ++ rest) = some (Nat.toDigits 10 n, rest) := by
  have hdigits : ∀ c ∈ Nat.toDigits 10 n, c.isDigit = true := fun c hc =>
    Nat.isDigit_of_mem_toDigits (by decide) (by decide) hc
  obtain ⟨htake, hdrop, hfraction, hexponent⟩ := ends_cases hends
  -- no sign: the text starts with a digit
  have hsign : (Nat.toDigits 10 n ++ rest).span (· = '-') = ([], Nat.toDigits 10 n ++ rest) := by
    obtain ⟨c, digits, hcons, hc⟩ := exists_toDigits n
    have hne : c ≠ '-' := by
      rintro rfl
      cases hc
    rw [List.span_eq_takeWhile_dropWhile, hcons]
    simp [hne]
  have hspan : (Nat.toDigits 10 n ++ rest).span Char.isDigit = (Nat.toDigits 10 n, rest) := by
    rw [List.span_eq_takeWhile_dropWhile, List.takeWhile_append_of_pos hdigits,
      List.dropWhile_append_of_pos hdigits, htake, hdrop, List.append_nil]
  have hplain : ¬ (Nat.toDigits 10 n = [] ∨ 1 < ([] : List Char).length ∨
      (Nat.toDigits 10 n).head? = some '0' ∧ 1 < (Nat.toDigits 10 n).length) := by
    rintro (hnil | hlong | ⟨hhead, hlen⟩)
    · exact Nat.toDigits_ne_nil hnil
    · cases hlong
    · rcases Nat.lt_or_ge n 10 with hlt | hge
      · rw [Nat.toDigits_of_lt_base hlt] at hlen
        exact Nat.lt_irrefl 1 hlen
      · exact head_toDigits hge hhead
  simp only [readNumber, hsign, hspan, if_neg hplain, hfraction, hexponent, List.nil_append,
    List.append_nil]

theorem reads_number (n : Nat) : Reads (.number (Nat.toDigits 10 n)) (Nat.toDigits 10 n) where
  head := by
    obtain ⟨c, digits, hcons, hc⟩ := exists_toDigits n
    refine ⟨c, digits, hcons, isSpace_of_isDigit hc, ?_⟩
    rintro rfl
    cases hc
  value := by
    intro rest hends fuel hfuel
    obtain ⟨fuel, rfl⟩ : ∃ n, fuel = n + 1 := ⟨fuel - 1, by omega⟩
    have hnumber := readNumber_toDigits n hends
    obtain ⟨c, digits, hcons, hc⟩ := exists_toDigits n
    rw [hcons, List.cons_append] at hnumber ⊢
    rw [readValue_digit hc, hnumber]

/-! ### Arrays and objects -/

private theorem exists_separated (sep text : List Char) (texts : List (List Char)) :
    ∃ more, separated sep (text :: texts) = text ++ more := by
  cases texts with
  | nil => exact ⟨[], (List.append_nil text).symm⟩
  | cons next texts => exact ⟨_, rfl⟩

/-- A comma or a closing bracket may stand after a value. -/
private theorem ends_cons {c : Char} (hc : c = ',' ∨ c = ']' ∨ c = '}') (rest : List Char) :
    Ends (c :: rest) := fun _ hd => .inr (Option.some.inj hd ▸ hc)

/-- So may white space. -/
private theorem ends_append {ws : List Char} (h : ∀ c ∈ ws, isSpace c = true) {rest : List Char}
    (hrest : Ends rest) : Ends (ws ++ rest) := by
  intro d hd
  cases ws with
  | nil => exact hrest d hd
  | cons w ws => exact .inl (Option.some.inj hd ▸ h w List.mem_cons_self)

/-- A value that reads, after white space. -/
private theorem Reads.readValue {v : Json} {text : List Char} (h : Reads v text) {ws : List Char}
    (hws : ∀ c ∈ ws, isSpace c = true) {rest : List Char} (hends : Ends rest) (fuel : Nat)
    (hfuel : 2 * (text ++ rest).length < fuel) :
    readValue fuel (ws ++ (text ++ rest)) = some (v, rest) := by
  rw [readValue_skip hws]
  exact h.value rest hends fuel hfuel

/-- The items of an array from the first one on. -/
private theorem readItems_separated {gap closing : List Char} (hgap : ∀ c ∈ gap, isSpace c = true)
    (hclosing : ∀ c ∈ closing, isSpace c = true) {xs : List Json} {texts : List (List Char)}
    (h : List.Forall₂ Reads xs texts) (hne : xs ≠ []) {ws : List Char}
    (hws : ∀ c ∈ ws, isSpace c = true) (rest : List Char) (fuel : Nat)
    (hfuel : 2 * (separated (',' :: gap) texts ++ (closing ++ ']' :: rest)).length + 1 < fuel) :
    readItems fuel (ws ++ (separated (',' :: gap) texts ++ (closing ++ ']' :: rest))) =
      some (xs, rest) := by
  induction h generalizing ws fuel with
  | nil => exact absurd rfl hne
  | @cons x text xs texts hx hxs ih =>
    obtain ⟨fuel, rfl⟩ : ∃ n, fuel = n + 1 := ⟨fuel - 1, by omega⟩
    cases hxs with
    | nil =>
      -- the last item
      have hends := ends_append hclosing (ends_cons (.inr (.inl rfl)) rest)
      have hlast := hx.readValue hws hends fuel (by
        simp only [separated] at hfuel
        omega)
      simp only [separated, readItems, hlast, skip_append hclosing, skip_cons (c := ']') rfl]
    | @cons y next ys nexts hy hys =>
      have hsep : separated (',' :: gap) (text :: next :: nexts) =
          text ++ (',' :: (gap ++ separated (',' :: gap) (next :: nexts))) := rfl
      rw [hsep] at hfuel ⊢
      simp only [List.append_assoc, List.cons_append] at hfuel ⊢
      have hends : Ends (',' :: (gap ++ (separated (',' :: gap) (next :: nexts) ++
          (closing ++ ']' :: rest)))) := ends_cons (.inl rfl) _
      have hfirst := hx.readValue hws hends fuel (by omega)
      have hrest := ih (by simp) hgap fuel (by
        simp only [List.length_append, List.length_cons] at hfuel ⊢
        omega)
      simp only [readItems, hfirst, skip_cons (c := ',') rfl, hrest]

theorem reads_array {opening gap closing : List Char} (hopening : ∀ c ∈ opening, isSpace c = true)
    (hgap : ∀ c ∈ gap, isSpace c = true) (hclosing : ∀ c ∈ closing, isSpace c = true)
    {xs : List Json} {texts : List (List Char)} (h : List.Forall₂ Reads xs texts) :
    Reads (.array xs) (arrayText opening gap closing texts) where
  head := ⟨'[', _, rfl, by decide, by decide⟩
  value := by
    intro rest _ fuel hfuel
    obtain ⟨fuel, rfl⟩ : ∃ n, fuel = n + 1 := ⟨fuel - 1, by omega⟩
    have htext : arrayText opening gap closing texts ++ rest =
        '[' :: (opening ++ (separated (',' :: gap) texts ++ (closing ++ ']' :: rest))) := by
      simp [arrayText]
    rw [htext] at hfuel ⊢
    rw [readValue, skip_cons (by decide)]
    simp only [skip_append hopening]
    cases h with
    | nil => simp only [separated, List.nil_append, skip_append hclosing, skip_cons (c := ']') rfl]
    | @cons x text xs texts hx hxs =>
      have hnil : ∀ c ∈ ([] : List Char), isSpace c = true := by simp
      have hitems := readItems_separated hgap hclosing (.cons hx hxs) (by simp) hnil rest fuel (by
          simp only [List.length_cons, List.length_append] at hfuel ⊢
          omega)
      rw [List.nil_append] at hitems
      -- the first item opens with something other than the closing bracket
      obtain ⟨more, hmore⟩ := exists_separated (',' :: gap) text texts
      obtain ⟨c, t, rfl, hspace, hbracket⟩ := hx.head
      rw [hmore, List.append_assoc, List.cons_append] at hitems ⊢
      rw [skip_cons hspace]
      split
      · next rest' heq =>
        cases heq
        exact absurd rfl hbracket
      · rw [hitems]

/-- A printed member that reads as one. -/
inductive ReadsMember (escape : Char → List Char) : List Char × Json → List Char → Prop where
  | mk {key text : List Char} {v : Json} (hkey : ∀ c ∈ key, Escape c (escape c))
    (h : Reads v text) : ReadsMember escape (key, v) (memberText escape key text)

/-- The members of an object from the first one on. -/
private theorem readMembers_separated {escape : Char → List Char}
    {members : List (List Char × Json)} {texts : List (List Char)}
    (h : List.Forall₂ (ReadsMember escape) members texts) (hne : members ≠ []) (rest : List Char)
    (fuel : Nat) (hfuel : 2 * (separated [','] texts ++ '}' :: rest).length < fuel) :
    readMembers fuel (separated [','] texts ++ '}' :: rest) = some (members, rest) := by
  induction h generalizing fuel with
  | nil => exact absurd rfl hne
  | @cons m text ms texts hm hms ih =>
    obtain ⟨fuel, rfl⟩ : ∃ n, fuel = n + 1 := ⟨fuel - 1, by omega⟩
    cases hm with
    | @mk key text v hkey hv =>
      -- what stands after the member is a comma with the others, or the closing brace
      have hmember : ∀ after : List Char, memberText escape key text ++ after =
          '"' :: ((key.map escape).flatten ++ '"' :: ':' :: (text ++ after)) := by
        intro after
        simp [memberText, quoted]
      have hvalue : ∀ after : List Char, Ends after →
          2 * (memberText escape key text ++ after).length < fuel + 1 →
          readValue fuel (text ++ after) = some (v, after) := by
        intro after hends hlen
        apply hv.value after hends
        rw [hmember] at hlen
        simp only [List.length_cons, List.length_append] at hlen ⊢
        omega
      cases hms with
      | nil =>
        have hlast := hvalue _ (ends_cons (.inr (.inr rfl)) rest) hfuel
        simp only [separated, hmember, readMembers, skip_cons (c := '"') rfl,
          readString_flatten (escapes_map hkey), skip_cons (c := ':') rfl, hlast,
          skip_cons (c := '}') rfl]
      | @cons m' next ms' nexts hm' hms' =>
        have hsep : separated [','] (memberText escape key text :: next :: nexts) ++ '}' :: rest =
            memberText escape key text ++ ',' :: (separated [','] (next :: nexts) ++ '}' :: rest) :=
          by simp [separated]
        rw [hsep] at hfuel ⊢
        have hfirst := hvalue _ (ends_cons (.inl rfl) _) hfuel
        have hrest := ih (by simp) fuel (by
          simp only [List.length_append, List.length_cons] at hfuel ⊢
          omega)
        simp only [hmember, readMembers, skip_cons (c := '"') rfl,
          readString_flatten (escapes_map hkey), skip_cons (c := ':') rfl, hfirst,
          skip_cons (c := ',') rfl, hrest]

theorem reads_object {escape : Char → List Char} {members : List (List Char × Json)}
    {texts : List (List Char)} (h : List.Forall₂ (ReadsMember escape) members texts) :
    Reads (.object members) (objectText texts) where
  head := ⟨'{', _, rfl, by decide, by decide⟩
  value := by
    intro rest _ fuel hfuel
    obtain ⟨fuel, rfl⟩ : ∃ n, fuel = n + 1 := ⟨fuel - 1, by omega⟩
    have htext : objectText texts ++ rest = '{' :: (separated [','] texts ++ '}' :: rest) := by
      simp [objectText]
    rw [htext] at hfuel ⊢
    rw [readValue, skip_cons (by decide)]
    cases h with
    | nil => rfl
    | @cons m text ms texts hm hms =>
      have hmembers := readMembers_separated (.cons hm hms) (by simp) rest fuel (by
        simp only [List.length_cons] at hfuel
        omega)
      -- the first member opens with a quote
      obtain ⟨more, hmore⟩ := exists_separated [','] text texts
      cases hm with
      | mk hkey hv =>
        rw [hmore, memberText, quoted, List.append_assoc, List.cons_append, List.cons_append]
          at hmembers ⊢
        simp only [skip_cons (c := '"') rfl]
        split
        · next rest' heq => cases heq
        · rw [hmembers]

/-! ### Whole texts -/

theorem parse_of_reads {v : Json} {text : List Char} (h : Reads v text) : parse text = some v := by
  have hvalue := h.value [] (fun c hc => by cases hc) (2 * text.length + 1) (by simp)
  rw [List.append_nil] at hvalue
  simp [parse, hvalue]

end Json
