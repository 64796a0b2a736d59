import BlockFeed.ForStd.Base64
import BlockFeed.ForStd.Json
import BlockFeed.Native.BlockRouter
import BlockFeed.Native.WebhookStream

/-!
# The texts that the services exchange

`json.Marshal` prints jobs and blocks, `cjson.encode` prints the jobs of the activation script, and
`json.Unmarshal` reads both. A text is the list of its characters; Redis compares texts by their
bytes, which is the order of their characters.

Each kind of text has one lemma that the parser reads it as the value it was printed from.
-/

namespace BlockFeed.Native

/-- A text in UTF-8. -/
abbrev Text : Type := List Char

/-- A `[]byte`, which may be nil. -/
structure Bytes where
  bytes : Option (List UInt8)
deriving DecidableEq, Repr

/-! ## Printing -/

/-- A digit of `"0123456789abcdef"`. -/
def hexDigit (n : Nat) : Char := n.digitChar

/-- How `encoding/json` prints a character of a string. -/
def goEscape (c : Char) : Text :=
  if c = '"' ∨ c = '\\' then ['\\', c]
  else if c = '\x08' then ['\\', 'b']
  else if c = '\x0c' then ['\\', 'f']
  else if c = '\n' then ['\\', 'n']
  else if c = '\r' then ['\\', 'r']
  else if c = '\t' then ['\\', 't']
  -- the other control characters, and those that mean something in HTML
  else if c.toNat < 0x20 ∨ c = '<' ∨ c = '>' ∨ c = '&' then
    ['\\', 'u', '0', '0', hexDigit (c.toNat / 16), hexDigit (c.toNat % 16)]
  else if c = '\u2028' ∨ c = '\u2029' then ['\\', 'u', '2', '0', '2', hexDigit (c.toNat % 16)]
  else [c]

/-- How cjson prints a character of a string. -/
def cjsonEscape (c : Char) : Text :=
  if c = '"' ∨ c = '\\' ∨ c = '/' then ['\\', c]
  else if c = '\x08' then ['\\', 'b']
  else if c = '\t' then ['\\', 't']
  else if c = '\n' then ['\\', 'n']
  else if c = '\x0c' then ['\\', 'f']
  else if c = '\r' then ['\\', 'r']
  else if c.toNat < 0x20 ∨ c.toNat = 0x7f then
    ['\\', 'u', '0', '0', hexDigit (c.toNat / 16), hexDigit (c.toNat % 16)]
  else [c]

/-- A number as both encoders print it. -/
def numberText (n : Nat) : Text := Nat.toDigits 10 n

/-- The fields of a struct, printed in the order of their declaration. -/
def goObject (fields : List (String × Text)) : Text :=
  Json.objectText (fields.map fun f => Json.memberText goEscape f.1.toList f.2)

/-- `json.Marshal` of a `[]byte`. -/
def bytesText (data : Bytes) : Text :=
  match data.bytes with
  | none => "null".toList
  | some bytes => Json.quoted ((Base64.encode bytes).map fun c => [c])

/-- `StreamMessage.MarshalBinary` of a job. -/
def WebhookStreamMsgData.marshal (data : WebhookStreamMsgData Text) : Text :=
  goObject [("WebhookID", Json.quoted (data.webhookID.map goEscape)),
    ("BlockHeight", numberText data.blockHeight.toNat), ("IsNew", Json.boolText data.isNew)]

/-- The members of the table that the activation script encodes. -/
def activationMembers (id : Text) : List (String × Text) :=
  [("WebhookID", Json.quoted (id.map cjsonEscape)), ("BlockHeight", numberText 0),
    ("IsNew", Json.boolText true)]

/-- `cjson.encode` of a table, whose members come in no particular order. -/
def cjsonObject (members : List (String × Text)) : Text :=
  Json.objectText (members.map fun m => Json.memberText cjsonEscape m.1.toList m.2)

/-- `BlockDocument.MarshalBinary`. -/
def BlockDocument.marshal (block : BlockDocument Bytes) : Text :=
  goObject [("Data", bytesText block.data), ("Height", numberText block.height.toNat)]

/-- `StreamMessage.MarshalBinary` of a block. -/
def BlockStreamMsgData.marshal (data : BlockStreamMsgData Bytes) : Text :=
  goObject [("Block", bytesText data.block), ("Height", numberText data.height.toNat)]

/-! ### The request to a webhook -/

/-- The characters of a Go string, `none` for each byte that is not UTF-8. -/
def runes : List UInt8 → List (Option Char)
  | [] => []
  | b :: bytes =>
    match (b :: bytes).toByteArray.utf8DecodeChar? 0 with
    | some c => some c :: runes (bytes.drop (c.utf8Size - 1))
    | none => none :: runes bytes
termination_by bytes => bytes.length

/-- How `encoding/json` prints a part of a string. -/
def goEscapeRune : Option Char → Text
  | some c => goEscape c
  | none => "\\ufffd".toList

/-- `string(b.Data)`. -/
def BlockDocument.runes (block : BlockDocument Bytes) : List (Option Char) :=
  Native.runes (block.data.bytes.getD [])

/-- The body that the relay posts: `json.MarshalIndent(decodedBlocks, "", " ")`. -/
def postBody (blocks : List (BlockDocument Bytes)) : Text :=
  match blocks.map fun b => Json.quoted (b.runes.map goEscapeRune) with
  | [] => "[]".toList
  | items => Json.arrayText "\n ".toList "\n ".toList "\n".toList items

/-! ## Reading -/

/-- A character of a key, up to case: the Kelvin sign and the long s are letters as well. -/
def foldChar (c : Char) : Char :=
  if 'a' ≤ c ∧ c ≤ 'z' then Char.ofNat (c.toNat - 32)
  else if c = '\u212A' then 'K'
  else if c = '\u017F' then 'S'
  else c

/-- Keys are compared up to case. -/
def foldKey (key : Text) : Text := key.map foldChar

/-- A field of a struct: its name, and how it takes a value. -/
structure Field (σ : Type) where
  name : String
  set : σ → Json → Option σ

/-- A field that `null` leaves as it is. -/
def Field.of {σ ε : Type} (name : String) (decode : Json → Option ε) (put : σ → ε → σ) :
    Field σ where
  name := name
  set
    | s, .null => some s
    | s, value => (decode value).map (put s)

/-- One member of an object. A member that is no field is skipped. -/
def setField {σ : Type} (fields : List (Field σ)) (s : σ) (member : Text × Json) : Option σ :=
  match fields.find? fun f => foldKey f.name.toList = foldKey member.1 with
  | none => some s
  | some f => f.set s member.2

/-- `json.Unmarshal` into a struct. Of two members for one field the later one counts. -/
def unmarshal {σ : Type} (fields : List (Field σ)) (zero : σ) (text : Text) : Option σ :=
  match Json.parse text with
  | some .null => some zero
  | some (.object members) => members.foldlM (setField fields) zero
  | _ => none

/-- A string field. -/
def toText : Json → Option Text
  | .string s => some s
  | _ => none

/-- A `bool` field. -/
def toBool : Json → Option Bool
  | .bool b => some b
  | _ => none

/-- A `uint64` field: `strconv.ParseUint` of the literal. -/
def toUInt64 : Json → Option UInt64
  | .number literal =>
    if literal.all Char.isDigit then
      let n := Nat.ofDigitChars 10 literal 0
      if n < 2 ^ 64 then some (UInt64.ofNat n) else none
    else none
  | _ => none

/-- An element of an array of bytes. -/
def toUInt8 : Json → Option UInt8
  | .null => some 0
  | value => (toUInt64 value).bind fun n =>
    if n.toNat < 2 ^ 8 then some (UInt8.ofNat n.toNat) else none

/-- A `[]byte` field: a string in base64, or an array of numbers. -/
def toBytes : Json → Option Bytes
  | .null => some ⟨none⟩
  | .string s => (Base64.decode s).map fun bytes => ⟨some bytes⟩
  | .array items => (items.mapM toUInt8).map fun bytes => ⟨some bytes⟩
  | _ => none

/-- The fields of `WebhookStreamMsgData`. -/
def webhookStreamMsgFields : List (Field (WebhookStreamMsgData Text)) :=
  [.of "WebhookID" toText fun data id => { data with webhookID := id },
    .of "BlockHeight" toUInt64 fun data height => { data with blockHeight := height },
    .of "IsNew" toBool fun data isNew => { data with isNew := isNew }]

/-- `ParseMessage` of a job. -/
def parseJob : Text → Option (WebhookStreamMsgData Text) :=
  unmarshal webhookStreamMsgFields ⟨[], 0, false⟩

/-- The fields of `BlockDocument`. `null` makes a slice nil. -/
def blockDocumentFields : List (Field (BlockDocument Bytes)) :=
  [⟨"Data", fun block value => (toBytes value).map fun data => { block with data := data }⟩,
    .of "Height" toUInt64 fun block height => { block with height := height }]

/-- `json.Unmarshal` of a block. -/
def parseBlock : Text → Option (BlockDocument Bytes) :=
  unmarshal blockDocumentFields ⟨⟨none⟩, 0⟩

/-- The fields of `BlockStreamMsgData`. -/
def blockStreamMsgFields : List (Field (BlockStreamMsgData Bytes)) :=
  [⟨"Block", fun data value => (toBytes value).map fun block => { data with block := block }⟩,
    .of "Height" toUInt64 fun data height => { data with height := height }]

/-- `ParseMessage` of a block. -/
def parseBlockMsg : Text → Option (BlockStreamMsgData Bytes) :=
  unmarshal blockStreamMsgFields ⟨⟨none⟩, 0⟩

/-! ## What is printed is read -/

theorem hexValue_hexDigit {n : Nat} (h : n < 16) : Json.hexValue (hexDigit n) = some n := by
  have hall : ∀ n < 16, Json.hexValue (hexDigit n) = some n := by decide
  exact hall n h

/-- A character below 256 in four digits. -/
private theorem escape_unit00 {c : Char} (h : c.toNat < 256) : Json.Escape c
    ['\\', 'u', '0', '0', hexDigit (c.toNat / 16), hexDigit (c.toNat % 16)] := by
  have hunit : Json.codeUnit '0' '0' (hexDigit (c.toNat / 16)) (hexDigit (c.toNat % 16)) =
      some c.toNat := by
    have hzero : Json.hexValue '0' = some 0 := rfl
    have hdigits : ((0 * 16 + 0) * 16 + c.toNat / 16) * 16 + c.toNat % 16 = c.toNat := by omega
    rw [Json.codeUnit, hzero, hexValue_hexDigit (by omega), hexValue_hexDigit (by omega)]
    simp only [hdigits]
  have hescape := Json.Escape.unit _ _ _ _ _ hunit (by simp [Json.isHigh]; omega)
    (by simp [Json.isLow]; omega)
  rwa [Char.ofNat_toNat] at hescape

theorem escape_go (c : Char) : Json.Escape c (goEscape c) := by
  unfold goEscape
  split_ifs with hquote hb hf hn hr ht hunit hsep
  · rcases hquote with rfl | rfl
    · exact .short _ _ rfl
    · exact .short _ _ rfl
  · exact hb ▸ .short _ _ rfl
  · exact hf ▸ .short _ _ rfl
  · exact hn ▸ .short _ _ rfl
  · exact hr ▸ .short _ _ rfl
  · exact ht ▸ .short _ _ rfl
  · apply escape_unit00
    rcases hunit with h | rfl | rfl | rfl
    · omega
    · decide
    · decide
    · decide
  · rcases hsep with rfl | rfl
    · exact .unit '2' '0' '2' '8' 0x2028 rfl rfl rfl
    · exact .unit '2' '0' '2' '9' 0x2029 rfl rfl rfl
  · exact .plain c (by omega) (fun h => hquote (.inl h)) (fun h => hquote (.inr h))

theorem escape_cjson (c : Char) : Json.Escape c (cjsonEscape c) := by
  unfold cjsonEscape
  split_ifs with hquote hb ht hn hf hr hunit
  · rcases hquote with rfl | rfl | rfl
    · exact .short _ _ rfl
    · exact .short _ _ rfl
    · exact .short _ _ rfl
  · exact hb ▸ .short _ _ rfl
  · exact ht ▸ .short _ _ rfl
  · exact hn ▸ .short _ _ rfl
  · exact hf ▸ .short _ _ rfl
  · exact hr ▸ .short _ _ rfl
  · exact escape_unit00 (by omega)
  · exact .plain c (by omega) (fun h => hquote (.inl h)) (fun h => hquote (.inr (.inl h)))

/-- A string as `encoding/json` prints it. -/
theorem reads_goString (s : Text) : Json.Reads (.string s) (Json.quoted (s.map goEscape)) :=
  Json.reads_string (Json.escapes_map fun c _ => escape_go c)

/-- A string as cjson prints it. -/
theorem reads_cjsonString (s : Text) : Json.Reads (.string s) (Json.quoted (s.map cjsonEscape)) :=
  Json.reads_string (Json.escapes_map fun c _ => escape_cjson c)

theorem reads_numberText (n : Nat) : Json.Reads (.number (numberText n)) (numberText n) :=
  Json.reads_number n

/-- Printed members that read as the members of an object. -/
private theorem reads_members {escape : Char → Text} (hescape : ∀ c, Json.Escape c (escape c))
    {members : List (String × Json)} {texts : List (String × Text)}
    (h : List.Forall₂ (fun m t => m.1 = t.1 ∧ Json.Reads m.2 t.2) members texts) :
    Json.Reads (.object (members.map fun m => (m.1.toList, m.2)))
      (Json.objectText (texts.map fun t => Json.memberText escape t.1.toList t.2)) := by
  have hmembers : List.Forall₂ (Json.ReadsMember escape)
      (members.map fun m => (m.1.toList, m.2))
      (texts.map fun t => Json.memberText escape t.1.toList t.2) := by
    rw [List.forall₂_map_left_iff, List.forall₂_map_right_iff]
    refine h.imp fun m t hmt => ?_
    obtain ⟨hkey, hvalue⟩ := hmt
    rw [hkey]
    exact .mk (fun c _ => hescape c) hvalue
  exact Json.reads_object hmembers

theorem parse_goObject {members : List (String × Json)} {fields : List (String × Text)}
    (h : List.Forall₂ (fun m t => m.1 = t.1 ∧ Json.Reads m.2 t.2) members fields) :
    Json.parse (goObject fields) = some (.object (members.map fun m => (m.1.toList, m.2))) :=
  Json.parse_of_reads (reads_members escape_go h)

theorem parse_cjsonObject {members : List (String × Json)} {texts : List (String × Text)}
    (h : List.Forall₂ (fun m t => m.1 = t.1 ∧ Json.Reads m.2 t.2) members texts) :
    Json.parse (cjsonObject texts) = some (.object (members.map fun m => (m.1.toList, m.2))) :=
  Json.parse_of_reads (reads_members escape_cjson h)

/-! ### The fields -/

theorem toUInt64_numberText (n : UInt64) : toUInt64 (.number (numberText n.toNat)) = some n := by
  have hdigits : (numberText n.toNat).all Char.isDigit = true := by
    apply List.all_eq_true.2
    intro c hc
    exact Nat.isDigit_of_mem_toDigits (by decide) (by decide) hc
  have hvalue : Nat.ofDigitChars 10 (numberText n.toNat) 0 = n.toNat :=
    Nat.ofDigitChars_ten_toDigits
  simp only [toUInt64, hdigits, if_true, hvalue, if_pos n.toNat_lt, UInt64.ofNat_toNat]

/-- The JSON value of a `[]byte`. -/
def bytesJson (data : Bytes) : Json :=
  match data.bytes with
  | none => .null
  | some bytes => .string (Base64.encode bytes)

theorem reads_bytesText (data : Bytes) : Json.Reads (bytesJson data) (bytesText data) := by
  obtain ⟨data⟩ := data
  cases data with
  | none => exact Json.reads_null
  | some bytes =>
    -- no character of the text needs an escape
    apply Json.reads_string
    apply Json.escapes_map
    have hplain : ∀ n < 64, 0x20 ≤ (Base64.digit n).toNat ∧ Base64.digit n ≠ '"' ∧
        Base64.digit n ≠ '\\' := by decide
    have hall := Base64.forall_mem_encode (P := fun c => 0x20 ≤ c.toNat ∧ c ≠ '"' ∧ c ≠ '\\')
      hplain (by decide) bytes
    intro c hc
    exact .plain c (hall c hc).1 (hall c hc).2.1 (hall c hc).2.2

theorem toBytes_bytesJson (data : Bytes) : toBytes (bytesJson data) = some data := by
  obtain ⟨data⟩ := data
  cases data with
  | none => rfl
  | some bytes => simp [bytesJson, toBytes, Base64.decode_encode]

/-- A member goes to the first field with its key. -/
theorem setField_head {σ : Type} (f : Field σ) (fields : List (Field σ)) (s : σ) (value : Json) :
    setField (f :: fields) s (f.name.toList, value) = f.set s value := by
  simp [setField]

theorem setField_tail {σ : Type} {f : Field σ} {key : Text}
    (h : foldKey f.name.toList ≠ foldKey key) (fields : List (Field σ)) (s : σ) (value : Json) :
    setField (f :: fields) s (key, value) = setField fields s (key, value) := by
  simp [setField, h]

/-! ### Go strings -/

/-- A byte that is not UTF-8 comes out as U+FFFD. -/
theorem escape_goRune (r : Option Char) : Json.Escape (r.getD '\uFFFD') (goEscapeRune r) := by
  cases r with
  | none => exact .unit 'f' 'f' 'f' 'd' 0xFFFD rfl rfl rfl
  | some c => exact escape_go c

/-- The bytes of a text. -/
def utf8 (text : Text) : List UInt8 := text.flatMap String.utf8EncodeChar

theorem runes_utf8 (text : Text) : runes (utf8 text) = text.map some := by
  induction text with
  | nil => simp [utf8, runes]
  | cons c text ih =>
    have hbytes : utf8 (c :: text) = String.utf8EncodeChar c ++ utf8 text := rfl
    obtain ⟨b, bytes, hcons⟩ : ∃ b bytes, String.utf8EncodeChar c = b :: bytes := by
      cases h : String.utf8EncodeChar c with
      | nil =>
        have hlen := String.length_utf8EncodeChar c
        have hpos := c.utf8Size_pos
        simp only [h, List.length_nil] at hlen
        omega
      | cons b bytes => exact ⟨b, bytes, rfl⟩
    have hdecode : (b :: (bytes ++ utf8 text)).toByteArray.utf8DecodeChar? 0 = some c := by
      rw [← List.cons_append, ← hcons]
      exact List.utf8DecodeChar?_utf8Encode_cons (l := text)
    have hlen : c.utf8Size - 1 = bytes.length := by
      have hlen := String.length_utf8EncodeChar c
      rw [hcons, List.length_cons] at hlen
      omega
    rw [hbytes, hcons, List.cons_append, runes, hdecode]
    simp only [hlen, List.drop_left, ih, List.map_cons]

end BlockFeed.Native
