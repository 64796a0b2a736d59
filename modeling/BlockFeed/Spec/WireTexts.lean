import BlockFeed.ForStd.Transition
import BlockFeed.Native.RedisTexts
import Mathlib.Data.List.Permutation

/-!
# What is written is what is read

Jobs and blocks go between the services as JSON texts. Whichever side wrote a job, `ParseMessage`
reads the job that was meant (`parseJob_of_written`), so the texts satisfy what `JobText` asks for.
A block text passes the block stream, the Redis store and the relay unchanged (`delivered_texts`),
and the Redis store on texts answers every sequence of calls as the store on blocks
(`texts_answers`).
-/

namespace BlockFeed.Spec

open Native

/-! ## Jobs -/

/-- The texts that are written for a job, by the services and by the activation script. -/
inductive JobWritten : WebhookStreamMsgData Text → Text → Prop where
  | marshal (data : WebhookStreamMsgData Text) : JobWritten data data.marshal
  | encode (id : Text) (members : List (String × Text))
    (h : members.Perm (activationMembers id)) : JobWritten ⟨id, 0, true⟩ (cjsonObject members)

section Fields

variable (data : WebhookStreamMsgData Text)

private theorem set_webhookID (id : Text) :
    setField webhookStreamMsgFields data ("WebhookID".toList, .string id) =
      some { data with webhookID := id } :=
  setField_head _ _ data _

private theorem set_blockHeight (height : UInt64) :
    setField webhookStreamMsgFields data
      ("BlockHeight".toList, .number (numberText height.toNat)) =
        some { data with blockHeight := height } := by
  rw [webhookStreamMsgFields, setField_tail (by decide)]
  refine (setField_head _ _ data _).trans ?_
  simp only [Field.of, toUInt64_numberText, Option.map_some]

private theorem set_isNew (isNew : Bool) :
    setField webhookStreamMsgFields data ("IsNew".toList, .bool isNew) =
      some { data with isNew := isNew } := by
  rw [webhookStreamMsgFields, setField_tail (by decide), setField_tail (by decide)]
  exact setField_head _ _ data _

end Fields

private theorem parseJob_marshal (data : WebhookStreamMsgData Text) :
    parseJob data.marshal = some data := by
  have hread : List.Forall₂ (fun (m : String × Json) (t : String × Text) =>
      m.1 = t.1 ∧ Json.Reads m.2 t.2)
      [("WebhookID", .string data.webhookID),
        ("BlockHeight", .number (numberText data.blockHeight.toNat)), ("IsNew", .bool data.isNew)]
      [("WebhookID", Json.quoted (data.webhookID.map goEscape)),
        ("BlockHeight", numberText data.blockHeight.toNat), ("IsNew", Json.boolText data.isNew)] :=
    .cons ⟨rfl, reads_goString _⟩ (.cons ⟨rfl, reads_numberText _⟩
      (.cons ⟨rfl, Json.reads_bool _⟩ .nil))
  simp only [parseJob, unmarshal, WebhookStreamMsgData.marshal, parse_goObject hread, List.map_cons,
    List.map_nil, List.foldlM_cons, List.foldlM_nil, set_webhookID, set_blockHeight, set_isNew,
    Option.bind_eq_bind, Option.bind_some]
  rfl

/-- The member of a table that the activation script encodes, as a value. -/
private def activationValue (id : Text) (m : String × Text) : Json :=
  if m.1 = "WebhookID" then .string id
  else if m.1 = "BlockHeight" then .number (numberText 0)
  else .bool true

private theorem parseJob_encode (id : Text) {members : List (String × Text)}
    (h : members.Perm (activationMembers id)) :
    parseJob (cjsonObject members) = some ⟨id, 0, true⟩ := by
  have hread : List.Forall₂ (fun (m : String × Json) (t : String × Text) =>
      m.1 = t.1 ∧ Json.Reads m.2 t.2)
      (members.map fun m => (m.1, activationValue id m)) members := by
    rw [List.forall₂_map_left_iff, List.forall₂_same]
    intro m hm
    refine ⟨rfl, ?_⟩
    have hmem := h.mem_iff.1 hm
    simp only [activationMembers, List.mem_cons, List.not_mem_nil, or_false] at hmem
    rcases hmem with rfl | rfl | rfl
    · exact reads_cjsonString id
    · exact reads_numberText 0
    · exact Json.reads_bool true
  simp only [parseJob, unmarshal, parse_cjsonObject hread]
  have hid : ∀ text, activationValue id ("WebhookID", text) = .string id := fun _ => rfl
  have hheight : ∀ text, activationValue id ("BlockHeight", text) =
      .number (numberText (0 : UInt64).toNat) := fun _ => rfl
  have hnew : ∀ text, activationValue id ("IsNew", text) = .bool true := fun _ => rfl
  -- each order of the three members sets the same fields
  rw [← List.mem_permutations'] at h
  simp only [activationMembers, List.permutations', List.permutations'Aux, List.flatMap_cons,
    List.flatMap_nil, List.append_nil, List.map_cons, List.map_nil, List.mem_cons, List.cons_append,
    List.nil_append, List.not_mem_nil, or_false] at h
  rcases h with rfl | rfl | rfl | rfl | rfl | rfl <;>
    simp only [List.map_cons, List.map_nil, List.foldlM_cons, List.foldlM_nil, hid, hheight, hnew,
      set_webhookID, set_blockHeight, set_isNew, Option.bind_eq_bind, Option.bind_some] <;>
    rfl

/-- Whoever wrote a job, `ParseMessage` reads the job that was meant: whatever characters are in
    the ID, and in whatever order the script prints the members. -/
theorem parseJob_of_written {data : WebhookStreamMsgData Text} {text : Text}
    (h : JobWritten data text) : parseJob text = some data := by
  cases h with
  | marshal => exact parseJob_marshal data
  | encode id members hmembers => exact parseJob_encode id hmembers

/-- An ID that needs escapes, and the members in another order than the table lists them. -/
theorem parseJob_of_written_reordered :
    parseJob (cjsonObject [("IsNew", Json.boolText true),
      ("WebhookID", Json.quoted (['a', '/', '"', '\n', 'é'].map cjsonEscape)),
      ("BlockHeight", numberText 0)]) = some ⟨['a', '/', '"', '\n', 'é'], 0, true⟩ :=
  parseJob_of_written (.encode _ _ (by
    rw [← List.mem_permutations']
    decide))

/-- Jobs as they are stored. -/
instance : JobText Text Text where
  marshal := WebhookStreamMsgData.marshal
  encode id := cjsonObject (activationMembers id)
  parse := parseJob
  parse_marshal data := parseJob_marshal data
  parse_encode id := parseJob_encode id (.refl _)

/-! ## Blocks -/

section Fields

private theorem set_data (block : BlockDocument Bytes) (data : Bytes) :
    setField blockDocumentFields block ("Data".toList, bytesJson data) =
      some { block with data := data } := by
  refine (setField_head _ _ block _).trans ?_
  simp only [toBytes_bytesJson, Option.map_some]

private theorem set_height (block : BlockDocument Bytes) (height : UInt64) :
    setField blockDocumentFields block ("Height".toList, .number (numberText height.toNat)) =
      some { block with height := height } := by
  rw [blockDocumentFields, setField_tail (by decide)]
  refine (setField_head _ _ block _).trans ?_
  simp only [Field.of, toUInt64_numberText, Option.map_some]

private theorem set_block (msg : BlockStreamMsgData Bytes) (block : Bytes) :
    setField blockStreamMsgFields msg ("Block".toList, bytesJson block) =
      some { msg with block := block } := by
  refine (setField_head _ _ msg _).trans ?_
  simp only [toBytes_bytesJson, Option.map_some]

private theorem set_msgHeight (msg : BlockStreamMsgData Bytes) (height : UInt64) :
    setField blockStreamMsgFields msg ("Height".toList, .number (numberText height.toNat)) =
      some { msg with height := height } := by
  rw [blockStreamMsgFields, setField_tail (by decide)]
  refine (setField_head _ _ msg _).trans ?_
  simp only [Field.of, toUInt64_numberText, Option.map_some]

end Fields

private theorem reads_block (key : String) (data : Bytes) (height : UInt64) :
    List.Forall₂ (fun (m : String × Json) (t : String × Text) => m.1 = t.1 ∧ Json.Reads m.2 t.2)
      [(key, bytesJson data), ("Height", .number (numberText height.toNat))]
      [(key, bytesText data), ("Height", numberText height.toNat)] :=
  .cons ⟨rfl, reads_bytesText data⟩ (.cons ⟨rfl, reads_numberText _⟩ .nil)

theorem parseBlock_marshal (block : BlockDocument Bytes) :
    parseBlock block.marshal = some block := by
  simp only [parseBlock, unmarshal, BlockDocument.marshal, parse_goObject (reads_block ..),
    List.map_cons, List.map_nil, List.foldlM_cons, List.foldlM_nil, set_data, set_height,
    Option.bind_eq_bind, Option.bind_some]
  rfl

theorem parseBlockMsg_marshal (msg : BlockStreamMsgData Bytes) :
    parseBlockMsg msg.marshal = some msg := by
  simp only [parseBlockMsg, unmarshal, BlockStreamMsgData.marshal, parse_goObject (reads_block ..),
    List.map_cons, List.map_nil, List.foldlM_cons, List.foldlM_nil, set_block, set_msgHeight,
    Option.bind_eq_bind, Option.bind_some]
  rfl

/-- Block texts determine the block, so a member of the set stands for one block. -/
theorem blockMarshal_injective : Function.Injective BlockDocument.marshal := by
  intro a b h
  have hparse := congrArg parseBlock h
  rw [parseBlock_marshal, parseBlock_marshal] at hparse
  exact Option.some.inj hparse

/-! ### The request to a webhook -/

/-- What the relay posts reads as the list of the block texts. -/
theorem parse_postBody (blocks : List (BlockDocument Bytes)) :
    Json.parse (postBody blocks) =
      some (.array (blocks.map fun b => .string (b.runes.map fun r => r.getD '\uFFFD'))) := by
  apply Json.parse_of_reads
  have hitems : List.Forall₂ Json.Reads
      (blocks.map fun b => .string (b.runes.map fun r => r.getD '\uFFFD'))
      (blocks.map fun b => Json.quoted (b.runes.map goEscapeRune)) := by
    rw [List.forall₂_map_left_iff, List.forall₂_map_right_iff, List.forall₂_same]
    intro b _
    apply Json.reads_string
    rw [List.forall₂_map_left_iff, List.forall₂_map_right_iff, List.forall₂_same]
    exact fun r _ => escape_goRune r
  cases blocks with
  | nil =>
    have hnone : ∀ c ∈ ([] : List Char), Json.isSpace c = true := by simp
    exact Json.reads_array hnone hnone hnone .nil
  | cons b blocks =>
    have hspace : ∀ c ∈ "\n ".toList, Json.isSpace c = true := by simp [Json.isSpace]
    have hbreak : ∀ c ∈ "\n".toList, Json.isSpace c = true := by simp [Json.isSpace]
    exact Json.reads_array hspace hspace hbreak hitems

/-- A block on its way: printed onto the block stream, parsed by the router, printed into the
    store, parsed by the relay. -/
def passBlock (data : Text) (height : UInt64) : Option (BlockDocument Bytes) := do
  let msg ← parseBlockMsg (BlockStreamMsgData.marshal ⟨⟨some (utf8 data)⟩, height⟩)
  parseBlock (BlockDocument.marshal ⟨msg.block, msg.height⟩)

/-- The texts that a webhook receives are the texts that the forwarder made, whatever characters
    are in them. -/
theorem delivered_texts (sent : List (Text × UInt64)) :
    (sent.mapM fun b => passBlock b.1 b.2).bind (fun blocks => Json.parse (postBody blocks)) =
      some (.array (sent.map fun b => .string b.1)) := by
  have hpass : ∀ b : Text × UInt64, passBlock b.1 b.2 = some ⟨⟨some (utf8 b.1)⟩, b.2⟩ := by
    intro b
    simp only [passBlock, parseBlockMsg_marshal, parseBlock_marshal, Option.bind_eq_bind,
      Option.bind_some]
  have hmap : (sent.mapM fun b => passBlock b.1 b.2) =
      some (sent.map fun b => ⟨⟨some (utf8 b.1)⟩, b.2⟩) := by
    simp only [hpass]
    exact List.mapM_pure
  have htexts : ∀ b : Text × UInt64,
      (BlockDocument.runes ⟨⟨some (utf8 b.1)⟩, b.2⟩).map (fun r => r.getD '\uFFFD') = b.1 := by
    intro b
    simp [BlockDocument.runes, runes_utf8]
  rw [hmap, Option.bind_some, parse_postBody]
  simp only [List.map_map, Function.comp_def, htexts]

/-! ## The store on texts -/

/-- Redis orders members of one score by their texts. -/
instance : LinearOrder (BlockDocument Bytes) :=
  LinearOrder.lift' BlockDocument.marshal blockMarshal_injective

/-- Printing keeps the order. -/
def marshalEmbedding : BlockDocument Bytes ↪o Text where
  toFun := BlockDocument.marshal
  inj' := blockMarshal_injective
  map_rel_iff' := Iff.rfl

/-- The members of the one set are the texts of the blocks in the other. -/
def PrintedAs (store : RedisBlockStore Bytes) (set : RedisTexts) : Prop :=
  set = store.set.map marshalEmbedding

/-- Parsing the texts of blocks. -/
private theorem parseBlocks_texts (entries : List (Nat × BlockDocument Bytes)) (asc : Bool) :
    RedisTexts.parseBlocks
        ((entries.map fun e => (e.1, marshalEmbedding e.2)).map Prod.snd) asc =
      some (if asc then entries.map Prod.snd else (entries.map Prod.snd).reverse) := by
  have hmap : ((entries.map fun e => (e.1, marshalEmbedding e.2)).map Prod.snd).mapM parseBlock =
      some (entries.map Prod.snd) := by
    rw [List.map_map, List.mapM_map]
    show (entries.mapM fun e => parseBlock e.2.marshal) = _
    simp only [parseBlock_marshal]
    exact List.mapM_pure
  rw [RedisTexts.parseBlocks, hmap, Option.map_some]

section Calls

variable {store : RedisBlockStore Bytes} {set : RedisTexts} (h : PrintedAs store set)

include h

private theorem texts_getBlocks (startHeight endHeight : UInt64) :
    RedisTexts.getBlocks set startHeight endHeight =
      some (store.getBlocks startHeight endHeight) := by
  unfold RedisTexts.getBlocks RedisBlockStore.getBlocks
  split
  · rfl
  · rw [h, Redis.SortedSet.zrangeByScore_map, parseBlocks_texts]
    rfl

private theorem texts_getLatestBlocks (limit : Int) :
    RedisTexts.getLatestBlocks set limit = some (store.getLatestBlocks limit) := by
  unfold RedisTexts.getLatestBlocks RedisBlockStore.getLatestBlocks
  split
  · rfl
  · rw [h, Redis.SortedSet.zrange_map, parseBlocks_texts]
    rfl

private theorem texts_getEarliestBlocks (limit : Int) :
    RedisTexts.getEarliestBlocks set limit = some (store.getEarliestBlocks limit) := by
  unfold RedisTexts.getEarliestBlocks RedisBlockStore.getEarliestBlocks
  split
  · rfl
  · rw [h, Redis.SortedSet.zrange_map, parseBlocks_texts]
    rfl

private theorem texts_putBlocks (blocks : List (BlockDocument Bytes)) :
    PrintedAs (store.putBlocks blocks) (RedisTexts.putBlocks set blocks) := by
  have hmap := store.set.zaddNXAll_map marshalEmbedding (blocks.map fun b => (score b.height, b))
  rw [← h, List.map_map] at hmap
  exact hmap

private theorem texts_deleteBlocks (blocks : List (BlockDocument Bytes)) :
    PrintedAs (store.deleteBlocks blocks) (RedisTexts.deleteBlocks set blocks) := by
  unfold PrintedAs RedisTexts.deleteBlocks
  simp only [RedisBlockStore.deleteBlocks]
  split
  · exact h
  · have hmap := store.set.zremAll_map marshalEmbedding blocks
    rw [← h] at hmap
    exact hmap

/-- A call keeps the texts and gives the same result. -/
theorem texts_call (call : RedisCall Bytes) :
    PrintedAs (store.call call).1 (RedisTexts.call set call).1 ∧
      (store.call call).2 = (RedisTexts.call set call).2 := by
  cases call with
  | putBlocks blocks => exact ⟨texts_putBlocks h blocks, rfl⟩
  | getBlocks startHeight endHeight =>
    exact ⟨h, (texts_getBlocks h startHeight endHeight).symm⟩
  | getLatestBlock =>
    refine ⟨h, ?_⟩
    show _ = (RedisTexts.getLatestBlocks set 1).map _
    rw [texts_getLatestBlocks h]
    rfl
  | getLatestBlocks limit => exact ⟨h, (texts_getLatestBlocks h limit).symm⟩
  | getEarliestBlocks limit => exact ⟨h, (texts_getEarliestBlocks h limit).symm⟩
  | deleteBlocks blocks => exact ⟨texts_deleteBlocks h blocks, rfl⟩

end Calls

/-- The store on texts answers every sequence of calls as the store on blocks does, and ends with
    the texts of its blocks. In particular every member that it reads can be parsed. -/
theorem texts_answers (calls : List (RedisCall Bytes)) :
    PrintedAs (Transition.answers RedisBlockStore.call .empty calls).1
        (Transition.answers RedisTexts.call .empty calls).1 ∧
      (Transition.answers RedisBlockStore.call .empty calls).2 =
        (Transition.answers RedisTexts.call .empty calls).2 :=
  Transition.answers_simulates (R := PrintedAs) (fun _ _ call h => texts_call h call) rfl calls

end BlockFeed.Spec
