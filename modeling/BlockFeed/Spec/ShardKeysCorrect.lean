import BlockFeed.Native.ShardKeys
import BlockFeed.Spec.WebhookInvariants

/-!
# Every webhook has a shard that is served

All keys of a shard have the shard's hash tag, so every script finds its keys in one slot, and no
two shards share a key (`script_keys`). A webhook that the API has created is activated on the keys
of exactly one of the shards that the router flushes, and there is exactly one shard ID that a
webhook processor can be started with to serve it (`webhook_served`).
-/

namespace BlockFeed.Spec

open Native Redis

/-! ### Hash tags -/

theorem hashTag_braces {before tag rest : List Char} (hbefore : '{' ∉ before) (htag : '}' ∉ tag)
    (hne : tag ≠ []) : hashTag (before ++ '{' :: (tag ++ '}' :: rest)) = tag := by
  have hdrop : (before ++ '{' :: (tag ++ '}' :: rest)).dropWhile (· ≠ '{') =
      '{' :: (tag ++ '}' :: rest) := by
    have hall : ∀ c ∈ before, decide (c ≠ '{') = true :=
      fun c hc => decide_eq_true (ne_of_mem_of_not_mem hc hbefore)
    rw [List.dropWhile_append_of_pos hall]
    rfl
  have htake : (tag ++ '}' :: rest).takeWhile (· ≠ '}') = tag := by
    have hall : ∀ c ∈ tag, decide (c ≠ '}') = true :=
      fun c hc => decide_eq_true (ne_of_mem_of_not_mem hc htag)
    rw [List.takeWhile_append_of_pos hall]
    simp
  simp only [hashTag, hdrop, htake]
  rw [if_neg]
  simp [hne]

/-! ### Numbers -/

theorem numberText_injective : Function.Injective numberText := by
  intro a b h
  have hvalue : Nat.ofDigitChars 10 (numberText a) 0 = Nat.ofDigitChars 10 (numberText b) 0 := by
    rw [h]
  simpa only [numberText, Nat.ofDigitChars_ten_toDigits] using hvalue

theorem isDigit_of_mem_numberText {n : Nat} {c : Char} (h : c ∈ numberText n) :
    c.isDigit = true := Nat.isDigit_of_mem_toDigits (by decide) (by decide) h

theorem intText_injective : Function.Injective intText := by
  intro a b h
  cases a with
  | ofNat m =>
    cases b with
    | ofNat n => rw [numberText_injective h]
    | negSucc n =>
      have hmem : '-' ∈ numberText m := by
        show '-' ∈ intText (.ofNat m)
        rw [h]
        exact List.mem_cons_self
      exact absurd (isDigit_of_mem_numberText hmem) (by decide)
  | negSucc m =>
    cases b with
    | ofNat n =>
      have hmem : '-' ∈ numberText n := by
        show '-' ∈ intText (.ofNat n)
        rw [← h]
        exact List.mem_cons_self
      exact absurd (isDigit_of_mem_numberText hmem) (by decide)
    | negSucc n =>
      have htail : numberText (m + 1) = numberText (n + 1) := (List.cons.inj h).2
      rw [Nat.succ.inj (numberText_injective htail)]

theorem brace_not_mem_intText (n : Int) : '}' ∉ intText n := by
  intro h
  cases n with
  | ofNat n => exact absurd (isDigit_of_mem_numberText h) (by decide)
  | negSucc n =>
    rcases List.mem_cons.1 h with h | h
    · exact absurd h (by decide)
    · exact absurd (isDigit_of_mem_numberText h) (by decide)

/-! ### The keys of one shard -/

/-- All keys of a shard. -/
def shardKeys (shardNum : Int) : List Text :=
  [getLatestBlockHeightKey shardNum, getPendingSetKey shardNum, getWebhookSetKey shardNum,
    getStreamKey shardNum webhookStreamName]

/-- The keys of a shard have its tag. -/
theorem hashTag_of_mem {shardNum : Int} {key : Text} (h : key ∈ shardKeys shardNum) :
    hashTag key = 's' :: intText shardNum := by
  have hjoin : ∀ name : Text, hashTag (namespaceJoin [shardIdKey shardNum, name]) =
      's' :: intText shardNum := by
    intro name
    have hkey : namespaceJoin [shardIdKey shardNum, name] = (keyNamespace ++ separator) ++ '{' ::
        (('s' :: intText shardNum) ++ '}' :: (separator ++ name)) := by
      have hopen : "\x7bs".toList = ['{', 's'] := rfl
      have hclose : "\x7d".toList = ['}'] := rfl
      simp only [namespaceJoin, joinTexts, shardIdKey, hopen, hclose, List.append_assoc,
        List.cons_append, List.nil_append]
    rw [hkey]
    refine hashTag_braces (by decide) (fun h => ?_) (List.cons_ne_nil _ _)
    rcases List.mem_cons.1 h with h | h
    · exact absurd h (by decide)
    · exact brace_not_mem_intText shardNum h
  simp only [shardKeys, List.mem_cons, List.not_mem_nil, or_false] at h
  rcases h with rfl | rfl | rfl | rfl
  · exact hjoin _
  · exact hjoin _
  · exact hjoin _
  · exact hjoin _

/-- The dashboard names the keys as the Go services do. -/
theorem activateKeys_eq (shardId : Int) :
    activateKeys shardId = [getWebhookSetKey shardId, getPendingSetKey shardId] := by
  have hopen : "block-feed:\x7bs".toList = keyNamespace ++ (separator ++ "\x7bs".toList) := rfl
  have hset : "\x7d:webhook-set".toList = "\x7d".toList ++ (separator ++ "webhook-set".toList) :=
    rfl
  have hpending : "\x7d:pending-set".toList =
      "\x7d".toList ++ (separator ++ "pending-set".toList) := rfl
  simp only [activateKeys, getWebhookSetKey, getPendingSetKey, namespaceJoin, joinTexts, shardIdKey,
    hopen, hset, hpending, List.append_assoc]

/-- Different names make different keys. -/
private theorem key_injective (shardNum : Int) :
    Function.Injective fun name => namespaceJoin [shardIdKey shardNum, name] := by
  intro a b h
  simpa only [namespaceJoin, joinTexts, List.append_cancel_left_eq] using h

/-- The names of the keys of each script. -/
private theorem scriptKeys_cases {shardNum : Int} {keys : List Text}
    (h : keys ∈ [flushKeys shardNum, ackKeys shardNum, ackAddKeys shardNum,
      activateKeys shardNum]) :
    ∃ names : List Text, names.Nodup ∧
      (∀ name ∈ names, namespaceJoin [shardIdKey shardNum, name] ∈ shardKeys shardNum) ∧
      keys = names.map fun name => namespaceJoin [shardIdKey shardNum, name] := by
  rw [activateKeys_eq] at h
  simp only [List.mem_cons, List.not_mem_nil, or_false] at h
  have hlatest : getLatestBlockHeightKey shardNum ∈ shardKeys shardNum := .head _
  have hpending : getPendingSetKey shardNum ∈ shardKeys shardNum := .tail _ (.head _)
  have hset : getWebhookSetKey shardNum ∈ shardKeys shardNum := .tail _ (.tail _ (.head _))
  have hstream : getStreamKey shardNum webhookStreamName ∈ shardKeys shardNum :=
    .tail _ (.tail _ (.tail _ (.head _)))
  have hflush : ∀ name ∈ ["latest-block-height".toList, "pending-set".toList, webhookStreamName],
      namespaceJoin [shardIdKey shardNum, name] ∈ shardKeys shardNum := by
    rintro _ (_ | ⟨_, _ | ⟨_, _ | ⟨_, ⟨⟩⟩⟩⟩)
    · exact hlatest
    · exact hpending
    · exact hstream
  rcases h with rfl | rfl | rfl | rfl
  · exact ⟨_, by decide, hflush, rfl⟩
  · refine ⟨[webhookStreamName, "webhook-set".toList], by decide, ?_, rfl⟩
    rintro _ (_ | ⟨_, _ | ⟨_, ⟨⟩⟩⟩)
    · exact hstream
    · exact hset
  · exact ⟨_, by decide, hflush, rfl⟩
  · refine ⟨["webhook-set".toList, "pending-set".toList], by decide, ?_, rfl⟩
    rintro _ (_ | ⟨_, _ | ⟨_, ⟨⟩⟩⟩)
    · exact hset
    · exact hpending

/-- Every script is given different keys of one shard, which the cluster places by the same tag,
    and another shard has none of them. The keys that the dashboard writes out are the ones that
    the Go services compose. -/
theorem script_keys (shardNum : Int) :
    (∀ keys ∈ [flushKeys shardNum, ackKeys shardNum, ackAddKeys shardNum, activateKeys shardNum],
      keys.Nodup ∧ (∀ key ∈ keys, hashTag key = 's' :: intText shardNum) ∧
        ∀ other, other ≠ shardNum → ∀ key ∈ keys, key ∉ shardKeys other) ∧
      activateKeys shardNum = [getWebhookSetKey shardNum, getPendingSetKey shardNum] := by
  refine ⟨fun keys h => ?_, activateKeys_eq shardNum⟩
  obtain ⟨names, hnodup, hmem, rfl⟩ := scriptKeys_cases h
  have hkeys : ∀ key ∈ names.map fun name => namespaceJoin [shardIdKey shardNum, name],
      key ∈ shardKeys shardNum := by
    intro key hkey
    obtain ⟨name, hname, rfl⟩ := List.mem_map.1 hkey
    exact hmem name hname
  refine ⟨hnodup.map (key_injective shardNum), fun key hkey => hashTag_of_mem (hkeys key hkey),
    fun other hne key hkey hother => ?_⟩
  have htags := (hashTag_of_mem (hkeys key hkey)).symm.trans (hashTag_of_mem hother)
  exact hne (intText_injective (List.cons.inj htags).2).symm

theorem script_keys_flush :
    (flushKeys 12).Nodup ∧ hashTag (getPendingSetKey 12) = ['s', '1', '2'] ∧
      getPendingSetKey 12 ∉ shardKeys 1 ∧
      activateKeys 12 = [getWebhookSetKey 12, getPendingSetKey 12] :=
  have h := (script_keys 12).1 (flushKeys 12) (.head _)
  ⟨h.1, h.2.1 _ (.tail _ (.head _)), h.2.2 1 (by decide) _ (.tail _ (.head _)), (script_keys 12).2⟩

/-! ### The services of a shard -/

theorem mem_routerShards {shardCount : Int32} {shardNum : Int} :
    shardNum ∈ routerShards shardCount ↔ 0 ≤ shardNum ∧ shardNum < shardCount.toInt := by
  simp only [routerShards, List.mem_map, List.mem_range]
  constructor
  · rintro ⟨n, hn, rfl⟩
    simp only [Int.ofNat_eq_natCast]
    omega
  · rintro ⟨hle, hlt⟩
    exact ⟨shardNum.toNat, by omega, by simp only [Int.ofNat_eq_natCast]; omega⟩

/-- Which shard ID makes a processor serve a shard. -/
theorem processorShard_eq {shardID shardCount : Int32} {shardNum : Int} (hle : 0 ≤ shardNum)
    (hlt : shardNum < shardCount.toInt) :
    (processorShard shardID shardCount).map Int32.toInt = some shardNum ↔
      shardID.toInt = shardNum + 1 := by
  have hmax := shardCount.toInt_lt
  have hcount : ¬ shardCount ≤ 0 := by
    rw [Int32.le_iff_toInt_le]
    simp
    omega
  unfold processorShard
  by_cases hid : shardID ≤ 0
  · have hid' : shardID.toInt ≤ 0 := by simpa [Int32.le_iff_toInt_le] using hid
    simp only [hid, true_or, if_true, Option.map_none]
    constructor
    · intro h; cases h
    · intro h; omega
  · have hid' : 0 < shardID.toInt := by
      simpa [Int32.le_iff_toInt_le] using hid
    have hidmax := shardID.toInt_lt
    have hsub : (shardID - 1).toInt = shardID.toInt - 1 := by
      rw [Int32.toInt_sub]
      exact Int.bmod_eq_of_le (by simp; omega) (by simp; omega)
    simp only [hid, hcount, or_self, if_false]
    by_cases hge : shardID - 1 ≥ shardCount
    · have hge' : shardCount.toInt ≤ shardID.toInt - 1 := by
        rw [← hsub]; exact Int32.le_iff_toInt_le.1 hge
      simp only [hge, if_true, Option.map_none]
      constructor
      · intro h; cases h
      · intro h; omega
    · simp only [hge, if_false, Option.map_some, Option.some.injEq, hsub]
      omega

/-- A shard of the router is served by one processor only. -/
theorem existsUnique_processorShard {shardCount : Int32} {shardNum : Int} (hle : 0 ≤ shardNum)
    (hlt : shardNum < shardCount.toInt) :
    ∃! shardID, (processorShard shardID shardCount).map Int32.toInt = some shardNum := by
  have hmax := shardCount.toInt_lt
  have hvalue : (Int32.ofInt (shardNum + 1)).toInt = shardNum + 1 :=
    Int32.toInt_ofInt_of_le (by omega) (by omega)
  refine ⟨Int32.ofInt (shardNum + 1), (processorShard_eq hle hlt).2 hvalue, fun other h => ?_⟩
  exact Int32.toInt_inj.1 (((processorShard_eq hle hlt).1 h).trans hvalue.symm)

section Runs

variable {κ ι τ : Type} [DecidableEq κ] [LinearOrder ι] [ToString ι] [LinearOrder τ]
  {db : Collation} {verify : Text → JwtResult} {isUrl : String → Bool}
  {blockchains : List Blockchain} {calls : κ → ApiCall ι} {s₀ : ApiState ι τ}
  {as : List (PoolAction κ (ApiEvent τ))}
  {p : Pool κ (ApiState ι τ) (Except GraphQLError (ApiResult ι τ))}

/-- The services of a blockchain are started with the number of shards that its row says. -/
theorem webhook_served (hdb : LawfulCollation db)
    (huuid : Function.Injective fun k => (calls k).uuid)
    (hinit : TablesOk db isUrl blockchains s₀)
    (hfresh : ∀ row ∈ s₀.webhooks.rows, ∀ k, row.id ≠ (calls k).uuid)
    (hrun : Transition.run (Pool.step ApiState.event)
      (apiPool db verify isUrl blockchains calls s₀) as = some p)
    {row : WebhookRecord ι τ} (hrow : row ∈ p.shared.webhooks.rows) {blockchain : Blockchain}
    (hfind : blockchains.find? (fun blockchain => db.eq blockchain.id row.blockchainId) =
      some blockchain) {shardCount : Int32} (hcount : blockchain.shardCount = shardCount.toInt) :
    row.shardId ∈ routerShards shardCount ∧
      (∀ key ∈ activateKeys row.shardId, ∀ shardNum,
        key ∈ shardKeys shardNum ↔ shardNum = row.shardId) ∧
      ∃! shardID, (processorShard shardID shardCount).map Int32.toInt = some row.shardId := by
  obtain ⟨blockchain', hfind', hle, hlt⟩ :=
    ((run_keeps hdb huuid hinit hfresh hrun).1.1.rows row hrow).shardId
  rw [hfind, Option.some.injEq] at hfind'
  rw [← hfind', hcount] at hlt
  refine ⟨mem_routerShards.2 ⟨hle, hlt⟩, fun key hkey shardNum => ?_,
    existsUnique_processorShard hle hlt⟩
  obtain ⟨names, -, hmem, hnames⟩ := scriptKeys_cases
    (show activateKeys row.shardId ∈ [flushKeys row.shardId, ackKeys row.shardId,
      ackAddKeys row.shardId, activateKeys row.shardId] by simp)
  rw [hnames] at hkey
  obtain ⟨name, hname, rfl⟩ := List.mem_map.1 hkey
  constructor
  · intro hother
    have htags := (hashTag_of_mem hother).symm.trans (hashTag_of_mem (hmem name hname))
    exact intText_injective (List.cons.inj htags).2
  · rintro rfl
    exact hmem name hname

end Runs

/-- Two new webhooks of a blockchain with two shards. -/
theorem webhook_served_twoCreates :
    ∃ p, Transition.run (Pool.step ApiState.event) twoCreatesPool takeTurns = some p ∧
      p.shared.webhooks.rows.length = 2 ∧
      ∀ row ∈ p.shared.webhooks.rows, row.shardId ∈ routerShards 2 ∧
        ∃! shardID, (processorShard shardID 2).map Int32.toInt = some row.shardId := by
  have hrun : (Transition.run (Pool.step ApiState.event) twoCreatesPool takeTurns).any
      (fun p => p.shared.webhooks.rows.map WebhookRecord.blockchainId = ["flow", "flow"]) = true :=
    rfl
  obtain ⟨p, hp, hchains⟩ := (Option.any_eq_true ..).1 hrun
  have hchains := of_decide_eq_true hchains
  refine ⟨p, hp, by simpa using congrArg List.length hchains, fun row hrow => ?_⟩
  have hchain : row.blockchainId = "flow" := by
    have hmem : row.blockchainId ∈ p.shared.webhooks.rows.map WebhookRecord.blockchainId :=
      List.mem_map_of_mem hrow
    simpa [hchains] using hmem
  obtain ⟨hshard, -, hserved⟩ := webhook_served ⟨by simp, by simp, by simp⟩ twoCreates_uuid
    twoCreates_init (by simp) hp hrow
    (show List.find? _ _ = some (⟨"flow", 2, ""⟩ : Blockchain) by simp [hchain])
    (show (2 : Int) = (2 : Int32).toInt from rfl)
  exact ⟨hshard, hserved⟩

end BlockFeed.Spec
