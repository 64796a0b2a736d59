import BlockFeed.Native.WireFormat

/-!
# The keys of a shard

The Go services and the dashboard name the Redis keys of a shard independently of each other. The
scripts run on a cluster, which places a key by its hash tag and runs a script only on keys of one
slot.
-/

namespace Redis

/-- What a cluster hashes of a key: the part between the first `{` and the first `}` after it, if
    there is one and it is not empty. -/
def hashTag (key : List Char) : List Char :=
  match key.dropWhile (· ≠ '{') with
  | [] => key
  | _ :: rest =>
    let tag := rest.takeWhile (· ≠ '}')
    if tag = [] ∨ tag.length = rest.length then key else tag

end Redis

namespace BlockFeed.Native

/-- An integer as `%d` and template strings print it. -/
def intText : Int → Text
  | .ofNat n => numberText n
  | .negSucc n => '-' :: numberText (n + 1)

/-- `strings.Join` -/
def joinTexts (sep : Text) : List Text → Text
  | [] => []
  | [text] => text
  | text :: texts => text ++ sep ++ joinTexts sep texts

/-! ### `streams/utils.go` -/

def separator : Text := ":".toList

def keyNamespace : Text := "block-feed".toList

def webhookStreamName : Text := "webhook-stream".toList

def namespaceJoin (strs : List Text) : Text := joinTexts separator (keyNamespace :: strs)

def shardIdKey (shardID : Int) : Text := "\x7bs".toList ++ intText shardID ++ "\x7d".toList

def getStreamKey (shardID : Int) (name : Text) : Text := namespaceJoin [shardIdKey shardID, name]

def getWebhookSetKey (shardID : Int) : Text :=
  namespaceJoin [shardIdKey shardID, "webhook-set".toList]

def getPendingSetKey (shardID : Int) : Text :=
  namespaceJoin [shardIdKey shardID, "pending-set".toList]

def getLatestBlockHeightKey (shardID : Int) : Text :=
  namespaceJoin [shardIdKey shardID, "latest-block-height".toList]

/-! ### The keys that the scripts are given -/

/-- `WebhookStream.Flush` -/
def flushKeys (shardNum : Int) : List Text :=
  [getLatestBlockHeightKey shardNum, getPendingSetKey shardNum,
    getStreamKey shardNum webhookStreamName]

/-- `WebhookStream.XAckDel` without a new message. -/
def ackKeys (shardNum : Int) : List Text :=
  [getStreamKey shardNum webhookStreamName, getWebhookSetKey shardNum]

/-- `WebhookStream.XAckDel` with a new message. -/
def ackAddKeys (shardNum : Int) : List Text :=
  [getLatestBlockHeightKey shardNum, getPendingSetKey shardNum,
    getStreamKey shardNum webhookStreamName]

/-- `redisClusterProvider.client.activate`: the webhook set and the pending set. -/
def activateKeys (shardId : Int) : List Text :=
  ["block-feed:\x7bs".toList ++ intText shardId ++ "\x7d:webhook-set".toList,
    "block-feed:\x7bs".toList ++ intText shardId ++ "\x7d:pending-set".toList]

/-! ### Which shards there are -/

/-- The shards that the block router flushes. -/
def routerShards (shardCount : Int32) : List Int :=
  (List.range shardCount.toInt.toNat).map Int.ofNat

/-- The shard that a webhook processor serves, or `none` when it does not start. "Shard IDs are
    0-indexed internally (externally they start from index 1)". -/
def processorShard (shardID shardCount : Int32) : Option Int32 :=
  -- `validate:"required,gt=0"` of both
  if shardID ≤ 0 ∨ shardCount ≤ 0 then none
  else
    let shardID := shardID - 1
    if shardID ≥ shardCount then none else some shardID

end BlockFeed.Native
