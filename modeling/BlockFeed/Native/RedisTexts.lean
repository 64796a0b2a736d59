import BlockFeed.Native.WireFormat
import Mathlib.Data.Char
import Mathlib.Data.List.Lex

/-!
# The Redis block store on texts

`RedisTexts` is the sorted set of one chain as Redis holds it, with the JSON texts of the blocks as
members. Each call of the store prints the blocks it is given and parses the members it reads; a
member that does not parse is an error. `RedisBlockStore` is the same store on blocks.
-/

namespace BlockFeed.Native

open Redis

/-- A call of the store. -/
inductive RedisCall (β : Type) where
  | putBlocks (blocks : List (BlockDocument β))
  | getBlocks (startHeight endHeight : UInt64)
  | getLatestBlock
  | getLatestBlocks (limit : Int)
  | getEarliestBlocks (limit : Int)
  | deleteBlocks (blocks : List (BlockDocument β))

/-- A call of the store on blocks, with its result: `none` is an error. -/
def RedisBlockStore.call {β : Type} [LinearOrder (BlockDocument β)] (store : RedisBlockStore β) :
    RedisCall β → RedisBlockStore β × Option (List (BlockDocument β))
  -- ZADD fails without members
  | .putBlocks blocks => (store.putBlocks blocks, if blocks.isEmpty then none else some [])
  | .getBlocks startHeight endHeight => (store, some (store.getBlocks startHeight endHeight))
  | .getLatestBlock => (store, some store.getLatestBlock.toList)
  | .getLatestBlocks limit => (store, some (store.getLatestBlocks limit))
  | .getEarliestBlocks limit => (store, some (store.getEarliestBlocks limit))
  | .deleteBlocks blocks => (store.deleteBlocks blocks, some [])

/-- The members are the texts of blocks. -/
abbrev RedisTexts : Type := SortedSet Nat Text

namespace RedisTexts

/-- `parseBlocks`. -/
def parseBlocks (rawBlocks : List Text) (asc : Bool) : Option (List (BlockDocument Bytes)) :=
  (rawBlocks.mapM parseBlock).map fun blocks => if asc then blocks else blocks.reverse

/-- `PutBlocks`. -/
def putBlocks (set : RedisTexts) (blocks : List (BlockDocument Bytes)) : RedisTexts :=
  set.zaddNXAll (blocks.map fun b => (score b.height, b.marshal))

/-- `GetBlocks`. -/
def getBlocks (set : RedisTexts) (startHeight endHeight : UInt64) :
    Option (List (BlockDocument Bytes)) :=
  if startHeight > endHeight then some []
  else parseBlocks ((set.zrangeByScore (score startHeight) (score endHeight)).map Prod.snd) true

/-- `GetLatestBlocks`. -/
def getLatestBlocks (set : RedisTexts) (limit : Int) : Option (List (BlockDocument Bytes)) :=
  if limit ≤ 0 then some []
  else parseBlocks ((set.zrange (-limit) (-1)).map Prod.snd) false

/-- `GetLatestBlock`. -/
def getLatestBlock (set : RedisTexts) : Option (List (BlockDocument Bytes)) :=
  (getLatestBlocks set 1).map fun blocks => blocks.head?.toList

/-- `GetEarliestBlocks`. -/
def getEarliestBlocks (set : RedisTexts) (limit : Int) : Option (List (BlockDocument Bytes)) :=
  if limit ≤ 0 then some []
  else parseBlocks ((set.zrange 0 (limit - 1)).map Prod.snd) true

/-- `DeleteBlocks`: the blocks are printed again. -/
def deleteBlocks (set : RedisTexts) (blocks : List (BlockDocument Bytes)) : RedisTexts :=
  if blocks.isEmpty then set else set.zremAll (blocks.map BlockDocument.marshal)

/-- A call with its result: `none` is an error. -/
def call (set : RedisTexts) : RedisCall Bytes → RedisTexts × Option (List (BlockDocument Bytes))
  | .putBlocks blocks => (putBlocks set blocks, if blocks.isEmpty then none else some [])
  | .getBlocks startHeight endHeight => (set, getBlocks set startHeight endHeight)
  | .getLatestBlock => (set, getLatestBlock set)
  | .getLatestBlocks limit => (set, getLatestBlocks set limit)
  | .getEarliestBlocks limit => (set, getEarliestBlocks set limit)
  | .deleteBlocks blocks => (deleteBlocks set blocks, some [])

end RedisTexts

end BlockFeed.Native
