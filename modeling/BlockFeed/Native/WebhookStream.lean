import BlockFeed.Native.BlockStore
import BlockFeed.Native.RedisStream
import Mathlib.Data.Finset.Basic

/-!
# The webhook stream

A `Shard` is the Redis state behind one `WebhookStream`: the webhook set, the pending set, the
stream with its consumer group, and the latest block height. The three Lua scripts that work on
it run atomically, so each is a function on shards: `activate`, `flush`, `xAckDel`.

Jobs lie in the pending set and in the stream as JSON texts, written by Go or by the activation
script. The two need not write the same text for the same job, so texts are a type of their own
and `JobText` says what is known of them.

Numbers in a script are doubles: scores and the latest block height are rounded heights.
-/

namespace BlockFeed.Native

open Redis

/-- `streams.WebhookStreamMsgData`. -/
structure WebhookStreamMsgData (ι : Type) where
  webhookID : ι
  blockHeight : UInt64
  isNew : Bool
deriving DecidableEq, Repr

/-- The JSON texts of jobs: both encoders are inverted by `ParseMessage`. -/
class JobText (ι : outParam Type) (T : Type) where
  /-- `json.Marshal` of a message -/
  marshal : WebhookStreamMsgData ι → T
  /-- `cjson.encode` in the activation script -/
  encode : ι → T
  /-- `ParseMessage` -/
  parse : T → Option (WebhookStreamMsgData ι)
  parse_marshal : ∀ data, parse (marshal data) = some data
  parse_encode : ∀ id, parse (encode id) = some ⟨id, 0, true⟩

/-- The Redis state of one shard. -/
structure Shard (κ ι T : Type) [LinearOrder T] where
  webhookSet : Finset ι
  pendingSet : SortedSet Nat T
  webhookStream : GroupStream κ T
  latestBlockHeight : Option Nat

namespace Shard

variable {κ ι T : Type} [DecidableEq ι] [LinearOrder T] [JobText ι T]

/-- No keys but the stream and its group. -/
def empty : Shard κ ι T := ⟨∅, .empty, .empty, none⟩

/-- The activation script. SMISMEMBER fails on no IDs; ZADD fails on no jobs, after SADD. The
    dashboard sends at most 50 IDs, which `unpack` can take. -/
def activate (shard : Shard κ ι T) (ids : List ι) : Shard κ ι T :=
  if ids.isEmpty then shard
  else
    -- each new job has score 0: it goes to the stream with the next flush
    let jobs := (ids.filter fun id => id ∉ shard.webhookSet).map fun id => (0, JobText.encode id)
    { shard with
      webhookSet := shard.webhookSet ∪ ids.toFinset
      pendingSet := shard.pendingSet.zaddAll jobs }

/-- The first loop of the flush script: ZPOPMIN and XADD until the set is empty. The loop ends
    by itself within as many rounds as the set has members. -/
def popAll : Nat → SortedSet Nat T → GroupStream κ T → SortedSet Nat T × GroupStream κ T
  | 0, pendingSet, stream => (pendingSet, stream)
  | fuel + 1, pendingSet, stream =>
    match pendingSet.zpopmin with
    -- the empty reply, `#elem ~= 2`
    | none => (pendingSet, stream)
    | some ((_, job), rest) => popAll fuel rest (stream.xadd job)

/-- The second loop of the flush script: looks at the first member before each ZPOPMIN. -/
def popBelow (latest : Nat) :
    Nat → SortedSet Nat T → GroupStream κ T → SortedSet Nat T × GroupStream κ T
  | 0, pendingSet, stream => (pendingSet, stream)
  | fuel + 1, pendingSet, stream =>
    match pendingSet.zrange 0 0 with
    | [] => (pendingSet, stream)
    | (blockHeight, job) :: _ =>
      if blockHeight ≥ latest then (pendingSet, stream)
      -- the reply of ZPOPMIN is the entry just read
      else popBelow latest fuel pendingSet.tail (stream.xadd job)

/-- `WebhookStream.Flush`. -/
def flush (shard : Shard κ ι T) (height : UInt64) : Shard κ ι T :=
  let latest := score height
  -- no script runs in between, so the set only shrinks while the loops run
  let rounds := shard.pendingSet.zcard
  let (pendingSet, webhookStream) :=
    match shard.pendingSet.zrange (-1) (-1) with
    | [] => (shard.pendingSet, shard.webhookStream)
    | (maxElem, _) :: _ =>
      if maxElem < latest then popAll rounds shard.pendingSet shard.webhookStream
      else popBelow latest rounds shard.pendingSet shard.webhookStream
  { shard with
    latestBlockHeight := some latest
    pendingSet := pendingSet
    webhookStream := webhookStream }

/-- `WebhookStream.XAckDel`. Without a new message the webhook leaves the shard; with one the
    job goes on, to the pending set or right back to the stream. -/
def xAckDel (shard : Shard κ ι T) (oldMsg : ParsedStreamMessage (WebhookStreamMsgData ι)) :
    Option (WebhookStreamMsgData ι) → Shard κ ι T
  | none =>
    { shard with
      webhookStream := Native.xAckDel shard.webhookStream [oldMsg.id]
      webhookSet := shard.webhookSet.erase oldMsg.data.webhookID }
  | some newMsg =>
    let webhookStream := Native.xAckDel shard.webhookStream [oldMsg.id]
    let newBlockHeight := score newMsg.blockHeight
    let job : T := JobText.marshal newMsg
    match shard.latestBlockHeight with
    -- nothing has been flushed yet
    | none =>
      { shard with
        webhookStream := webhookStream
        pendingSet := shard.pendingSet.zadd newBlockHeight job }
    | some latest =>
      -- a job at the latest height is parked, although its block is stored
      if newBlockHeight ≥ latest then
        { shard with
          webhookStream := webhookStream
          pendingSet := shard.pendingSet.zadd newBlockHeight job }
      else { shard with webhookStream := webhookStream.xadd job }

end Shard

/-- A call of one of the scripts. -/
inductive ShardCall (ι : Type) where
  | activate (ids : List ι)
  | flush (height : UInt64)
  | xAckDel (oldMsg : ParsedStreamMessage (WebhookStreamMsgData ι))
    (newMsg : Option (WebhookStreamMsgData ι))
deriving DecidableEq

namespace Shard

variable {κ ι T : Type} [DecidableEq ι] [LinearOrder T] [JobText ι T]

/-- Runs a script. -/
def call (shard : Shard κ ι T) : ShardCall ι → Shard κ ι T
  | .activate ids => shard.activate ids
  | .flush height => shard.flush height
  | .xAckDel oldMsg newMsg => shard.xAckDel oldMsg newMsg

/-! ### The loops of the flush script -/

omit [DecidableEq ι] [JobText ι T] in
/-- The first loop moves every job. -/
theorem popAll_eq (fuel : Nat) (pendingSet : SortedSet Nat T) (stream : GroupStream κ T)
    (h : pendingSet.zcard ≤ fuel) :
    popAll fuel pendingSet stream = (.empty, stream.xaddAll pendingSet.members) := by
  induction fuel generalizing pendingSet stream with
  | zero =>
    have hnil : pendingSet.entries = [] := List.length_eq_zero_iff.1 (Nat.le_zero.1 h)
    have hempty : pendingSet = .empty := SortedSet.ext hnil
    rw [hempty]
    rfl
  | succ fuel ih =>
    simp only [popAll]
    cases hpop : pendingSet.zpopmin with
    | none =>
      have hempty : pendingSet = .empty := SortedSet.ext (SortedSet.zpopmin_eq_none.1 hpop)
      simp only [hempty, SortedSet.members_empty, GroupStream.xaddAll_nil]
    | some p =>
      -- one job less in the set, and one round less
      obtain ⟨⟨a, job⟩, rest⟩ := p
      have hentries := SortedSet.entries_of_zpopmin hpop
      have hlen : rest.zcard ≤ fuel := by
        have hlen : pendingSet.entries.length = rest.entries.length + 1 := by
          rw [hentries, List.length_cons]
        simp only [SortedSet.zcard] at h ⊢
        omega
      have hmembers : pendingSet.members = job :: rest.members := by
        simp only [SortedSet.members, hentries, List.map_cons]
      simp only [ih rest _ hlen, hmembers, GroupStream.xaddAll_cons]

omit [DecidableEq ι] [JobText ι T] in
/-- The second loop moves the jobs below the limit and keeps the others. -/
theorem popBelow_eq (latest fuel : Nat) (pendingSet : SortedSet Nat T) (stream : GroupStream κ T)
    (h : pendingSet.zcard ≤ fuel) :
    popBelow latest fuel pendingSet stream =
      (pendingSet.restrict (fun e => latest ≤ e.1),
        stream.xaddAll ((pendingSet.entries.filter (fun e => e.1 < latest)).map Prod.snd)) := by
  induction fuel generalizing pendingSet stream with
  | zero =>
    have hnil : pendingSet.entries = [] := List.length_eq_zero_iff.1 (Nat.le_zero.1 h)
    have hempty : pendingSet = .empty := SortedSet.ext hnil
    rw [hempty]
    rfl
  | succ fuel ih =>
    have hfirst : pendingSet.zrange 0 0 = pendingSet.entries.take 1 :=
      pendingSet.zrange_first Nat.one_pos
    simp only [popBelow, hfirst]
    cases hentries : pendingSet.entries with
    | nil =>
      have hempty : pendingSet = .empty := SortedSet.ext hentries
      simp only [hempty]
      rfl
    | cons e es =>
      obtain ⟨a, job⟩ := e
      have hsorted := pendingSet.sorted
      rw [hentries, List.pairwise_cons] at hsorted
      simp only [List.take_succ_cons]
      by_cases ha : a ≥ latest
      · -- the first job is not below the limit, so none is
        have hge : ∀ e ∈ pendingSet.entries, latest ≤ e.1 := by
          intro e he
          rw [hentries] at he
          cases List.mem_cons.1 he with
          | inl he => rw [he]; exact ha
          | inr he => exact Nat.le_trans ha (hsorted.1 e he).score_le
        have hkeep : pendingSet.restrict (fun e => latest ≤ e.1) = pendingSet := by
          apply SortedSet.ext
          exact List.filter_eq_self.2 fun e he => decide_eq_true (hge e he)
        have hmove : ((a, job) :: es).filter (fun e => e.1 < latest) = [] := by
          rw [← hentries]
          apply List.filter_eq_nil_iff.2
          intro e he hlt
          exact Nat.not_lt.2 (hge e he) (of_decide_eq_true hlt)
        rw [if_pos ha, hkeep, hmove]
        rfl
      · -- the first job moves, and the loop goes on with the tail
        have hlt : a < latest := Nat.not_le.1 ha
        have htail : pendingSet.tail.entries = es := by
          show pendingSet.entries.tail = es
          rw [hentries, List.tail_cons]
        have hlen : pendingSet.tail.zcard ≤ fuel := by
          have hlen : pendingSet.entries.length = es.length + 1 := by
            rw [hentries, List.length_cons]
          simp only [SortedSet.zcard, htail] at h ⊢
          omega
        have hrest : pendingSet.tail.restrict (fun e => latest ≤ e.1) =
            pendingSet.restrict (fun e => latest ≤ e.1) := by
          apply SortedSet.ext
          show pendingSet.tail.entries.filter _ = pendingSet.entries.filter _
          rw [htail, hentries, List.filter_cons_of_neg (by simpa using hlt)]
        rw [if_neg ha, ih _ _ hlen, hrest, htail, List.filter_cons_of_pos (by simpa using hlt),
          List.map_cons, GroupStream.xaddAll_cons]

omit [DecidableEq ι] [JobText ι T] in
/-- `Flush` sets the latest height, moves the pending jobs with a lower score to the stream in
    the order of the set, and keeps the others. -/
theorem flush_eq (shard : Shard κ ι T) (height : UInt64) :
    shard.flush height =
      { shard with
        latestBlockHeight := some (score height)
        pendingSet := shard.pendingSet.restrict (fun e => score height ≤ e.1)
        webhookStream := shard.webhookStream.xaddAll
          ((shard.pendingSet.entries.filter (fun e => e.1 < score height)).map Prod.snd) } := by
  have hlast : shard.pendingSet.zrange (-1) (-1) =
      shard.pendingSet.entries.drop (shard.pendingSet.entries.length - 1) :=
    shard.pendingSet.zrange_last Nat.one_pos
  simp only [flush, hlast]
  rcases List.eq_nil_or_concat shard.pendingSet.entries with hnil | ⟨init, last, hentries⟩
  · -- nothing is pending
    have hempty : shard.pendingSet = .empty := SortedSet.ext hnil
    simp only [hempty]
    rfl
  · obtain ⟨maxElem, job⟩ := last
    rw [List.concat_eq_append] at hentries
    have hdrop : shard.pendingSet.entries.drop (shard.pendingSet.entries.length - 1) =
        [(maxElem, job)] := by
      rw [hentries, List.length_append, List.length_singleton, Nat.add_sub_cancel,
        List.drop_left]
    simp only [hdrop]
    by_cases hmax : maxElem < score height
    · -- every job is below the limit
      have hall : ∀ e ∈ shard.pendingSet.entries, e.1 < score height := by
        intro e he
        have hle := SortedSet.score_le_getLast (m := (maxElem, job)) (by rw [hentries]; simp) he
        exact Nat.lt_of_le_of_lt hle hmax
      obtain ⟨hnone, hmove⟩ := SortedSet.split_of_forall_lt hall
      simp only [if_pos hmax, popAll_eq _ _ _ (Nat.le_refl _), hnone, hmove, SortedSet.members]
    · simp only [if_neg hmax, popBelow_eq _ _ _ _ (Nat.le_refl _)]

/-! ### `XAckDel` with a new message -/

/-- A height below the latest block height of the shard. -/
def Behind (shard : Shard κ ι T) (height : UInt64) : Prop :=
  ∃ latest, shard.latestBlockHeight = some latest ∧ score height < latest

omit [LinearOrder T] [DecidableEq ι] [JobText ι T] in
theorem behind_iff [LinearOrder T] {shard : Shard κ ι T} {latest : Nat}
    (h : shard.latestBlockHeight = some latest) (height : UInt64) :
    shard.Behind height ↔ score height < latest := by
  simp only [Behind, h, Option.some.injEq, exists_eq_left']

instance (shard : Shard κ ι T) (height : UInt64) : Decidable (shard.Behind height) :=
  match h : shard.latestBlockHeight with
  | none => .isFalse (by simp [Behind, h])
  | some _ => decidable_of_iff _ (behind_iff h height).symm

/-- A job that is behind goes right back to the stream. -/
theorem xAckDel_behind {shard : Shard κ ι T} {newMsg : WebhookStreamMsgData ι}
    (h : shard.Behind newMsg.blockHeight)
    (oldMsg : ParsedStreamMessage (WebhookStreamMsgData ι)) :
    shard.xAckDel oldMsg (some newMsg) =
      { shard with
        webhookStream :=
          (Native.xAckDel shard.webhookStream [oldMsg.id]).xadd (JobText.marshal newMsg) } := by
  obtain ⟨latest, hlatest, hlt⟩ := h
  simp only [xAckDel, hlatest]
  rw [if_neg (Nat.not_le.2 hlt)]

/-- Any other job is parked. -/
theorem xAckDel_parked {shard : Shard κ ι T} {newMsg : WebhookStreamMsgData ι}
    (h : ¬ shard.Behind newMsg.blockHeight)
    (oldMsg : ParsedStreamMessage (WebhookStreamMsgData ι)) :
    shard.xAckDel oldMsg (some newMsg) =
      { shard with
        webhookStream := Native.xAckDel shard.webhookStream [oldMsg.id]
        pendingSet :=
          shard.pendingSet.zadd (score newMsg.blockHeight) (JobText.marshal newMsg) } := by
  cases hlatest : shard.latestBlockHeight with
  | none => simp only [xAckDel, hlatest]
  | some latest =>
    rw [behind_iff hlatest] at h
    simp only [xAckDel, hlatest]
    rw [if_pos (Nat.not_lt.1 h)]

@[simp] theorem latestBlockHeight_xAckDel (shard : Shard κ ι T)
    (oldMsg : ParsedStreamMessage (WebhookStreamMsgData ι))
    (newMsg : Option (WebhookStreamMsgData ι)) :
    (shard.xAckDel oldMsg newMsg).latestBlockHeight = shard.latestBlockHeight := by
  cases newMsg with
  | none => rfl
  | some newMsg =>
    by_cases h : shard.Behind newMsg.blockHeight
    · rw [xAckDel_behind h]
    · rw [xAckDel_parked h]

/-- What `XAckDel` does to the stream: the entry goes, and a job that is behind comes in. -/
theorem webhookStream_xAckDel (shard : Shard κ ι T)
    (oldMsg : ParsedStreamMessage (WebhookStreamMsgData ι))
    (newMsg : Option (WebhookStreamMsgData ι)) :
    ∃ jobs, (shard.xAckDel oldMsg newMsg).webhookStream =
      (Native.xAckDel shard.webhookStream [oldMsg.id]).xaddAll jobs := by
  cases newMsg with
  | none => exact ⟨[], rfl⟩
  | some data =>
    by_cases hb : shard.Behind data.blockHeight
    · rw [xAckDel_behind hb]
      exact ⟨[JobText.marshal data], rfl⟩
    · rw [xAckDel_parked hb]
      exact ⟨[], rfl⟩

/-- What `XAckDel` does to the PEL: the entry of the old message goes. -/
theorem pel_xAckDel (shard : Shard κ ι T)
    (oldMsg : ParsedStreamMessage (WebhookStreamMsgData ι))
    (newMsg : Option (WebhookStreamMsgData ι)) :
    (shard.xAckDel oldMsg newMsg).webhookStream.pel =
      shard.webhookStream.pel.filter (fun p => p.id ≠ oldMsg.id) := by
  obtain ⟨jobs, hstream⟩ := webhookStream_xAckDel shard oldMsg newMsg
  rw [hstream, GroupStream.pel_xaddAll]
  show shard.webhookStream.pel.filter (fun p => p.id ∉ [oldMsg.id]) = _
  simp only [List.mem_singleton]

@[simp] theorem lastDelivered_xAckDel (shard : Shard κ ι T)
    (oldMsg : ParsedStreamMessage (WebhookStreamMsgData ι))
    (newMsg : Option (WebhookStreamMsgData ι)) :
    (shard.xAckDel oldMsg newMsg).webhookStream.lastDelivered =
      shard.webhookStream.lastDelivered := by
  obtain ⟨jobs, hstream⟩ := webhookStream_xAckDel shard oldMsg newMsg
  rw [hstream, GroupStream.lastDelivered_xaddAll]
  rfl

/-- What `XAckDel` leaves pending: old jobs, and the new one if it is not behind. -/
theorem mem_pendingSet_xAckDel {shard : Shard κ ι T}
    {oldMsg : ParsedStreamMessage (WebhookStreamMsgData ι)}
    {newMsg : Option (WebhookStreamMsgData ι)} {e : Nat × T}
    (h : e ∈ (shard.xAckDel oldMsg newMsg).pendingSet.entries) :
    e ∈ shard.pendingSet.entries ∨ ∃ data, newMsg = some data ∧ ¬ shard.Behind data.blockHeight ∧
      e = (score data.blockHeight, JobText.marshal data) := by
  cases newMsg with
  | none => exact .inl h
  | some data =>
    by_cases hb : shard.Behind data.blockHeight
    · rw [xAckDel_behind hb] at h
      exact .inl h
    · rw [xAckDel_parked hb] at h
      cases SortedSet.mem_entries_zadd.1 h with
      | inl h => exact .inr ⟨data, rfl, hb, h⟩
      | inr h => exact .inl h.1

/-! ### Activation -/

@[simp] theorem webhookSet_activate (shard : Shard κ ι T) (ids : List ι) :
    (shard.activate ids).webhookSet = shard.webhookSet ∪ ids.toFinset := by
  cases ids with
  | nil => simp [activate]
  | cons id ids => rfl

@[simp] theorem webhookStream_activate (shard : Shard κ ι T) (ids : List ι) :
    (shard.activate ids).webhookStream = shard.webhookStream := by
  cases ids with
  | nil => rfl
  | cons id ids => rfl

@[simp] theorem latestBlockHeight_activate (shard : Shard κ ι T) (ids : List ι) :
    (shard.activate ids).latestBlockHeight = shard.latestBlockHeight := by
  cases ids with
  | nil => rfl
  | cons id ids => rfl

/-- The activation script adds one text for each webhook that was not in the set. -/
theorem mem_members_activate {shard : Shard κ ι T} {ids : List ι} {job : T} :
    job ∈ (shard.activate ids).pendingSet.members ↔
      job ∈ shard.pendingSet.members ∨
        ∃ id ∈ ids, id ∉ shard.webhookSet ∧ JobText.encode id = job := by
  cases ids with
  | nil => simp [activate]
  | cons id ids =>
    show job ∈ (shard.pendingSet.zaddAll _).members ↔ _
    rw [SortedSet.mem_members_zaddAll]
    simp only [List.mem_map, List.mem_filter, decide_eq_true_eq]
    constructor
    · rintro (h | ⟨_, ⟨w, ⟨hw, hnew⟩, rfl⟩, rfl⟩)
      · exact .inl h
      · exact .inr ⟨w, hw, hnew, rfl⟩
    · rintro (h | ⟨w, hw, hnew, rfl⟩)
      · exact .inl h
      · exact .inr ⟨_, ⟨w, ⟨hw, hnew⟩, rfl⟩, rfl⟩

/-- What the activation script adds to the pending set is a new job of a webhook that was not
    in the set. -/
theorem mem_pendingSet_activate {shard : Shard κ ι T} {ids : List ι} {e : Nat × T}
    (h : e ∈ (shard.activate ids).pendingSet.entries) :
    e ∈ shard.pendingSet.entries ∨
      ∃ id ∈ ids, id ∉ shard.webhookSet ∧ e = (0, JobText.encode id) := by
  unfold activate at h
  split at h
  · exact .inl h
  · cases SortedSet.mem_entries_zaddAll h with
    | inl h => exact .inl h
    | inr h =>
      obtain ⟨id, hid, rfl⟩ := List.mem_map.1 h
      obtain ⟨hmem, hnew⟩ := List.mem_filter.1 hid
      exact .inr ⟨id, hmem, of_decide_eq_true hnew, rfl⟩

end Shard

/-! ### Texts that are the tuples they encode -/

/-- A job written as webhook ID, height and flag. -/
abbrev TupleText : Type := Nat ×ₗ Nat ×ₗ Bool

instance : JobText Nat TupleText where
  marshal data := toLex (data.webhookID, toLex (data.blockHeight.toNat, data.isNew))
  encode id := toLex (id, toLex (0, true))
  parse text :=
    some ⟨(ofLex text).1, UInt64.ofNat (ofLex (ofLex text).2).1, (ofLex (ofLex text).2).2⟩
  parse_marshal data := by simp
  parse_encode id := rfl

end BlockFeed.Native
