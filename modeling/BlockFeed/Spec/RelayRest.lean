import BlockFeed.Spec.GaplessReads
import BlockFeed.Spec.RelayNonEmpty

/-!
# The relays come to rest

A job that a relay hands back is for a later height, or for the same webhook once it is no longer
new, and it goes back to the stream only while its height is below the latest one. So between two
flushes of a shard its relays acknowledge a bounded number of messages, whatever fails, crashes or
is activated meanwhile (`relay_comesToRest`). Once the stream is empty every webhook waits for a
flush: nothing that its job is for lies below the latest height.

The heights have to be exact as doubles. Otherwise a read by score may return the block before the
one that was asked for, and a job may be handed back as it was.
-/

namespace BlockFeed.Spec

open BlockFeed.Native Redis Transition

/-! ## The measure -/

section Work

variable {κ ι T : Type} [JobText ι T]

/-- How often a job in the stream can still be acknowledged. A new one may first be moved up to the
    latest height, and its webhook may then start anywhere below. -/
def jobWork (latest : Nat) (job : T) : Nat :=
  match (JobText.parse job : Option (WebhookStreamMsgData ι)) with
  | none => 0
  | some data =>
    if data.isNew then (latest - data.blockHeight.toNat) + latest + 2
    else latest - data.blockHeight.toNat + 1

/-- The same for all jobs of a stream. -/
def worth (latest : Nat) : List T → Nat
  | [] => 0
  | job :: jobs => jobWork latest job + worth latest jobs

/-- The messages of a shard that can be acknowledged until the next flush. -/
def workLeft [LinearOrder T] (shard : Shard κ ι T) : Nat :=
  worth (shard.latestBlockHeight.getD 0) (shard.webhookStream.entries.map Prod.snd)

theorem worth_perm {latest : Nat} {js js' : List T} (h : js.Perm js') :
    worth latest js = worth latest js' := by
  induction h with
  | nil => rfl
  | cons job _ ih => simp only [worth, ih]
  | swap job job' js =>
    simp only [worth]
    omega
  | trans _ _ ih ih' => exact ih.trans ih'

theorem worth_concat (latest : Nat) (js : List T) (job : T) :
    worth latest (js ++ [job]) = worth latest js + jobWork latest job := by
  induction js with
  | nil => simp [worth]
  | cons job' js ih =>
    simp only [List.cons_append, worth, ih]
    omega

/-- The new job of a handler, for the job it works on: a webhook never becomes new again, and
    apart from its first delivery it goes on to a later height. -/
structure Advances (old new : WebhookStreamMsgData ι) : Prop where
  isNew : old.isNew = false → new.isNew = false
  later : new.isNew = old.isNew → old.blockHeight.toNat < new.blockHeight.toNat

/-- A job that goes back to the stream is worth less than the one it replaces. -/
theorem jobWork_lt {latest : Nat} {job : T} {old new : WebhookStreamMsgData ι}
    (hjob : JobText.parse job = some old) (h : Advances old new)
    (hbehind : new.blockHeight.toNat < latest) :
    jobWork latest (JobText.marshal new : T) < jobWork latest job := by
  simp only [jobWork, hjob, JobText.parse_marshal]
  cases hold : old.isNew with
  | true =>
    cases hnew : new.isNew with
    | true =>
      have hlater := h.later (hnew.trans hold.symm)
      simp only [if_true]
      omega
    | false =>
      simp only [if_true, Bool.false_eq_true, if_false]
      omega
  | false =>
    have hnew := h.isNew hold
    have hlater := h.later (hnew.trans hold.symm)
    simp only [hnew, Bool.false_eq_true, if_false]
    omega

theorem jobWork_pos {latest : Nat} {job : T} {data : WebhookStreamMsgData ι}
    (hjob : JobText.parse job = some data) : 0 < jobWork latest job := by
  simp only [jobWork, hjob]
  split
  · omega
  · omega

end Work

/-! ## What is read for a job -/

section Reads

variable {ι β : Type} {top : Nat}

/-- A block that may be read for a job: one that is not new gets nothing below its height. -/
structure ReadFor (top : Nat) (data : WebhookStreamMsgData ι) (height : UInt64) : Prop where
  bounded : height.toNat ≤ top
  from_height : data.isNew = false → data.blockHeight.toNat ≤ height.toNat

/-- What the wrapped store adds to a read is for the job, too. -/
def RangeFor (data : WebhookStreamMsgData ι) : CacheRead β → Prop
  | .done _ => True
  | .getBlocks startHeight _ _ =>
    data.isNew = false → data.blockHeight.toNat ≤ startHeight.toNat
  | .getLatestBlocks _ => data.isNew = true
  | .mergeBlocks _ _ _ => data.isNew = true

/-- What the next call of a handler may rely on. -/
def CallFor (top : Nat) (data : WebhookStreamMsgData ι) : RelayCall ι β → Prop
  | .readWrapped read => RangeFor data read ∧ ∀ b ∈ dirtyBlocks read, ReadFor top data b.height
  | .post blocks => ∀ b ∈ blocks, ReadFor top data b.height
  | .xAckDel newMsg => ∀ new, newMsg = some new → Advances data new
  | _ => True

/-- The answers of the block store to a handler that works on a job. -/
structure AnswersFor (top : Nat) (data : WebhookStreamMsgData ι) (action : ConsumerAction β) :
    Prop where
  readCache : ∀ answer, action = .readCache answer →
    RangeFor data answer ∧ ∀ b ∈ dirtyBlocks answer, ReadFor top data b.height
  readWrapped : ∀ blocks, action = .readWrapped blocks → ∀ b ∈ blocks, ReadFor top data b.height

/-- Blocks from the wrapped store after those from the cache. -/
theorem readFor_finish {data : WebhookStreamMsgData ι} {wrappedStore : TimescaleBlockStore β}
    (hrows : ∀ r ∈ wrappedStore.rows, r.height.toNat ≤ top) {read : CacheRead β}
    (hrange : RangeFor data read) (hdirty : ∀ b ∈ dirtyBlocks read, ReadFor top data b.height)
    {b : BlockDocument β} (hb : b ∈ read.finish wrappedStore) : ReadFor top data b.height := by
  cases mem_finish hb with
  | inl hb => exact hdirty b hb
  | inr hrow =>
    have hbound := hrows b hrow
    cases read with
    | done blocks => exact hdirty b hb
    | getBlocks startHeight endHeight blocks =>
      cases List.mem_append.1 hb with
      | inl hb =>
        have hstart := (TimescaleBlockStore.mem_getBlocks.1 hb).2.1
        exact ⟨hbound, fun hold => Nat.le_trans (hrange hold) hstart⟩
      | inr hb => exact hdirty b hb
    | getLatestBlocks limit =>
      have hnew : data.isNew = true := hrange
      exact ⟨hbound, fun hold => by simp [hnew] at hold⟩
    | mergeBlocks startHeight endHeight blocks =>
      have hnew : data.isNew = true := hrange
      exact ⟨hbound, fun hold => by simp [hnew] at hold⟩

variable [LinearOrder (BlockDocument β)]

/-- The cache compares scores. -/
theorem score_le_of_mem_readBlocks {store : RedisOptimizedBlockStore β}
    {startHeight endHeight : UInt64} {b : BlockDocument β}
    (h : b ∈ dirtyBlocks (store.readBlocks startHeight endHeight)) :
    score startHeight ≤ score b.height := by
  simp only [RedisOptimizedBlockStore.readBlocks] at h
  split at h
  · cases h
  · split at h
    · cases h
    · have hmem : b ∈ store.redisStore.getBlocks startHeight endHeight := by
        split at h
        · exact h
        · split at h
          · cases h
          · next hcons => rw [hcons]; exact h
      exact (RedisBlockStore.mem_getBlocks.1 hmem).2.2.1

/-- The first call of a read for a job whose height is exact. -/
theorem readFor_relayRead (htop : top < 2 ^ 53) {store : RedisOptimizedBlockStore β}
    (hcached : ∀ b ∈ store.redisStore.blocks, b.height.toNat ≤ top)
    {data : WebhookStreamMsgData ι} (hdata : data.blockHeight.toNat ≤ top) (webhook : Webhook) :
    RangeFor data (relayRead store data webhook) ∧
      ∀ b ∈ dirtyBlocks (relayRead store data webhook), ReadFor top data b.height := by
  unfold relayRead
  split
  · next hnew =>
    refine ⟨?_, fun b hb => ?_⟩
    · simp only [RedisOptimizedBlockStore.readLatestBlocks]
      split
      · trivial
      · split
        · trivial
        · split
          · exact hnew
          · exact hnew
    · have hbound := hcached b (dirtyBlocks_readLatestBlocks hb)
      exact ⟨hbound, fun hold => by simp [hnew] at hold⟩
  · refine ⟨?_, fun b hb => ?_⟩
    · simp only [RedisOptimizedBlockStore.readBlocks]
      split
      · trivial
      · split
        · trivial
        · split
          · trivial
          · split
            · exact fun _ => Nat.le_refl _
            · exact fun _ => Nat.le_refl _
    · have hbound := hcached b (dirtyBlocks_readBlocks hb)
      refine ⟨hbound, fun _ => ?_⟩
      have hscore := score_le_of_mem_readBlocks hb
      rwa [score_eq_self (by omega), score_eq_self (by omega)] at hscore

end Reads

/-! ## One shard -/

section Shard

variable {κ ι T β : Type} [LinearOrder T] [JobText ι T] {top : Nat}

/-- A pending job that is not new is not below the latest height. -/
def ParkedAt (shard : Shard κ ι T) : Prop :=
  ∀ e ∈ shard.pendingSet.entries, ∀ data, JobText.parse e.2 = some data → data.isNew = false →
    ∀ latest, shard.latestBlockHeight = some latest → latest ≤ e.1

/-- The invariant of a shard and its consumers while all heights are at most `top`. -/
structure RestInv (top : Nat) (s : RelayState κ ι T β) : Prop where
  latest : ∀ latest, s.shard.latestBlockHeight = some latest → latest ≤ top
  stream : ∀ e ∈ s.shard.webhookStream.entries, ∀ data, JobText.parse e.2 = some data →
    data.blockHeight.toNat < top
  scored : Scored s.shard
  parked : ParkedAt s.shard
  calls : ∀ c msg msgs isBacklogMsg, (s.consumers c).loop = .handler (msg :: msgs) isBacklogMsg →
    CallFor top msg.data (s.consumers c).call

theorem restInv_init (top : Nat) : RestInv top (.init : RelayState κ ι T β) where
  latest := by simp [RelayState.init, Shard.empty]
  stream := by simp [RelayState.init, Shard.empty, GroupStream.empty]
  scored := scored_empty
  parked := by
    intro e he
    cases he
  calls := by
    intro c msg msgs isBacklogMsg hloop
    cases hloop

/-- What a latest height is above has room for one more. -/
theorem lt_top_of_score_lt (htop : top < 2 ^ 53) {height : UInt64}
    (h : score height < top) : height.toNat < top := by
  by_contra hge
  have hle : top ≤ height.toNat := Nat.not_lt.1 hge
  have hmono : Double.round top ≤ Double.round height.toNat := Double.round_mono hle
  rw [Double.round_eq_self htop] at hmono
  exact absurd h (Nat.not_lt.2 hmono)

variable [DecidableEq κ] [DecidableEq ι]

omit [DecidableEq κ] in
private theorem restInv_activate {s : RelayState κ ι T β} (h : RestInv top s) (ids : List ι) :
    RestInv top { s with shard := s.shard.activate ids } := by
  refine ⟨fun latest hlatest => h.latest latest ?_, fun e he => h.stream e ?_,
    scored_activate h.scored ids, ?_, h.calls⟩
  · simpa using hlatest
  · simpa using he
  · intro e he data hdata hold latest hlatest
    rcases Shard.mem_pendingSet_activate he with he | ⟨id, -, -, rfl⟩
    · exact h.parked e he data hdata hold latest (by simpa using hlatest)
    · rw [JobText.parse_encode] at hdata
      cases hdata
      cases hold

omit [DecidableEq κ] [DecidableEq ι] in
private theorem restInv_flush (htop : top < 2 ^ 53) {s : RelayState κ ι T β} (h : RestInv top s)
    {height : UInt64} (hheight : height.toNat ≤ top) :
    RestInv top { s with shard := s.shard.flush height } := by
  have hscore : score height = height.toNat := score_eq_self (by omega)
  refine ⟨?_, ?_, scored_flush h.scored height, ?_, h.calls⟩
  · intro latest hlatest
    rw [Shard.flush_eq] at hlatest
    cases hlatest
    omega
  · intro e he data hdata
    simp only [Shard.flush_eq] at he
    rcases GroupStream.mem_entries_xaddAll he with he | hjob
    · exact h.stream e he data hdata
    · -- the job was pending below the height
      obtain ⟨p, hp, hpjob⟩ := List.mem_map.1 hjob
      obtain ⟨hentry, hlt⟩ := List.mem_filter.1 hp
      obtain ⟨data', hdata', hpscore⟩ := h.scored p hentry
      rw [hpjob, hdata] at hdata'
      cases hdata'
      have hlt' : p.1 < score height := of_decide_eq_true hlt
      exact lt_top_of_score_lt htop (by omega)
  · intro e he data hdata hold latest hlatest
    rw [Shard.flush_eq] at he hlatest
    cases hlatest
    exact of_decide_eq_true (List.mem_filter.1 he).2

omit [DecidableEq κ] in
private theorem restInv_xAckDel (htop : top < 2 ^ 53) {s : RelayState κ ι T β} (h : RestInv top s)
    (msg : ParsedStreamMessage (WebhookStreamMsgData ι))
    (newMsg : Option (WebhookStreamMsgData ι)) :
    RestInv top { s with shard := s.shard.xAckDel msg newMsg } := by
  refine ⟨?_, ?_, scored_xAckDel h.scored msg newMsg, ?_, h.calls⟩
  · intro latest hlatest
    exact h.latest latest (by simpa using hlatest)
  · intro e he data hdata
    have hold : ∀ stream : GroupStream κ T, stream = Native.xAckDel s.shard.webhookStream [msg.id] →
        e ∈ stream.entries → data.blockHeight.toNat < top := by
      rintro _ rfl he
      exact h.stream e (List.mem_filter.1 he).1 data hdata
    cases newMsg with
    | none => exact hold _ rfl he
    | some new =>
      by_cases hb : s.shard.Behind new.blockHeight
      · simp only [Shard.xAckDel_behind hb, GroupStream.entries_xadd] at he
        rcases List.mem_append.1 he with he | hnew
        · exact hold _ rfl he
        · obtain ⟨latest, hlatest, hlt⟩ := hb
          have hbound := h.latest latest hlatest
          rw [List.mem_singleton.1 hnew, JobText.parse_marshal] at hdata
          cases hdata
          exact lt_top_of_score_lt htop (by omega)
      · simp only [Shard.xAckDel_parked hb] at he
        exact hold _ rfl he
  · intro e he data hdata hold latest hlatest
    have hlatest' : s.shard.latestBlockHeight = some latest := by simpa using hlatest
    rcases Shard.mem_pendingSet_xAckDel he with he | ⟨new, -, hb, rfl⟩
    · exact h.parked e he data hdata hold latest hlatest'
    · exact Nat.not_lt.1 fun hlt => hb ⟨latest, hlatest', hlt⟩

omit [DecidableEq κ] in
/-- `XAckDel` of a job in the stream lowers the measure. -/
theorem workLeft_xAckDel (htop : top < 2 ^ 53) {s : RelayState κ ι T β} (h : RestInv top s)
    {msg : ParsedStreamMessage (WebhookStreamMsgData ι)} {job : T}
    (hentry : (msg.id, job) ∈ s.shard.webhookStream.entries)
    (hjob : JobText.parse job = some msg.data) {newMsg : Option (WebhookStreamMsgData ι)}
    (hnew : ∀ new, newMsg = some new → Advances msg.data new) :
    workLeft (s.shard.xAckDel msg newMsg) + 1 ≤ workLeft s.shard := by
  have hsplit : workLeft s.shard = jobWork (s.shard.latestBlockHeight.getD 0) job +
      worth (s.shard.latestBlockHeight.getD 0)
        ((Native.xAckDel s.shard.webhookStream [msg.id]).entries.map Prod.snd) :=
    worth_perm (GroupStream.values_xdel_perm hentry)
  have hpos : 0 < jobWork (s.shard.latestBlockHeight.getD 0) job := jobWork_pos hjob
  have hgone : worth (s.shard.latestBlockHeight.getD 0)
      ((Native.xAckDel s.shard.webhookStream [msg.id]).entries.map Prod.snd) + 1 ≤
        workLeft s.shard := by
    omega
  cases newMsg with
  | none => exact hgone
  | some new =>
    by_cases hb : s.shard.Behind new.blockHeight
    · obtain ⟨latest, hlatest, hlt⟩ := hb
      have hbound := h.latest latest hlatest
      have hexact : new.blockHeight.toNat < latest := by
        by_contra hge
        have hle := Double.round_mono (Nat.not_lt.1 hge)
        rw [Double.round_eq_self (by omega)] at hle
        exact absurd hlt (Nat.not_lt.2 hle)
      have hless := jobWork_lt hjob (hnew new rfl) hexact
      rw [Shard.xAckDel_behind ⟨latest, hlatest, hlt⟩]
      simp only [workLeft, GroupStream.entries_xadd, List.map_append, List.map_cons, List.map_nil,
        worth_concat, hlatest, Option.getD_some] at hsplit ⊢
      omega
    · rw [Shard.xAckDel_parked hb]
      exact hgone

omit [DecidableEq κ] [LinearOrder T] [JobText ι T] [DecidableEq ι] in
theorem toNat_add_one {height : UInt64} (h : height.toNat < 2 ^ 64 - 1) :
    (height + 1).toNat = height.toNat + 1 := by
  rw [UInt64.toNat_add]
  show (height.toNat + 1) % 2 ^ 64 = height.toNat + 1
  omega

/-- What a handler goes on to is for the same job. -/
private theorem callFor_next (htop : top < 2 ^ 53) {c : κ} {webhooks : ι → Option Webhook}
    {shard shard' : Shard κ ι T} {msg : ParsedStreamMessage (WebhookStreamMsgData ι)}
    {isBacklogMsg : Bool} {call next : RelayCall ι β} {action : ConsumerAction β}
    (hheight : msg.data.blockHeight.toNat < top) (hcall : CallFor top msg.data call)
    (hanswers : AnswersFor top msg.data action)
    (hstep : HandlerStep c webhooks shard msg isBacklogMsg call action shard' (some next)) :
    CallFor top msg.data next := by
  cases hstep with
  | noWebhook _ => exact fun new hnew => by cases hnew
  | backlogMsg webhook hw _ => trivial
  | newMsg webhook hw _ => trivial
  | exhausted webhook pendingMsg _ _ =>
    intro new hnew
    cases hnew
    refine ⟨fun hold => hold, fun _ => ?_⟩
    show msg.data.blockHeight.toNat < (msg.data.blockHeight + 1).toNat
    rw [toNat_add_one (by omega)]
    exact Nat.lt_succ_self _
  | retry webhook _ _ _ => trivial
  | readCache webhook answer => exact hanswers.readCache answer rfl
  | noBlocks _ => trivial
  | blocks _ blocks _ => exact hanswers.readWrapped blocks rfl
  | post blocks last hlast =>
    intro new hnew
    cases hnew
    have hread := hcall last (List.mem_of_getLast? hlast)
    have hbound := hread.bounded
    refine ⟨fun _ => rfl, fun hsame => ?_⟩
    have hfrom := hread.from_height hsame.symm
    show msg.data.blockHeight.toNat < (last.height + 1).toNat
    rw [toNat_add_one (by omega)]
    omega

omit [DecidableEq ι] in
/-- A consumer that moves on changes its own call only. -/
private theorem RestInv.update {s : RelayState κ ι T β} {shard : Shard κ ι T}
    (h : RestInv top { s with shard := shard }) (c : κ) (consumer : RelayConsumer ι β)
    (hcall : ∀ msg msgs isBacklogMsg, consumer.loop = .handler (msg :: msgs) isBacklogMsg →
      CallFor top msg.data consumer.call) :
    RestInv top
      { s with shard := shard, consumers := Function.update s.consumers c consumer } := by
  refine ⟨h.latest, h.stream, h.scored, h.parked, fun d => ?_⟩
  by_cases hd : d = c
  · subst hd
    simp only [Function.update_self]
    exact hcall
  · simp only [Function.update_of_ne hd]
    exact h.calls d

/-- With nothing in the stream, the job of a webhook is pending. -/
theorem pending_of_noEntries {s : RelayState κ ι T β} (hcons : ConservationInv s)
    (h : RestInv top s) (htop : top < 2 ^ 53) (hnone : s.shard.webhookStream.entries = []) {w : ι}
    (hw : w ∈ s.shard.webhookSet) : ∃ e ∈ s.shard.pendingSet.entries, ∃ data,
      JobText.parse e.2 = some data ∧ data.webhookID = w ∧ (data.isNew = true ∨
        ∀ latest, s.shard.latestBlockHeight = some latest → latest ≤ data.blockHeight.toNat) := by
  have hone := hcons.conserved w
  have hpos : 0 < jobsFor w s.shard.pendingSet.members := by
    rw [outstanding_eq, hnone, if_pos hw, List.map_nil] at hone
    have hzero : jobsFor w ([] : List T) = 0 := rfl
    omega
  obtain ⟨job, hjob, hweb⟩ := List.countP_pos_iff.1 hpos
  obtain ⟨e, he, rfl⟩ := List.mem_map.1 hjob
  obtain ⟨data, hdata, hscore⟩ := h.scored e he
  have hid : data.webhookID = w := by
    have hsome : webhookOf e.2 = some w := of_decide_eq_true hweb
    rw [webhookOf, hdata] at hsome
    exact Option.some.inj hsome
  refine ⟨e, he, data, hdata, hid, ?_⟩
  cases hnew : data.isNew with
  | true => exact .inl rfl
  | false =>
    right
    intro latest hlatest
    have hbound := h.latest latest hlatest
    have hparked := h.parked e he data hdata hnew latest hlatest
    -- a height below the latest one would be exact
    by_contra hlt
    rw [hscore, score_eq_self (by omega)] at hparked
    omega

/-- An acknowledgement. -/
def isAck : RelayAction κ ι β → Bool
  | .consumer _ .xAckDel => true
  | _ => false

/-- An action of a consumer keeps the invariant; the measure falls when it acknowledges and never
    rises. -/
private theorem restInv_consumer (htop : top < 2 ^ 53) {s : RelayState κ ι T β}
    (h : RestInv top s) (hcons : ConservationInv s) {c : κ} {action : ConsumerAction β}
    {shard : Shard κ ι T} {consumer : RelayConsumer ι β}
    (hanswers : ∀ msg msgs isBacklogMsg,
      (s.consumers c).loop = .handler (msg :: msgs) isBacklogMsg → AnswersFor top msg.data action)
    (hmove : ConsumerStep c s.webhooks s.shard (s.consumers c) action shard consumer) :
    RestInv top
        { s with shard := shard, consumers := Function.update s.consumers c consumer } ∧
      workLeft shard + (if isAck (.consumer c action : RelayAction κ ι β) then 1 else 0) ≤
        workLeft s.shard := by
  have hcalls := h.calls c
  have hhanded := hcons.handed c
  generalize s.consumers c = old at hmove hcalls hanswers hhanded
  cases hmove with
  | crash => exact ⟨h.update c _ fun _ _ _ _ => trivial, Nat.le_refl _⟩
  | readBacklog cursorId call loop stream hread =>
    obtain ⟨rfl, -⟩ := readBacklog_cases hread
    have hsame : RestInv top { s with shard := { s.shard with webhookStream :=
        (s.shard.webhookStream.xreadgroupFrom c cursorId 1).2 } } :=
      ⟨h.latest, h.stream, h.scored, h.parked, h.calls⟩
    exact ⟨hsame.update c _ fun _ _ _ _ => trivial, Nat.le_refl _⟩
  | readNew call loop stream hread =>
    obtain ⟨rfl, -, -⟩ := readNew_cases hread
    have hsame : RestInv top { s with shard := { s.shard with webhookStream :=
        (s.shard.webhookStream.xreadgroupNew c 1).2 } } :=
      ⟨h.latest, h.stream, h.scored, h.parked, h.calls⟩
    exact ⟨hsame.update c _ fun _ _ _ _ => trivial, Nat.le_refl _⟩
  | call msg msgs isBacklogMsg call call' _ _ hcall =>
    -- a call that does not end the handler is no acknowledgement
    have hquiet : isAck (.consumer c action : RelayAction κ ι β) = false := by
      cases hcall <;> rfl
    have hshard : shard = s.shard := by
      cases hcall <;> rfl
    subst hshard
    obtain ⟨-, job, hentry, hjob⟩ := hhanded msg List.mem_cons_self
    refine ⟨h.update c _ fun msg' msgs' _ heq => ?_, by simp [hquiet]⟩
    cases heq
    exact callFor_next htop (h.stream _ hentry _ hjob) (hcalls msg msgs isBacklogMsg rfl)
      (hanswers msg msgs isBacklogMsg rfl) hcall
  | handled msg msgs isBacklogMsg call _ _ hcall =>
    obtain ⟨-, job, hentry, hjob⟩ := hhanded msg List.mem_cons_self
    cases hcall with
    | xAckDel newMsg =>
      refine ⟨(restInv_xAckDel htop h msg newMsg).update c _ fun _ _ _ _ => trivial, ?_⟩
      exact workLeft_xAckDel htop h hentry hjob (hcalls msg msgs isBacklogMsg rfl)
    | notPending webhook hnone => exact ⟨h.update c _ fun _ _ _ _ => trivial, Nat.le_refl _⟩
    | callFails call hne => exact ⟨h.update c _ fun _ _ _ _ => trivial, Nat.le_refl _⟩

/-- Every action keeps the invariant. Only a flush raises the measure, and an acknowledgement lowers
    it. -/
theorem restInv_step (htop : top < 2 ^ 53) {s s' : RelayState κ ι T β} {a : RelayAction κ ι β}
    (hstep : s.step a = some s') (hcons : ConservationInv s)
    (hflush : ∀ height, a = .flush height → height.toNat ≤ top)
    (hanswers : ∀ c action, a = .consumer c action → ∀ msg msgs isBacklogMsg,
      (s.consumers c).loop = .handler (msg :: msgs) isBacklogMsg → AnswersFor top msg.data action)
    (h : RestInv top s) :
    RestInv top s' ∧ ((∀ height, a ≠ .flush height) →
      workLeft s'.shard + (if isAck a then 1 else 0) ≤ workLeft s.shard) := by
  cases a with
  | activate ids =>
    cases hstep
    refine ⟨restInv_activate h ids, fun _ => ?_⟩
    simp [workLeft, isAck]
  | flush height =>
    cases hstep
    exact ⟨restInv_flush htop h (hflush height rfl), fun hnone => absurd rfl (hnone height)⟩
  | setWebhook id webhook =>
    cases hstep
    exact ⟨⟨h.latest, h.stream, h.scored, h.parked, h.calls⟩, fun _ => Nat.le_refl _⟩
  | consumer c action =>
    obtain ⟨shard, consumer, hmove, rfl⟩ := consumerStep_of_relayStep hstep
    obtain ⟨hinv, hwork⟩ := restInv_consumer htop h hcons (hanswers c action rfl) hmove
    exact ⟨hinv, fun _ => hwork⟩

end Shard

/-! ## The whole feed -/

section Feed

variable {δ κ ι T β : Type} [DecidableEq δ] [DecidableEq κ] [DecidableEq ι] [LinearOrder T]
  [JobText ι T] [LinearOrder (BlockDocument β)] {top : Nat}

/-- The heights that an action puts are exact as doubles, and so is one more. -/
def PutsBelow (top batchSize : Nat) (webhookStreams : List δ) (s : Feed δ κ ι T β)
    (action : FeedAction δ κ ι β) : Prop :=
  ∀ height ∈ putHeights batchSize webhookStreams s action, height.toNat ≤ top

instance (batchSize : Nat) (webhookStreams : List δ) (s : Feed δ κ ι T β)
    (action : FeedAction δ κ ι β) : Decidable (PutsBelow top batchSize webhookStreams s action) :=
  inferInstanceAs (Decidable (∀ height ∈ putHeights batchSize webhookStreams s action, _))

/-- The router does not flush the shard. -/
def NoFlush (d : δ) (batchSize : Nat) (webhookStreams : List δ) (s : Feed δ κ ι T β)
    (action : FeedAction δ κ ι β) : Prop :=
  ∀ height, s.effectOf batchSize webhookStreams action ≠ some (.flush d height)

instance [DecidableEq β] (d : δ) (batchSize : Nat) (webhookStreams : List δ) (s : Feed δ κ ι T β)
    (action : FeedAction δ κ ι β) : Decidable (NoFlush d batchSize webhookStreams s action) :=
  match h : s.effectOf batchSize webhookStreams action with
  | some (.flush e height) =>
    if hd : e = d then .isFalse fun hnone => hnone height (by rw [h, hd])
    else .isTrue fun height' heq => hd (by rw [h] at heq; cases heq; rfl)
  | some (.putBlocks blocks) => .isTrue fun height heq => by rw [h] at heq; cases heq
  | some (.xAckDel msgIDs) => .isTrue fun height heq => by rw [h] at heq; cases heq
  | none => .isTrue fun height heq => by rw [h] at heq; cases heq

/-- An acknowledgement in the shard. -/
def isAckOf (d : δ) : FeedAction δ κ ι β → Bool
  | .shard e action => decide (e = d) && isAck action
  | _ => false

/-- The invariant of the feed. -/
structure FeedRestInv (top : Nat) (webhookStreams : List δ) (s : Feed δ κ ι T β)
    (log : List (Event δ β)) : Prop where
  router : RouterInv webhookStreams s.blockStream s.router log
  stores : StoresReached s log
  bounded : ∀ height, PutAt log height → height.toNat ≤ top
  conservation : ∀ d, ConservationInv (s.shards d)
  shards : ∀ d, RestInv top (s.shards d)

omit [DecidableEq δ] in
theorem feedRestInv_init (top : Nat) (webhookStreams : List δ) :
    FeedRestInv top webhookStreams (.init : Feed δ κ ι T β) [] where
  router := routerInv_init webhookStreams
  stores := storesReached_init
  bounded := by
    rintro height ⟨b, hb, -⟩
    cases hb
  conservation := fun _ => conservationInv_init
  shards := fun _ => restInv_init top

omit [DecidableEq δ] in
/-- What is stored is bounded. -/
theorem FeedRestInv.stored {webhookStreams : List δ} {s : Feed δ κ ι T β}
    {log : List (Event δ β)} (h : FeedRestInv top webhookStreams s log) {r : BlockDocument β}
    (hr : s.stores.store.Stored r) : r.height.toNat ≤ top :=
  h.bounded _ ((putAt_iff h.stores _).2 ⟨r, hr, rfl⟩)

omit [DecidableEq δ] in
/-- The block store answers a handler with blocks for its job. -/
theorem FeedRestInv.answersFor (htop : top < 2 ^ 53) {webhookStreams : List δ}
    {s : Feed δ κ ι T β} {log : List (Event δ β)} (h : FeedRestInv top webhookStreams s log)
    {d : δ} {c : κ} {action : ConsumerAction β} (hanswered : Answered s d (.consumer c action))
    {msg : ParsedStreamMessage (WebhookStreamMsgData ι)}
    {msgs : List (ParsedStreamMessage (WebhookStreamMsgData ι))} {isBacklogMsg : Bool}
    (hloop : ((s.shards d).consumers c).loop = .handler (msg :: msgs) isBacklogMsg) :
    AnswersFor top msg.data action where
  readCache := by
    intro answer heq
    subst heq
    obtain ⟨msg', msgs', isBacklogMsg', webhook, hc, rfl⟩ := hanswered
    obtain ⟨-, job, hentry, hjob⟩ := (h.conservation d).handed c msg (by simp [hloop, handed])
    have hheight := (h.shards d).stream _ hentry _ hjob
    rw [hc] at hloop
    cases hloop
    exact readFor_relayRead htop (fun b hb => h.stored (.inl hb)) (Nat.le_of_lt hheight) webhook
  readWrapped := by
    intro blocks heq
    subst heq
    obtain ⟨loop, read, hc, rfl⟩ := hanswered
    have hcall := (h.shards d).calls c msg msgs isBacklogMsg hloop
    rw [hc] at hcall
    exact fun b hb => readFor_finish (fun r hr => h.stored (.inr hr)) hcall.1 hcall.2 hb

/-- Every action keeps the invariant. Only a flush of the shard raises its measure. -/
theorem feedRestInv_step (htop : top < 2 ^ 53) {batchSize : Nat} (hbatch : 0 < batchSize)
    {webhookStreams : List δ} {s s' : Feed δ κ ι T β} {log : List (Event δ β)}
    {action : FeedAction δ κ ι β} (hfeed : FeedStep batchSize webhookStreams s action s')
    (hputs : PutsBelow top batchSize webhookStreams s action)
    (h : FeedRestInv top webhookStreams s log) :
    FeedRestInv top webhookStreams s' (log ++ events batchSize webhookStreams s action) ∧
      ∀ d, NoFlush d batchSize webhookStreams s action →
        workLeft (s'.shards d).shard + (if isAckOf d action then 1 else 0) ≤
          workLeft (s.shards d).shard := by
  have hrouter := h.router.feedStep hbatch hfeed
  have hbounded : ∀ height, PutAt (log ++ events batchSize webhookStreams s action) height →
      height.toNat ≤ top := by
    intro height hput
    cases (putAt_events hfeed log height).1 hput with
    | inl hold => exact h.bounded height hold
    | inr hnew => exact hputs height hnew
  have hshard : ∀ d, RestInv top (s'.shards d) ∧ (NoFlush d batchSize webhookStreams s action →
      workLeft (s'.shards d).shard + (if isAckOf d action then 1 else 0) ≤
        workLeft (s.shards d).shard) := by
    intro d
    cases shardView_of_feedStep hfeed d with
    | same heffect haction hsame =>
      -- the action is none of the shard
      have hquiet : isAckOf d action = false := by
        cases action with
        | shard e a =>
          by_cases hd : e = d
          · subst hd
            exact absurd rfl (haction a)
          · simp [isAckOf, hd]
        | _ => rfl
      rw [hsame, hquiet]
      exact ⟨h.shards d, fun _ => Nat.le_refl _⟩
    | flush height heffect haction hsame =>
      have hmem : Event.executed (.flush d height) ∈
          log ++ events batchSize webhookStreams s action :=
        List.mem_append_right _ (mem_events_executed.2 heffect)
      obtain ⟨b, hb, hle⟩ := hrouter.flushed d height hmem
      have hheight := hbounded b.height ⟨b, hb, rfl⟩
      rw [hsame]
      refine ⟨restInv_flush htop (h.shards d) ?_, fun hnone => absurd heffect (hnone height)⟩
      exact Nat.le_trans (UInt64.le_iff_toNat_le.1 hle) hheight
    | relay a hanswered haction heffect hsame hstep =>
      have hnone : ∀ height, a ≠ .flush height := by
        rintro height rfl
        exact hanswered
      obtain ⟨hinv, hwork⟩ := restInv_step htop hstep (h.conservation d)
        (fun height heq => absurd heq (hnone height))
        (fun c b heq msg msgs isBacklogMsg hloop => by
          subst heq
          exact h.answersFor htop hanswered hloop) (h.shards d)
      refine ⟨hinv, fun _ => ?_⟩
      have hcount : isAckOf d action = true → isAck a = true := by
        intro hack
        cases action with
        | shard e b =>
          simp only [isAckOf, Bool.and_eq_true, decide_eq_true_eq] at hack
          cases haction
          exact hack.2
        | _ => cases hack
      have hfall := hwork hnone
      split
      · next hack =>
        rw [if_pos (hcount hack)] at hfall
        exact hfall
      · omega
  exact ⟨⟨hrouter, h.stores.step hfeed, hbounded,
    fun d => conservationInv_feedStep hfeed (h.conservation d), fun d => (hshard d).1⟩,
    fun d => (hshard d).2⟩

/-- Between two flushes of a shard its relays acknowledge no more messages than `workLeft` says,
    whatever else happens. Once the stream of the shard is empty, every webhook of the shard has one
    job, which is new or for a height that is not below the latest one. -/
theorem relay_comesToRest (htop : top < 2 ^ 53) {batchSize : Nat} (hbatch : 0 < batchSize)
    {webhookStreams : List δ} {as bs : List (FeedAction δ κ ι β)} {s t : Feed δ κ ι T β} {d : δ}
    (hrun : run (Feed.step batchSize webhookStreams) .init as = some s)
    (hputs : Meets (Feed.step batchSize webhookStreams) (PutsBelow top batchSize webhookStreams)
      (.init : Feed δ κ ι T β) as)
    (hrest : run (Feed.step batchSize webhookStreams) s bs = some t)
    (hquiet : Meets (Feed.step batchSize webhookStreams) (fun s action =>
      PutsBelow top batchSize webhookStreams s action ∧
        NoFlush d batchSize webhookStreams s action) s bs) :
    bs.countP (isAckOf d) + workLeft (t.shards d).shard ≤ workLeft (s.shards d).shard ∧
    ((t.shards d).shard.webhookStream.entries = [] → ∀ w ∈ (t.shards d).shard.webhookSet,
      ∃ e ∈ (t.shards d).shard.pendingSet.entries, ∃ data, JobText.parse e.2 = some data ∧
        data.webhookID = w ∧ (data.isNew = true ∨
          ∀ latest, (t.shards d).shard.latestBlockHeight = some latest →
            latest ≤ data.blockHeight.toNat)) := by
  have hinv : ∃ log, FeedRestInv top webhookStreams s log := by
    refine run_invariant_of_meets (P := fun s => ∃ log, FeedRestInv top webhookStreams s log) ?_
      hrun hputs ⟨[], feedRestInv_init top webhookStreams⟩
    rintro s action s' hstep hbelow ⟨log, h⟩
    exact ⟨_, (feedRestInv_step htop hbatch (feedStep_of_step hstep) hbelow h).1⟩
  have hstep : ∀ (s : Feed δ κ ι T β) action s',
      Feed.step batchSize webhookStreams s action = some s' →
      (PutsBelow top batchSize webhookStreams s action ∧
        NoFlush d batchSize webhookStreams s action) →
      (∃ log, FeedRestInv top webhookStreams s log) →
        (∃ log, FeedRestInv top webhookStreams s' log) ∧
          workLeft (s'.shards d).shard + (if isAckOf d action then 1 else 0) ≤
            workLeft (s.shards d).shard := by
    rintro s action s' hstep ⟨hbelow, hnone⟩ ⟨log, h⟩
    obtain ⟨hnext, hwork⟩ := feedRestInv_step htop hbatch (feedStep_of_step hstep) hbelow h
    exact ⟨⟨_, hnext⟩, hwork d hnone⟩
  have hcount : bs.countP (isAckOf d) + workLeft (t.shards d).shard ≤ workLeft (s.shards d).shard :=
    countP_add_le_of_meets hstep hrest hquiet hinv
  refine ⟨hcount, fun hnone w hw => ?_⟩
  obtain ⟨log, hlog⟩ := run_invariant_of_meets
    (fun s a s' h hq hP => (hstep s a s' h hq hP).1) hrest hquiet hinv
  exact pending_of_noEntries (hlog.conservation d) (hlog.shards d) htop hnone hw

end Feed

/-- Three blocks are stored and flushed, and a new webhook is in the stream. -/
def threeStored : List (FeedAction Nat Unit Nat Nat) :=
  [.shard 0 (.setWebhook 7 (some ⟨3, 3⟩)), .shard 0 (.activate [7]), .forwarderReadCache,
    .forwarderReadWrapped 1, .forward 10, .forward 20, .forward 30, .router .readBacklog,
    .router .readNew, .router (.putBlocks .ok), .router (.flush 0 .ok), .router (.xAckDel .ok)]

/-- One consumer handles what is next, after it has looked at its backlog. -/
def serveNext : List (FeedAction Nat Unit Nat Nat) :=
  [.shard 0 (.consumer () .readBacklog), .shard 0 (.consumer () .readNew),
    .shard 0 (.consumer () .webhooksFindOne), .consumerReadCache 0 (), .consumerReadWrapped 0 (),
    .shard 0 (.consumer () .post), .shard 0 (.consumer () .xAckDel)]

/-- The webhook is served twice, with a crash in between. -/
def servedTwice : List (FeedAction Nat Unit Nat Nat) :=
  serveNext ++ [.shard 0 (.consumer () .crash)] ++ serveNext

/-- Then it waits for block 4. -/
theorem relay_comesToRest_servedTwice :
    ∃ s t : Feed Nat Unit Nat TupleText Nat,
      run (Feed.step 4 [0]) .init threeStored = some s ∧
      run (Feed.step 4 [0]) s servedTwice = some t ∧
      2 + workLeft (t.shards 0).shard ≤ workLeft (s.shards 0).shard ∧
      ∃ e ∈ (t.shards 0).shard.pendingSet.entries, ∃ data, JobText.parse e.2 = some data ∧
        data.webhookID = 7 ∧ (data.isNew = true ∨
          ∀ latest, (t.shards 0).shard.latestBlockHeight = some latest →
            latest ≤ data.blockHeight.toNat) := by
  have hrun : (run (Feed.step 4 [0]) (.init : Feed Nat Unit Nat TupleText Nat) threeStored).any
      (fun s => decide (Meets (Feed.step 4 [0]) (fun s action =>
          PutsBelow 10 4 [0] s action ∧ NoFlush 0 4 [0] s action) s servedTwice) &&
        (run (Feed.step 4 [0]) s servedTwice).any fun t =>
          (t.shards 0).shard.webhookStream.entries.isEmpty &&
            decide (7 ∈ (t.shards 0).shard.webhookSet)) = true := by decide +kernel
  obtain ⟨s, hs, hrest⟩ := (Option.any_eq_true ..).1 hrun
  obtain ⟨hquiet, hnext⟩ := Bool.and_eq_true_iff.1 hrest
  obtain ⟨t, ht, hend⟩ := (Option.any_eq_true ..).1 hnext
  obtain ⟨hnone, hset⟩ := Bool.and_eq_true_iff.1 hend
  obtain ⟨hcount, hidle⟩ := relay_comesToRest (show 10 < 2 ^ 53 by decide)
    (show 0 < 4 by decide) hs (by decide +kernel) ht (of_decide_eq_true hquiet)
  exact ⟨s, t, hs, ht, hcount, hidle (List.isEmpty_iff.1 hnone) 7 (of_decide_eq_true hset)⟩

end BlockFeed.Spec
