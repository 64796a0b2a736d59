import BlockFeed.Spec.FeedHistory
import BlockFeed.Spec.SubscribeCorrect

/-!
# The router acknowledges last

A batch goes through three phases: its blocks are put, every shard is flushed, and only then the
batch is acknowledged. `AtCall` says what the history already holds at each call of the handler,
and `RouterInv` adds that a posted message either has had all its effects or is still waiting in
the block stream.

The main result is `retired_afterEffects`, for every run of a feed with crashes and failures at
any call.
-/

namespace BlockFeed.Spec

open BlockFeed.Native Redis Transition BlockRouter

section Router

variable {δ β : Type}

/-- A block of this height has been put. -/
def PutAt (log : List (Event δ β)) (height : UInt64) : Prop :=
  ∃ b ∈ blocksPut log, b.height = height

/-- After a block of this height was put, the shard was flushed at least up to it. -/
def FlushedAfter (log : List (Event δ β)) (d : δ) (height : UInt64) : Prop :=
  ∃ before after, log = before ++ after ∧ PutAt before height ∧
    ∃ flushed, .executed (.flush d flushed) ∈ after ∧ height ≤ flushed

/-- All effects of a message. -/
def Done (webhookStreams : List δ) (log : List (Event δ β)) (height : UInt64) : Prop :=
  PutAt log height ∧ ∀ d ∈ webhookStreams, FlushedAfter log d height

theorem PutAt.append {log : List (Event δ β)} {height : UInt64} (h : PutAt log height)
    (more : List (Event δ β)) : PutAt (log ++ more) height := by
  obtain ⟨b, hb, hh⟩ := h
  exact ⟨b, by rw [blocksPut_append]; exact List.mem_append_left _ hb, hh⟩

theorem FlushedAfter.append {log : List (Event δ β)} {d : δ} {height : UInt64}
    (h : FlushedAfter log d height) (more : List (Event δ β)) :
    FlushedAfter (log ++ more) d height := by
  obtain ⟨before, after, rfl, hput, flushed, hmem, hle⟩ := h
  exact ⟨before, after ++ more, List.append_assoc .., hput, flushed,
    List.mem_append_left _ hmem, hle⟩

theorem Done.append {webhookStreams : List δ} {log : List (Event δ β)} {height : UInt64}
    (h : Done webhookStreams log height) (more : List (Event δ β)) :
    Done webhookStreams (log ++ more) height :=
  ⟨h.1.append more, fun d hd => (h.2 d hd).append more⟩

/-- A flush after the put. -/
theorem PutAt.flush {log : List (Event δ β)} {height flushed : UInt64} (h : PutAt log height)
    (d : δ) (hle : height ≤ flushed) :
    FlushedAfter (log ++ [.executed (.flush d flushed)]) d height :=
  ⟨log, _, rfl, h, flushed, List.mem_singleton.2 rfl, hle⟩

/-- What has happened to a batch when the handler is about to make this call. -/
def CallAt (webhookStreams : List δ) (log : List (Event δ β))
    (msgs : List (ParsedStreamMessage (BlockStreamMsgData β))) : RouterCall δ → Prop
  | .putBlocks => True
  | .flush running failed =>
    (∀ m ∈ msgs, PutAt log m.data.height) ∧
      (failed = false → ∀ d ∈ webhookStreams, d ∉ running →
        ∀ m ∈ msgs, FlushedAfter log d m.data.height)
  | .xAckDel => ∀ m ∈ msgs, Done webhookStreams log m.data.height

/-- The same for the whole router; a batch is never empty. -/
def AtCall (webhookStreams : List δ) (log : List (Event δ β)) : BlockRouter δ β → Prop
  | ⟨.handler msgs _, call⟩ => msgs ≠ [] ∧ CallAt webhookStreams log msgs call
  | _ => True

/-- The message is in the stream, unread or pending. -/
def Waiting (stream : GroupStream Unit (BlockStreamMsgData β)) (id : Nat)
    (msg : BlockStreamMsgData β) : Prop :=
  (id, msg) ∈ stream.entries ∧ (stream.lastDelivered < id ∨ id ∈ stream.pelIds ())

/-- The message has been deleted or acknowledged. -/
def Retired (stream : GroupStream Unit (BlockStreamMsgData β)) (id : Nat) : Prop :=
  (∀ msg, (id, msg) ∉ stream.entries) ∨ id ≤ stream.lastDelivered ∧ id ∉ stream.pelIds ()

theorem Retired.not_waiting {stream : GroupStream Unit (BlockStreamMsgData β)} {id : Nat}
    (h : Retired stream id) (msg : BlockStreamMsgData β) : ¬ Waiting stream id msg := by
  intro ⟨hentry, hpending⟩
  cases h with
  | inl hdeleted => exact hdeleted msg hentry
  | inr hacked =>
    cases hpending with
    | inl hunread => exact Nat.not_lt.2 hacked.1 hunread
    | inr hpel => exact hacked.2 hpel

/-- The invariant of block stream, router and history. -/
structure RouterInv (webhookStreams : List δ) (stream : GroupStream Unit (BlockStreamMsgData β))
    (router : BlockRouter δ β) (log : List (Event δ β)) : Prop where
  posted_le : ∀ id msg, .posted id msg ∈ log → id ≤ stream.lastId
  posted_unique : ∀ id msg msg', .posted id msg ∈ log → .posted id msg' ∈ log → msg = msg'
  entries : ∀ id msg, (id, msg) ∈ stream.entries → .posted id msg ∈ log
  unread : ∀ id msg, .posted id msg ∈ log → stream.lastDelivered < id → (id, msg) ∈ stream.entries
  /-- a posted message has had its effects or is still in the stream -/
  waiting : ∀ id msg, .posted id msg ∈ log →
    Done webhookStreams log msg.height ∨ Waiting stream id msg
  handed : Handed some stream () router.loop
  at_call : AtCall webhookStreams log router
  /-- no flush went above everything put before -/
  flushed : ∀ d height, .executed (.flush d height) ∈ log → ∃ b ∈ blocksPut log, height ≤ b.height

theorem routerInv_init (webhookStreams : List δ) :
    RouterInv webhookStreams (.empty : GroupStream Unit (BlockStreamMsgData β)) .start [] where
  posted_le := by simp
  posted_unique := by simp
  entries := by simp [GroupStream.empty]
  unread := by simp
  waiting := by simp
  handed := handed_start some _ ()
  at_call := trivial
  flushed := by simp

theorem AtCall.append {webhookStreams : List δ} {log : List (Event δ β)} {router : BlockRouter δ β}
    (h : AtCall webhookStreams log router) (more : List (Event δ β)) :
    AtCall webhookStreams (log ++ more) router := by
  obtain ⟨loop, call⟩ := router
  cases loop with
  | handler msgs isBacklogMsg =>
    obtain ⟨hne, hcall⟩ := h
    refine ⟨hne, ?_⟩
    cases call with
    | putBlocks => trivial
    | flush running failed =>
      obtain ⟨hput, hflushed⟩ := hcall
      exact ⟨fun m hm => (hput m hm).append more,
        fun hok d hd hran m hm => (hflushed hok d hd hran m hm).append more⟩
    | xAckDel => exact fun m hm => (hcall m hm).append more
  | _ => trivial

/-- A new message waits in the stream. -/
private theorem RouterInv.post {webhookStreams : List δ}
    {stream : GroupStream Unit (BlockStreamMsgData β)} {router : BlockRouter δ β}
    {log : List (Event δ β)} (h : RouterInv webhookStreams stream router log)
    (msg : BlockStreamMsgData β) :
    RouterInv webhookStreams (stream.xadd msg) router
      (log ++ [.posted (stream.lastId + 1) msg]) where
  posted_le := by
    intro id msg' hmem
    show id ≤ stream.lastId + 1
    cases List.mem_append.1 hmem with
    | inl hold => exact Nat.le_succ_of_le (h.posted_le id msg' hold)
    | inr hnew =>
      cases List.mem_singleton.1 hnew
      exact Nat.le_refl _
  posted_unique := by
    intro id a b ha hb
    -- the new ID is above all old ones
    cases List.mem_append.1 ha with
    | inl ha =>
      cases List.mem_append.1 hb with
      | inl hb => exact h.posted_unique id a b ha hb
      | inr hb =>
        cases List.mem_singleton.1 hb
        have hle := h.posted_le _ _ ha
        omega
    | inr ha =>
      cases List.mem_singleton.1 ha
      cases List.mem_append.1 hb with
      | inl hb =>
        have hle := h.posted_le _ _ hb
        omega
      | inr hb =>
        cases List.mem_singleton.1 hb
        rfl
  entries := by
    intro id msg' hmem
    rw [GroupStream.entries_xadd] at hmem
    cases List.mem_append.1 hmem with
    | inl hold => exact List.mem_append_left _ (h.entries id msg' hold)
    | inr hnew =>
      cases List.mem_singleton.1 hnew
      exact List.mem_append_right _ (List.mem_singleton.2 rfl)
  unread := by
    intro id msg' hmem hmark
    cases List.mem_append.1 hmem with
    | inl hold => exact List.mem_append_left _ (h.unread id msg' hold hmark)
    | inr hnew =>
      cases List.mem_singleton.1 hnew
      exact List.mem_append_right _ (List.mem_singleton.2 rfl)
  waiting := by
    intro id msg' hmem
    cases List.mem_append.1 hmem with
    | inl hold =>
      cases h.waiting id msg' hold with
      | inl hdone => exact .inl (hdone.append _)
      | inr hwait => exact .inr ⟨List.mem_append_left _ hwait.1, hwait.2⟩
    | inr hnew =>
      cases List.mem_singleton.1 hnew
      have hnotRead : stream.lastDelivered < stream.lastId + 1 :=
        Nat.lt_succ_of_le stream.delivered_le
      exact .inr ⟨List.mem_append_right _ (List.mem_singleton.2 rfl), .inl hnotRead⟩
  handed := h.handed.mono (List.Subset.refl _) (List.subset_append_left _ _)
  at_call := h.at_call.append _
  flushed := by
    intro d height hmem
    cases List.mem_append.1 hmem with
    | inl hold =>
      obtain ⟨b, hb, hle⟩ := h.flushed d height hold
      exact ⟨b, by rw [blocksPut_append]; exact List.mem_append_left _ hb, hle⟩
    | inr hnew => cases List.mem_singleton.1 hnew

/-- What an action of the router has to respect: messages stop waiting only when they are done,
    and a flush stays at or below what was put. -/
private theorem RouterInv.move {webhookStreams : List δ}
    {stream stream' : GroupStream Unit (BlockStreamMsgData β)} {router router' : BlockRouter δ β}
    {log : List (Event δ β)} (h : RouterInv webhookStreams stream router log)
    (effect : Option (Effect δ β)) (hlast : stream'.lastId = stream.lastId)
    (hentries : stream'.entries ⊆ stream.entries)
    (hmark : stream.lastDelivered ≤ stream'.lastDelivered)
    (hunread : ∀ e ∈ stream.unread, stream'.lastDelivered < e.1 → e ∈ stream'.entries)
    (hwait : ∀ id msg, Waiting stream id msg →
      Done webhookStreams log msg.height ∨ Waiting stream' id msg)
    (hhanded : Handed some stream' () router'.loop)
    (hat : AtCall webhookStreams (log ++ (effect.map .executed).toList) router')
    (hflush : ∀ d height, effect = some (.flush d height) →
      ∃ b ∈ blocksPut log, height ≤ b.height) :
    RouterInv webhookStreams stream' router' (log ++ (effect.map .executed).toList) := by
  have hposted : ∀ id msg, .posted id msg ∈ log ++ (effect.map Event.executed).toList →
      .posted id msg ∈ log := by
    intro id msg hmem
    cases List.mem_append.1 hmem with
    | inl hold => exact hold
    | inr hnew =>
      cases effect with
      | none => cases hnew
      | some effect => cases List.mem_singleton.1 hnew
  refine ⟨?_, ?_, ?_, ?_, ?_, hhanded, hat, ?_⟩
  · -- posted_le
    intro id msg hmem
    rw [hlast]
    exact h.posted_le id msg (hposted id msg hmem)
  · -- posted_unique
    intro id a b ha hb
    exact h.posted_unique id a b (hposted id a ha) (hposted id b hb)
  · -- entries
    intro id msg hmem
    exact List.mem_append_left _ (h.entries id msg (hentries hmem))
  · -- unread: what is above the new mark was above the old one
    intro id msg hmem hlt
    have hlt' := Nat.lt_of_le_of_lt hmark hlt
    have hold := h.unread id msg (hposted id msg hmem) hlt'
    exact hunread (id, msg) (GroupStream.mem_unread.2 ⟨hold, hlt'⟩) hlt
  · -- waiting
    intro id msg hmem
    have hcases : Done webhookStreams log msg.height ∨ Waiting stream' id msg := by
      cases h.waiting id msg (hposted id msg hmem) with
      | inl hdone => exact .inl hdone
      | inr hwaiting => exact hwait id msg hwaiting
    exact hcases.imp_left fun hdone => hdone.append _
  · -- flushed
    intro d height hmem
    have hput : ∃ b ∈ blocksPut log, height ≤ b.height := by
      cases List.mem_append.1 hmem with
      | inl hold => exact h.flushed d height hold
      | inr hnew =>
        cases effect with
        | none => cases hnew
        | some effect =>
          cases List.mem_singleton.1 hnew
          exact hflush d height rfl
    obtain ⟨b, hb, hle⟩ := hput
    exact ⟨b, by rw [blocksPut_append]; exact List.mem_append_left _ hb, hle⟩

/-- An action that leaves the block stream as it is. -/
private theorem RouterInv.stay {webhookStreams : List δ}
    {stream : GroupStream Unit (BlockStreamMsgData β)} {router router' : BlockRouter δ β}
    {log : List (Event δ β)} (h : RouterInv webhookStreams stream router log)
    (effect : Option (Effect δ β)) (hhanded : Handed some stream () router'.loop)
    (hat : AtCall webhookStreams (log ++ (effect.map .executed).toList) router')
    (hflush : ∀ d height, effect = some (.flush d height) →
      ∃ b ∈ blocksPut log, height ≤ b.height) :
    RouterInv webhookStreams stream router' (log ++ (effect.map .executed).toList) :=
  h.move effect rfl (List.Subset.refl _) (Nat.le_refl _)
    (fun _ he _ => (GroupStream.mem_unread.1 he).1) (fun _ _ hw => .inr hw) hhanded hat hflush

/-- After a read the handler starts from its first call, with a batch that is not empty. -/
private theorem atCall_read {webhookStreams : List δ} {log : List (Event δ β)}
    {loop : Subscriber (BlockStreamMsgData β)}
    (hne : ∀ msgs isBacklogMsg, loop = .handler msgs isBacklogMsg → msgs ≠ []) :
    AtCall webhookStreams log ⟨loop, .putBlocks⟩ := by
  cases loop with
  | handler msgs isBacklogMsg => exact ⟨hne msgs isBacklogMsg rfl, trivial⟩
  | _ => trivial

/-- When the handler has returned, nothing is claimed. -/
private theorem atCall_handled {webhookStreams : List δ} {log : List (Event δ β)}
    (msgs : List (ParsedStreamMessage (BlockStreamMsgData β))) (isBacklogMsg : Bool) :
    AtCall webhookStreams log (resume msgs isBacklogMsg none) := by
  cases isBacklogMsg with
  | true => trivial
  | false => trivial

/-- Once every goroutine is accounted for, the batch may be acknowledged. -/
private theorem atCall_afterFlush {webhookStreams : List δ} {log : List (Event δ β)}
    {msgs : List (ParsedStreamMessage (BlockStreamMsgData β))} (hne : msgs ≠ [])
    (isBacklogMsg : Bool) (running : List δ) (failed : Bool)
    (hcall : CallAt webhookStreams log msgs (.flush running failed)) :
    AtCall webhookStreams log (resume msgs isBacklogMsg (afterFlush running failed)) := by
  obtain ⟨hput, hflushed⟩ := hcall
  cases running with
  | nil =>
    cases failed with
    | true => exact atCall_handled msgs isBacklogMsg
    | false =>
      -- no goroutine is left and none has failed, so every shard was flushed
      exact ⟨hne, fun m hm => ⟨hput m hm, fun d hd => hflushed rfl d hd List.not_mem_nil m hm⟩⟩
  | cons d running => exact ⟨hne, hput, hflushed⟩

/-- Once the put is executed, the block of each message has been put. -/
private theorem callAt_afterPut {webhookStreams : List δ} {log : List (Event δ β)}
    (msgs : List (ParsedStreamMessage (BlockStreamMsgData β))) :
    CallAt webhookStreams (log ++ [.executed (.putBlocks (blocksOf msgs))]) msgs
      (.flush webhookStreams false) := by
  refine ⟨fun m hm => ?_, fun _ d hd hran => absurd hd hran⟩
  refine ⟨⟨m.data.block, m.data.height⟩, ?_, rfl⟩
  rw [blocksPut_append]
  apply List.mem_append_right
  simp only [blocksPut, List.flatMap_cons, List.flatMap_nil, List.append_nil]
  exact List.mem_map.2 ⟨m, hm, rfl⟩

/-- The height of a flush is one of the batch, and the batch was put. -/
private theorem put_maxHeight {log : List (Event δ β)}
    {msgs : List (ParsedStreamMessage (BlockStreamMsgData β))} (hne : msgs ≠ [])
    (hput : ∀ m ∈ msgs, PutAt log m.data.height) :
    ∃ b ∈ blocksPut log, maxHeight msgs ≤ b.height := by
  obtain ⟨m, hm, hmax⟩ := exists_maxHeight hne
  obtain ⟨b, hb, hheight⟩ := hput m hm
  exact ⟨b, hb, by rw [hheight, hmax]; exact UInt64.le_refl _⟩

/-- A message outside the batch waits on when the batch is acknowledged. -/
private theorem waiting_afterAck {stream : GroupStream Unit (BlockStreamMsgData β)} {id : Nat}
    {msg : BlockStreamMsgData β} (h : Waiting stream id msg) {ids : List Nat} (hid : id ∉ ids) :
    Waiting (xAckDel stream ids) id msg := by
  refine ⟨List.mem_filter.2 ⟨h.1, decide_eq_true hid⟩, ?_⟩
  show _ ∨ id ∈ (xAckDel stream _).pelIds ()
  rw [pelIds_xAckDel]
  exact h.2.imp_right fun hpel => List.mem_filter.2 ⟨hpel, decide_eq_true hid⟩

/-- The acknowledgement at the end retires the batch, whose effects are done by then. -/
private theorem RouterInv.acknowledge {webhookStreams : List δ}
    {stream : GroupStream Unit (BlockStreamMsgData β)} {log : List (Event δ β)}
    {msgs : List (ParsedStreamMessage (BlockStreamMsgData β))} {isBacklogMsg : Bool}
    (h : RouterInv webhookStreams stream ⟨.handler msgs isBacklogMsg, .xAckDel⟩ log) :
    RouterInv webhookStreams (xAckDel stream (msgs.map ParsedStreamMessage.id))
      (resume msgs isBacklogMsg none)
      (log ++ [.executed (.xAckDel (msgs.map ParsedStreamMessage.id))]) := by
  have hcall := h.at_call.2
  have hhanded := handed_handled some (xAckDel stream (msgs.map ParsedStreamMessage.id)) ()
    msgs isBacklogMsg
  refine h.move (some (.xAckDel (msgs.map ParsedStreamMessage.id))) rfl
    (List.filter_subset_self _) (Nat.le_refl _) ?_ ?_ hhanded (atCall_handled msgs isBacklogMsg)
    (by simp)
  · -- what is unread is not in the batch
    intro e he hlt
    refine List.mem_filter.2 ⟨(GroupStream.mem_unread.1 he).1, decide_eq_true fun hid => ?_⟩
    obtain ⟨m, hm, hmid⟩ := List.mem_map.1 hid
    have hle := (GroupStream.pelIds_bounded (h.handed m hm).1).2
    have hlt' : stream.lastDelivered < e.1 := hlt
    omega
  · intro id msg hwaiting
    by_cases hid : id ∈ msgs.map ParsedStreamMessage.id
    · -- the message is in the batch, and the batch is done
      obtain ⟨m, hm, rfl⟩ := List.mem_map.1 hid
      obtain ⟨-, v, hv, hdata⟩ := h.handed m hm
      have hmsg : msg = m.data :=
        (GroupStream.entry_unique hwaiting.1 hv).trans (Option.some.inj hdata)
      exact .inl (hmsg ▸ hcall m hm)
    · exact .inr (waiting_afterAck hwaiting hid)

variable [DecidableEq δ]

/-- A flush that is executed adds its shard to the ones flushed. -/
private theorem callAt_flushed {webhookStreams : List δ} {log : List (Event δ β)}
    {msgs : List (ParsedStreamMessage (BlockStreamMsgData β))} {running : List δ} {failed : Bool}
    (hcall : CallAt webhookStreams log msgs (.flush running failed)) (shard : δ) (failed' : Bool) :
    CallAt webhookStreams (log ++ [.executed (.flush shard (maxHeight msgs))]) msgs
      (.flush (running.erase shard) (failed || failed')) := by
  obtain ⟨hput, hflushed⟩ := hcall
  refine ⟨fun m hm => (hput m hm).append _, fun hok d hd hran m hm => ?_⟩
  have hfailed : failed = false := (Bool.or_eq_false_iff.1 hok).1
  by_cases hshard : d = shard
  · -- flushed just now, with the greatest height of the batch
    rw [hshard]
    exact (hput m hm).flush shard (le_maxHeight hm)
  · have hran' : d ∉ running := fun hmem => hran ((List.mem_erase_of_ne hshard).2 hmem)
    exact (hflushed hfailed d hd hran' m hm).append _

/-- A call of the handler keeps the invariant. -/
private theorem RouterInv.call {webhookStreams : List δ}
    {stream : GroupStream Unit (BlockStreamMsgData β)} {log : List (Event δ β)}
    {msgs : List (ParsedStreamMessage (BlockStreamMsgData β))} {isBacklogMsg : Bool}
    {call : RouterCall δ} {effect : Option (Effect δ β)} {next : Option (RouterCall δ)}
    (h : RouterInv webhookStreams stream ⟨.handler msgs isBacklogMsg, call⟩ log)
    (hstep : RouterStep webhookStreams msgs call effect next) :
    RouterInv webhookStreams (streamAfter stream effect) (resume msgs isBacklogMsg next)
      (log ++ (effect.map .executed).toList) := by
  obtain ⟨hne, hcall⟩ := h.at_call
  -- whichever call is next, the handler works on the same messages
  have hsame : ∀ next : Option (RouterCall δ),
      Handed some stream () (resume msgs isBacklogMsg next : BlockRouter δ β).loop := by
    intro next
    cases next with
    | none => exact handed_handled some stream () msgs isBacklogMsg
    | some next => exact h.handed
  cases hstep with
  | fails =>
    exact h.stay none (hsame none) (atCall_handled msgs isBacklogMsg) (by simp)
  | putBlocks next hnext =>
    apply h.stay _ (hsame next) ?_ (by simp)
    cases hnext with
    | inl hfailed =>
      subst hfailed
      exact atCall_handled msgs isBacklogMsg
    | inr hok =>
      subst hok
      exact atCall_afterFlush hne isBacklogMsg webhookStreams false (callAt_afterPut msgs)
  | flush running failed d hrunning failed' =>
    apply h.stay _ (hsame _)
    · exact atCall_afterFlush hne isBacklogMsg _ _ (callAt_flushed hcall d failed')
    · intro d' height heq
      cases heq
      exact put_maxHeight hne hcall.1
  | notFlushed running failed d =>
    -- from now on the batch counts as failed, and nothing is claimed about the shards
    apply h.stay none (hsame _) ?_ (by simp)
    apply atCall_afterFlush hne
    exact ⟨fun m hm => (hcall.1 m hm).append _, fun hok => by cases hok⟩
  | xAckDel => exact h.acknowledge

/-- The router keeps the discipline of its subscription. -/
theorem LoopInv.routerMove {batchSize : Nat} {webhookStreams : List δ}
    {stream stream' : GroupStream Unit (BlockStreamMsgData β)} {router router' : BlockRouter δ β}
    {action : RouterAction δ} {effect : Option (Effect δ β)}
    (h : LoopInv stream () batchSize router.loop)
    (hmove : RouterMove batchSize webhookStreams stream action router stream' router' effect) :
    LoopInv stream' () batchSize router'.loop := by
  cases hmove with
  | crash => exact h.start
  | readBacklog cursorId call loop _ hread => exact h.readBacklog hread
  | readNew call loop _ hread => exact h.readNew hread
  | call msgs isBacklogMsg call _ effect next hstep =>
    have hafter : LoopInv (streamAfter stream effect) () batchSize
        (.handler msgs isBacklogMsg : Subscriber (BlockStreamMsgData β)) := by
      cases effect with
      | none => exact h
      | some effect =>
        cases effect with
        | xAckDel msgIDs => exact h.xAckDel msgIDs
        | _ => exact h
    cases next with
    | none => exact hafter.handled
    | some next => exact hafter

/-- Every action of the router keeps the invariant. -/
theorem RouterInv.routerMove {batchSize : Nat} (hbatch : 0 < batchSize)
    {webhookStreams : List δ} {stream stream' : GroupStream Unit (BlockStreamMsgData β)}
    {router router' : BlockRouter δ β} {log : List (Event δ β)} {action : RouterAction δ}
    {effect : Option (Effect δ β)} (h : RouterInv webhookStreams stream router log)
    (hmove : RouterMove batchSize webhookStreams stream action router stream' router' effect) :
    RouterInv webhookStreams stream' router' (log ++ (effect.map .executed).toList) := by
  cases hmove with
  | crash =>
    exact h.stay none (handed_start some _ ()) trivial (by simp)
  | readBacklog cursorId call loop _ hread =>
    -- what is pending stays pending
    have hne := handler_ne_nil_of_readBacklog hread
    have hhanded := handed_readBacklog hread
    obtain ⟨rfl, -⟩ := readBacklog_cases hread
    refine h.move none rfl (List.Subset.refl _) (Nat.le_refl _)
      (fun _ he _ => (GroupStream.mem_unread.1 he).1) ?_ hhanded (atCall_read hne) (by simp)
    intro id msg hwaiting
    refine .inr ⟨hwaiting.1, ?_⟩
    rw [GroupStream.pelIds_xreadgroupFrom]
    exact hwaiting.2
  | readNew call loop _ hread =>
    have hne := handler_ne_nil_of_readNew hbatch hread
    have hhanded := handed_readNew hread
    obtain ⟨rfl, -, -⟩ := readNew_cases hread
    refine h.move none rfl (List.Subset.refl _)
      (GroupStream.lastDelivered_le_xreadgroupNew stream () batchSize)
      (fun _ he _ => (GroupStream.mem_unread.1 he).1) ?_ hhanded (atCall_read hne) (by simp)
    intro id msg hwaiting
    refine .inr ⟨hwaiting.1, ?_⟩
    rw [GroupStream.pelIds_xreadgroupNew_self, List.mem_append]
    cases hwaiting.2 with
    | inl hunread =>
      -- below the new mark it was in the batch that was read
      by_cases hmark : id ≤ (stream.xreadgroupNew () batchSize).2.lastDelivered
      · have hmem := GroupStream.mem_take_of_le_lastDelivered
          (GroupStream.mem_unread.2 ⟨hwaiting.1, hunread⟩) hmark
        exact .inr (.inr (List.mem_map_of_mem hmem))
      · exact .inl (Nat.not_le.1 hmark)
    | inr hpel => exact .inr (.inl hpel)
  | call msgs isBacklogMsg call _ effect next hstep => exact h.call hstep

end Router

section Feed

variable {δ κ ι T β : Type} [DecidableEq δ] [DecidableEq κ] [DecidableEq ι] [LinearOrder T]
  [JobText ι T] [LinearOrder (BlockDocument β)]

/-- Every action of the feed keeps the invariant. -/
theorem RouterInv.feedStep {batchSize : Nat} (hbatch : 0 < batchSize) {webhookStreams : List δ}
    {s s' : Feed δ κ ι T β} {log : List (Event δ β)} {action : FeedAction δ κ ι β}
    (h : RouterInv webhookStreams s.blockStream s.router log)
    (hfeed : FeedStep batchSize webhookStreams s action s') :
    RouterInv webhookStreams s'.blockStream s'.router
      (log ++ events batchSize webhookStreams s action) := by
  have hview := streamView_of_feedStep hfeed
  generalize events batchSize webhookStreams s action = new at hview ⊢
  cases hview with
  | same _ hstream hrouter =>
    rw [hstream, hrouter, List.append_nil]
    exact h
  | posted _ msg hstream hrouter =>
    rw [hstream, hrouter]
    exact h.post msg
  | router action effect hmove => exact h.routerMove hbatch hmove

theorem LoopInv.feedStep {batchSize : Nat} {webhookStreams : List δ} {s s' : Feed δ κ ι T β}
    {action : FeedAction δ κ ι β} (h : LoopInv s.blockStream () batchSize s.router.loop)
    (hfeed : FeedStep batchSize webhookStreams s action s') :
    LoopInv s'.blockStream () batchSize s'.router.loop := by
  have hview := streamView_of_feedStep hfeed
  generalize events batchSize webhookStreams s action = new at hview
  cases hview with
  | same _ hstream hrouter =>
    rw [hstream, hrouter]
    exact h
  | posted _ msg hstream hrouter =>
    rw [hstream, hrouter]
    exact h.xadd msg
  | router action effect hmove => exact h.routerMove hmove

theorem routerInv_run {batchSize : Nat} (hbatch : 0 < batchSize) {webhookStreams : List δ}
    {as : List (FeedAction δ κ ι β)} {s : Feed δ κ ι T β} {log : List (Event δ β)}
    (h : run (feedHistory batchSize webhookStreams) (.init, []) as = some (s, log)) :
    RouterInv webhookStreams s.blockStream s.router log := by
  apply run_invariant (P := fun t : Feed δ κ ι T β × List (Event δ β) =>
    RouterInv webhookStreams t.1.blockStream t.1.router t.2) ?_ h (routerInv_init webhookStreams)
  intro ⟨s, log⟩ a ⟨s', log'⟩ hstep hinv
  obtain ⟨hfeed, rfl⟩ := feedStep_of_history hstep
  exact hinv.feedStep hbatch hfeed

/-- Whatever fails and whenever the router crashes, a block message that has been acknowledged or
    deleted has its height in the block store, and every shard was flushed at least up to that
    height after it was stored; no shard is ever flushed above the largest stored height. -/
theorem retired_afterEffects {batchSize : Nat} (hbatch : 0 < batchSize) {webhookStreams : List δ}
    {as : List (FeedAction δ κ ι β)} {s : Feed δ κ ι T β} {log : List (Event δ β)}
    (h : run (feedHistory batchSize webhookStreams) (.init, []) as = some (s, log)) :
    (∀ id msg, .posted id msg ∈ log → Retired s.blockStream id →
      (∃ r, s.stores.store.Stored r ∧ r.height = msg.height) ∧
        ∀ d ∈ webhookStreams, FlushedAfter log d msg.height) ∧
      ∀ d height, .executed (.flush d height) ∈ log →
        ∃ r, s.stores.store.Stored r ∧ height ≤ r.height := by
  have hinv := routerInv_run hbatch h
  have hkept := (stores_of_history h).flushInv.kept
  constructor
  · -- it waits no longer, so it is done
    intro id msg hposted hretired
    obtain ⟨⟨b, hb, hh⟩, hflushed⟩ :=
      (hinv.waiting id msg hposted).resolve_right (hretired.not_waiting msg)
    obtain ⟨r, hr, hheight⟩ := hkept b hb
    exact ⟨⟨r, hr, hheight.trans hh⟩, hflushed⟩
  · intro d height hmem
    obtain ⟨b, hb, hle⟩ := hinv.flushed d height hmem
    obtain ⟨r, hr, hheight⟩ := hkept b hb
    exact ⟨r, hr, hheight ▸ hle⟩

end Feed

/-- One block and two shards: a flush fails after it took effect, the router crashes during the
    retry, and the acknowledgement reports an error although it was executed. -/
def retriedBatch : List (FeedAction Nat Unit Nat Nat) :=
  [.forwarderReadCache, .forwarderReadWrapped 5, .forward 10, .router .readBacklog,
    .router .readNew, .router (.putBlocks .ok), .router (.flush 1 .executedThenFailed),
    .router (.flush 0 .ok), .router .readBacklog, .router (.putBlocks .executedThenFailed),
    .router .crash, .router .readBacklog, .router (.putBlocks .ok), .router (.flush 0 .ok),
    .router (.flush 1 .ok), .router (.xAckDel .executedThenFailed)]

theorem retired_afterEffects_retriedBatch :
    ∃ (s : Feed Nat Unit Nat TupleText Nat) (log : List (Event Nat Nat)),
      run (feedHistory 3 [0, 1]) (.init, []) retriedBatch = some (s, log) ∧
        Retired s.blockStream 1 ∧
        ((∀ id msg, .posted id msg ∈ log → Retired s.blockStream id →
          (∃ r, s.stores.store.Stored r ∧ r.height = msg.height) ∧
            ∀ d ∈ [0, 1], FlushedAfter log d msg.height) ∧
          ∀ d height, .executed (.flush d height) ∈ log →
            ∃ r, s.stores.store.Stored r ∧ height ≤ r.height) :=
  ⟨_, _, rfl, .inl (fun _ => List.not_mem_nil),
    retired_afterEffects (by decide)
      (show run (feedHistory 3 [0, 1]) (.init, []) retriedBatch = some (_, _) from rfl)⟩

end BlockFeed.Spec
