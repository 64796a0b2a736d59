import BlockFeed.Spec.ForwarderOrder
import BlockFeed.Spec.GaplessReads
import BlockFeed.Spec.LatestBlock

/-!
# The steady state of a webhook

When the first job of a webhook is acknowledged, its next job is for some height, and from there
on the heights sent to it are meant to follow one another. `Progress` is how far each webhook is,
as recorded from the POSTs and acknowledgements of a run. `SteadyInv` says that the one job a
webhook has is for its next height, or that this height was just sent and the consumer is about to
acknowledge it.

`served_inOrder` is the result for runs in which no read of the relay meets a gap in the cache.
A forwarder that restarts while the router lags makes such a gap: `putBelowFlushed`.
-/

namespace BlockFeed.Spec

open BlockFeed.Native Redis Transition

/-- What an action means for a webhook. -/
inductive Delivery (ι : Type) where
  /-- a POST of blocks with these heights -/
  | sent (id : ι) (heights : List UInt64)
  /-- the IsNew message is acknowledged and the next job is for this height -/
  | acknowledged (id : ι) (blockHeight : UInt64)
  /-- the webhook leaves its shard -/
  | removed (id : ι)
deriving DecidableEq

/-- For every webhook in its steady state the height it began with and the heights sent since. -/
abbrev Progress (ι : Type) : Type := ι → Option (UInt64 × List UInt64)

/-- The progress after a delivery. -/
def Progress.after {ι : Type} [DecidableEq ι] (p : Progress ι) : Option (Delivery ι) → Progress ι
  | none => p
  | some (.sent id heights) =>
    Function.update p id ((p id).map fun q => (q.1, q.2 ++ heights))
  | some (.acknowledged id blockHeight) =>
    Function.update p id (some ((p id).getD (blockHeight, [])))
  | some (.removed id) => Function.update p id none

/-- The heights sent to every webhook are the ones from its first height on. -/
def InSequence {ι : Type} (p : Progress ι) : Prop :=
  ∀ id first heights, p id = some (first, heights) →
    heights.map UInt64.toNat = List.range' first.toNat heights.length

section Shard

variable {κ ι T β : Type}

/-- The delivery that an action of a shard makes. -/
def deliveryOf [LinearOrder T] (s : RelayState κ ι T β) : RelayAction κ ι β → Option (Delivery ι)
  | .consumer c .post =>
    match s.consumers c with
    | ⟨.handler (msg :: _) _, .post blocks⟩ =>
      some (.sent msg.data.webhookID (blocks.map BlockDocument.height))
    | _ => none
  | .consumer c .xAckDel =>
    match s.consumers c with
    | ⟨.handler (msg :: _) _, .xAckDel none⟩ => some (.removed msg.data.webhookID)
    | ⟨.handler (msg :: _) _, .xAckDel (some newMsg)⟩ =>
      if msg.data.isNew ∧ ¬ newMsg.isNew then
        some (.acknowledged msg.data.webhookID newMsg.blockHeight)
      else none
    | _ => none
  | _ => none

/-- A call that may fail without anything being sent twice. -/
def MayFail : RelayCall ι β → Prop
  | .post _ | .xAckDel (some _) => False
  | _ => True

/-- The job has been delivered less often than its webhook allows. -/
def RetriesLeft [DecidableEq κ] (stream : GroupStream κ T) (c : κ) : RelayConsumer ι β → Prop
  | ⟨.handler (msg :: _) _, .getPendingMsg webhook⟩ =>
    ∀ pendingMsg ∈ stream.xpending c msg.id, (pendingMsg.deliveries : Int) < webhook.maxRetries
  | _ => True

/-- No call fails and no consumer crashes from a POST up to its acknowledgement, and no job is
    given up. -/
def Calm [DecidableEq κ] [LinearOrder T] (s : RelayState κ ι T β) : RelayAction κ ι β → Prop
  | .consumer c .callFails | .consumer c .crash => MayFail (s.consumers c).call
  | .consumer c .getPendingMsg => RetriesLeft s.shard.webhookStream c (s.consumers c)
  | _ => True

/-- The cache has no gap in the range that a consumer reads for a job that is not new. -/
def RangeNoGap [LinearOrder (BlockDocument β)] (store : RedisBlockStore β) :
    RelayConsumer ι β → Prop
  | ⟨.handler (msg :: _) _, .readCache webhook⟩ =>
    msg.data.isNew = false →
      NoGap store msg.data.blockHeight (msg.data.blockHeight + UInt64.ofInt webhook.maxBlocks - 1)
  | _ => True

/-- The same for an action of a shard. -/
def ReadsNoGap [LinearOrder T] [LinearOrder (BlockDocument β)] (store : RedisBlockStore β)
    (s : RelayState κ ι T β) : RelayAction κ ι β → Prop
  | .consumer c (.readCache _) => RangeNoGap store (s.consumers c)
  | _ => True

instance (call : RelayCall ι β) : Decidable (MayFail call) :=
  match call with
  | .post _ | .xAckDel (some _) => .isFalse id
  | .webhooksFindOne | .getPendingMsg _ | .readCache _ | .readWrapped _ | .xAckDel none
  | .panicked => .isTrue trivial

instance [DecidableEq κ] (stream : GroupStream κ T) (c : κ) (consumer : RelayConsumer ι β) :
    Decidable (RetriesLeft stream c consumer) :=
  match consumer with
  | ⟨.handler (msg :: _) _, .getPendingMsg webhook⟩ =>
    inferInstanceAs (Decidable (∀ pendingMsg ∈ stream.xpending c msg.id,
      (pendingMsg.deliveries : Int) < webhook.maxRetries))
  | ⟨.handler (_ :: _) _, .webhooksFindOne⟩ | ⟨.handler (_ :: _) _, .readCache _⟩
  | ⟨.handler (_ :: _) _, .readWrapped _⟩ | ⟨.handler (_ :: _) _, .post _⟩
  | ⟨.handler (_ :: _) _, .xAckDel _⟩ | ⟨.handler (_ :: _) _, .panicked⟩ | ⟨.handler [] _, _⟩
  | ⟨.processBacklogMsgs _, _⟩ | ⟨.processNewMsgs, _⟩ | ⟨.stopped, _⟩ => .isTrue trivial

instance [LinearOrder (BlockDocument β)] (store : RedisBlockStore β)
    (consumer : RelayConsumer ι β) : Decidable (RangeNoGap store consumer) :=
  match consumer with
  | ⟨.handler (msg :: _) _, .readCache webhook⟩ =>
    inferInstanceAs (Decidable (msg.data.isNew = false → NoGap store msg.data.blockHeight
      (msg.data.blockHeight + UInt64.ofInt webhook.maxBlocks - 1)))
  | ⟨.handler (_ :: _) _, .webhooksFindOne⟩ | ⟨.handler (_ :: _) _, .getPendingMsg _⟩
  | ⟨.handler (_ :: _) _, .readWrapped _⟩ | ⟨.handler (_ :: _) _, .post _⟩
  | ⟨.handler (_ :: _) _, .xAckDel _⟩ | ⟨.handler (_ :: _) _, .panicked⟩ | ⟨.handler [] _, _⟩
  | ⟨.processBacklogMsgs _, _⟩ | ⟨.processNewMsgs, _⟩ | ⟨.stopped, _⟩ => .isTrue trivial

instance [DecidableEq κ] [LinearOrder T] (s : RelayState κ ι T β) (a : RelayAction κ ι β) :
    Decidable (Calm s a) :=
  match a with
  | .consumer c .callFails | .consumer c .crash =>
    inferInstanceAs (Decidable (MayFail (s.consumers c).call))
  | .consumer c .getPendingMsg =>
    inferInstanceAs (Decidable (RetriesLeft s.shard.webhookStream c (s.consumers c)))
  | .consumer _ .readBacklog | .consumer _ .readNew | .consumer _ .webhooksFindOne
  | .consumer _ (.readCache _) | .consumer _ (.readWrapped _) | .consumer _ .post
  | .consumer _ .xAckDel | .activate _ | .flush _ | .setWebhook _ _ => .isTrue trivial

instance [LinearOrder T] [LinearOrder (BlockDocument β)] (store : RedisBlockStore β)
    (s : RelayState κ ι T β) (a : RelayAction κ ι β) : Decidable (ReadsNoGap store s a) :=
  match a with
  | .consumer c (.readCache _) => inferInstanceAs (Decidable (RangeNoGap store (s.consumers c)))
  | .consumer _ .readBacklog | .consumer _ .readNew | .consumer _ .webhooksFindOne
  | .consumer _ .getPendingMsg | .consumer _ (.readWrapped _) | .consumer _ .post
  | .consumer _ .xAckDel | .consumer _ .callFails | .consumer _ .crash | .activate _
  | .flush _ | .setWebhook _ _ => .isTrue trivial

/-- The job is for the next height of its webhook. -/
def OnTrack (p : Progress ι) (data : WebhookStreamMsgData ι) : Prop :=
  match p data.webhookID with
  | none => data.isNew = true
  | some (first, heights) =>
    data.isNew = false ∧ data.blockHeight.toNat = first.toNat + heights.length

/-- The consumer has sent the blocks of this message and acknowledges it next. -/
def Acknowledges (consumer : RelayConsumer ι β) (id : Nat) : Prop :=
  ∃ msg msgs isBacklogMsg newMsg, consumer.loop = .handler (msg :: msgs) isBacklogMsg ∧
    consumer.call = .xAckDel (some newMsg) ∧ msg.id = id

/-- What a call of a handler is about to send, or the job that is to follow. -/
def CallSteady [DecidableEq ι] (p : Progress ι) (rows : List (BlockDocument β)) :
    RelayConsumer ι β → Prop
  | ⟨.handler (msg :: _) _, .readWrapped read⟩ =>
    msg.data.isNew = false → Serves rows msg.data.blockHeight read
  | ⟨.handler (msg :: _) _, .post blocks⟩ =>
    msg.data.isNew = false → From msg.data.blockHeight.toNat blocks
  | ⟨.handler (msg :: _) _, .xAckDel (some newMsg)⟩ =>
    newMsg.isNew = false ∧
      if msg.data.isNew then p msg.data.webhookID = none else OnTrack p newMsg
  | _ => True

/-- The invariant of a shard. -/
structure SteadyInv [DecidableEq ι] [LinearOrder T] [JobText ι T] (p : Progress ι)
    (rows : List (BlockDocument β)) (s : RelayState κ ι T β) : Prop where
  inSequence : InSequence p
  member : ∀ id, p id ≠ none → id ∈ s.shard.webhookSet
  stream : ∀ e ∈ s.shard.webhookStream.entries, ∀ data, JobText.parse e.2 = some data →
    OnTrack p data ∨ ∃ c, Acknowledges (s.consumers c) e.1
  pending : ∀ e ∈ s.shard.pendingSet.entries, ∀ data, JobText.parse e.2 = some data →
    OnTrack p data
  calls : ∀ c, CallSteady p rows (s.consumers c)

theorem OnTrack.congr {p p' : Progress ι} {data : WebhookStreamMsgData ι} (h : OnTrack p data)
    (heq : p' data.webhookID = p data.webhookID) : OnTrack p' data := by
  unfold OnTrack
  rw [heq]
  exact h

variable [DecidableEq ι]

theorem CallSteady.mono {p : Progress ι} {rows rows' : List (BlockDocument β)}
    {consumer : RelayConsumer ι β} (h : CallSteady p rows consumer) (hsub : rows ⊆ rows') :
    CallSteady p rows' consumer := by
  unfold CallSteady at h ⊢
  split
  · exact fun hold => (h hold).mono hsub
  · exact h
  · exact h
  · trivial

/-- Only the progress of its own webhook matters to a call. -/
theorem CallSteady.congr {p p' : Progress ι} {rows : List (BlockDocument β)}
    {consumer : RelayConsumer ι β} (h : CallSteady p rows consumer)
    (hsame : SameWebhook consumer)
    (heq : ∀ msg ∈ handed consumer.loop, p' msg.data.webhookID = p msg.data.webhookID) :
    CallSteady p' rows consumer := by
  obtain ⟨loop, call⟩ := consumer
  cases loop with
  | handler msgs isBacklogMsg =>
    cases msgs with
    | nil => trivial
    | cons msg msgs =>
      have hp := heq msg List.mem_cons_self
      cases call with
      | readWrapped read => exact h
      | post blocks => exact h
      | xAckDel newMsg =>
        cases newMsg with
        | none => trivial
        | some newMsg =>
          obtain ⟨hflag, hprogress⟩ := h
          have hwebhook := hsame msg msgs isBacklogMsg newMsg rfl rfl
          refine ⟨hflag, ?_⟩
          split
          · next hisNew =>
            rw [if_pos hisNew] at hprogress
            rw [hp]
            exact hprogress
          · next hisNew =>
            rw [if_neg hisNew] at hprogress
            apply hprogress.congr
            rw [hwebhook]
            exact hp
      | _ => trivial
  | _ => trivial

variable [LinearOrder T] [JobText ι T]

theorem steadyInv_init (rows : List (BlockDocument β)) :
    SteadyInv (fun _ => none) rows (.init : RelayState κ ι T β) where
  inSequence := by
    intro id first heights h
    cases h
  member := fun _ h => absurd rfl h
  stream := by simp [RelayState.init, Shard.empty, GroupStream.empty]
  pending := by simp [RelayState.init, Shard.empty]
  calls := fun _ => trivial

theorem SteadyInv.mono {p : Progress ι} {rows rows' : List (BlockDocument β)}
    {s : RelayState κ ι T β} (h : SteadyInv p rows s) (hsub : rows ⊆ rows') :
    SteadyInv p rows' s :=
  ⟨h.inSequence, h.member, h.stream, h.pending, fun c => (h.calls c).mono hsub⟩

variable [DecidableEq κ]

omit [DecidableEq κ] in
private theorem steadyInv_activate {p : Progress ι} {rows : List (BlockDocument β)}
    {s : RelayState κ ι T β} (h : SteadyInv p rows s) (ids : List ι) :
    SteadyInv p rows { s with shard := s.shard.activate ids } where
  inSequence := h.inSequence
  member := by
    intro id hid
    rw [Shard.webhookSet_activate, Finset.mem_union]
    exact .inl (h.member id hid)
  stream := by
    rw [Shard.webhookStream_activate]
    exact h.stream
  pending := by
    intro e he data hdata
    cases Shard.mem_pendingSet_activate he with
    | inl he => exact h.pending e he data hdata
    | inr hnew =>
      -- a webhook that was not in the set has no progress
      obtain ⟨id, -, hnot, rfl⟩ := hnew
      rw [JobText.parse_encode] at hdata
      cases hdata
      have hnone : p id = none := by
        by_contra hsome
        exact hnot (h.member id hsome)
      simp only [OnTrack, hnone]
  calls := h.calls

omit [DecidableEq κ] in
/-- A flush moves jobs to the stream. -/
theorem steadyInv_flush {p : Progress ι} {rows : List (BlockDocument β)}
    {s : RelayState κ ι T β} (h : SteadyInv p rows s) (height : UInt64) :
    SteadyInv p rows { s with shard := s.shard.flush height } := by
  refine ⟨h.inSequence, ?_, ?_, ?_, h.calls⟩
  · rw [Shard.flush_eq]
    exact h.member
  · rw [Shard.flush_eq]
    intro e he data hdata
    cases GroupStream.mem_entries_xaddAll he with
    | inl hold => exact h.stream e hold data hdata
    | inr hmoved =>
      obtain ⟨q, hq, heq⟩ := List.mem_map.1 hmoved
      rw [← heq] at hdata
      exact .inl (h.pending q (List.mem_of_mem_filter hq) data hdata)
  · rw [Shard.flush_eq]
    exact fun e he => h.pending e (List.mem_of_mem_filter he)

/-- A consumer that was not about to acknowledge changes its own position only. -/
private theorem SteadyInv.update {p : Progress ι} {rows : List (BlockDocument β)}
    {s : RelayState κ ι T β} (h : SteadyInv p rows s) (shard : Shard κ ι T)
    (hset : shard.webhookSet = s.shard.webhookSet)
    (hentries : shard.webhookStream.entries = s.shard.webhookStream.entries)
    (hpending : shard.pendingSet = s.shard.pendingSet) {c : κ}
    (hnot : ∀ id, ¬ Acknowledges (s.consumers c) id) {consumer : RelayConsumer ι β}
    (hcall : CallSteady p rows consumer) :
    SteadyInv p rows
      { s with shard := shard, consumers := Function.update s.consumers c consumer } := by
  refine ⟨h.inSequence, ?_, ?_, ?_, ?_⟩
  · intro id hid
    rw [hset]
    exact h.member id hid
  · intro e he data hdata
    rw [hentries] at he
    cases h.stream e he data hdata with
    | inl hontrack => exact .inl hontrack
    | inr hack =>
      obtain ⟨d, hd⟩ := hack
      have hne : d ≠ c := fun heq => hnot e.1 (heq ▸ hd)
      refine .inr ⟨d, ?_⟩
      simp only [Function.update_of_ne hne]
      exact hd
  · intro e he
    rw [hpending] at he
    exact h.pending e he
  · intro d
    by_cases hd : d = c
    · subst hd
      simp only [Function.update_self]
      exact hcall
    · simp only [Function.update_of_ne hd]
      exact h.calls d

/-- A consumer that moves a job on changes the progress of its webhook only. -/
private theorem SteadyInv.advance {p p' : Progress ι} {rows : List (BlockDocument β)}
    {s : RelayState κ ι T β} (h : SteadyInv p rows s) (hcons : ConservationInv s) {c : κ}
    {msg : ParsedStreamMessage (WebhookStreamMsgData ι)}
    {msgs : List (ParsedStreamMessage (WebhookStreamMsgData ι))} {isBacklogMsg : Bool}
    (hloop : (s.consumers c).loop = .handler (msg :: msgs) isBacklogMsg)
    (hother : ∀ id, id ≠ msg.data.webhookID → p' id = p id) (hsequence : InSequence p')
    {shard : Shard κ ι T} {consumer : RelayConsumer ι β}
    (hmember : ∀ id, p' id ≠ none → id ∈ shard.webhookSet)
    (hstream : ∀ e ∈ shard.webhookStream.entries,
      (e ∈ s.shard.webhookStream.entries ∧ (e.1 = msg.id → Acknowledges consumer msg.id)) ∨
        ∀ data, JobText.parse e.2 = some data → OnTrack p' data)
    (hpending : ∀ e ∈ shard.pendingSet.entries, e ∈ s.shard.pendingSet.entries ∨
      ∀ data, JobText.parse e.2 = some data → OnTrack p' data)
    (hcall : CallSteady p' rows consumer) :
    SteadyInv p' rows
      { s with shard := shard, consumers := Function.update s.consumers c consumer } := by
  have hhanded : msg ∈ handed (s.consumers c).loop := by
    rw [hloop]
    exact List.mem_cons_self
  obtain ⟨-, hentry, hnone⟩ := only_job_of_handed hcons hhanded
  have hof : ∀ {job : T} {data : WebhookStreamMsgData ι}, JobText.parse job = some data →
      webhookOf job = some data.webhookID := by
    intro job data hdata
    rw [webhookOf, hdata, Option.map_some]
  refine ⟨hsequence, hmember, ?_, ?_, ?_⟩
  · intro e he data hdata
    cases hstream e he with
    | inr hnew => exact .inl (hnew data hdata)
    | inl hold =>
      obtain ⟨hold, hsame⟩ := hold
      by_cases hid : e.1 = msg.id
      · -- the job that moves on
        right
        refine ⟨c, ?_⟩
        simp only [Function.update_self]
        rw [hid]
        exact hsame hid
      · cases h.stream e hold data hdata with
        | inl hontrack =>
          left
          apply hontrack.congr
          apply hother
          intro heq
          exact hid (hentry e hold (heq ▸ hof hdata))
        | inr hack =>
          obtain ⟨d, hd⟩ := hack
          have hne : d ≠ c := by
            intro heq
            subst heq
            obtain ⟨msg', msgs', b, newMsg, hloop', -, hmsg⟩ := hd
            rw [hloop] at hloop'
            cases hloop'
            exact hid hmsg.symm
          refine .inr ⟨d, ?_⟩
          simp only [Function.update_of_ne hne]
          exact hd
  · intro e he data hdata
    cases hpending e he with
    | inr hnew => exact hnew data hdata
    | inl hold =>
      apply (h.pending e hold data hdata).congr
      apply hother
      intro heq
      exact hnone e.2 (SortedSet.mem_members_of_mem hold) (heq ▸ hof hdata)
  · intro d
    by_cases hd : d = c
    · subst hd
      simp only [Function.update_self]
      exact hcall
    · simp only [Function.update_of_ne hd]
      -- another consumer works on the job of another webhook
      have hwebhook : ∀ msg' ∈ handed (s.consumers d).loop,
          msg'.data.webhookID ≠ msg.data.webhookID := by
        intro msg' hmsg' heq
        obtain ⟨hpel', job', hjob', hdata'⟩ := hcons.handed d msg' hmsg'
        have hid : msg'.id = msg.id := hentry _ hjob' (heq ▸ hof hdata')
        obtain ⟨hpel, -⟩ := hcons.handed c msg hhanded
        rw [← hid] at hpel
        exact hd (GroupStream.pelIds_owner hpel' hpel)
      apply (h.calls d).congr (hcons.sameWebhook d)
      intro msg' hmsg'
      exact hother _ (hwebhook msg' hmsg')

omit [DecidableEq κ] [LinearOrder T] [JobText ι T] in
private theorem callSteady_first (p : Progress ι) (rows : List (BlockDocument β))
    (loop : Subscriber (WebhookStreamMsgData ι)) :
    CallSteady p rows (⟨loop, .webhooksFindOne⟩ : RelayConsumer ι β) := by
  cases loop with
  | handler msgs isBacklogMsg => cases msgs <;> trivial
  | _ => trivial

omit [DecidableEq κ] [DecidableEq ι] [LinearOrder T] [JobText ι T] in
/-- Nothing is acknowledged by a consumer that does not work on a message. -/
private theorem not_acknowledges_of_loop {consumer : RelayConsumer ι β}
    {loop : Subscriber (WebhookStreamMsgData ι)} (hloop : consumer.loop = loop)
    (hne : ∀ msgs isBacklogMsg, loop ≠ .handler msgs isBacklogMsg) (id : Nat) :
    ¬ Acknowledges consumer id := by
  rintro ⟨msg, msgs, isBacklogMsg, -, hloop', -, -⟩
  exact hne _ isBacklogMsg (hloop.symm.trans hloop')

omit [DecidableEq κ] [DecidableEq ι] [LinearOrder T] [JobText ι T] in
/-- Or by one that has not sent its blocks. -/
private theorem not_acknowledges_of_call {consumer : RelayConsumer ι β} {call : RelayCall ι β}
    (hcall : consumer.call = call) (hne : ∀ newMsg, call ≠ .xAckDel (some newMsg)) (id : Nat) :
    ¬ Acknowledges consumer id := by
  rintro ⟨-, -, -, newMsg, -, hcall', -⟩
  exact hne newMsg (hcall.symm.trans hcall')

/-- The message of a handler that has not sent its blocks is for the next height. -/
private theorem onTrack_of_handed {p : Progress ι} {rows : List (BlockDocument β)}
    {s : RelayState κ ι T β} (h : SteadyInv p rows s) (hcons : ConservationInv s) {c : κ}
    (hnot : ∀ id, ¬ Acknowledges (s.consumers c) id)
    {msg : ParsedStreamMessage (WebhookStreamMsgData ι)}
    (hmsg : msg ∈ handed (s.consumers c).loop) : OnTrack p msg.data := by
  obtain ⟨hpel, job, hentry, hjob⟩ := hcons.handed c msg hmsg
  apply (h.stream _ hentry _ hjob).resolve_right
  intro hack
  obtain ⟨d, hd⟩ := hack
  obtain ⟨msg', msgs', b, newMsg, hloop, -, hid⟩ := id hd
  have hmsg' : msg' ∈ handed (s.consumers d).loop := by
    rw [hloop]
    exact List.mem_cons_self
  obtain ⟨hpel', -⟩ := hcons.handed d msg' hmsg'
  have howner : d = c := GroupStream.pelIds_owner hpel' (hid ▸ hpel)
  exact hnot _ (howner ▸ hd)

omit [DecidableEq κ] [LinearOrder T] [JobText ι T] in
/-- The body goes on where the last one ended. -/
private theorem inSequence_sent {p p' : Progress ι} {data : WebhookStreamMsgData ι}
    {blocks : List (BlockDocument β)} (h : InSequence p) (hontrack : OnTrack p data)
    (hblocks : data.isNew = false → From data.blockHeight.toNat blocks)
    (hother : ∀ id, id ≠ data.webhookID → p' id = p id)
    (hself : p' data.webhookID = (p data.webhookID).map
      fun q => (q.1, q.2 ++ blocks.map BlockDocument.height)) : InSequence p' := by
  intro id first heights hid
  by_cases hw : id = data.webhookID
  · subst hw
    rw [hself] at hid
    obtain ⟨q, hq, heq⟩ := Option.map_eq_some_iff.1 hid
    cases heq
    simp only [OnTrack, hq] at hontrack
    have hfrom := hblocks hontrack.1
    rw [From, hontrack.2] at hfrom
    rw [List.map_append, h _ _ _ hq, List.map_map, List.length_append, List.length_map,
      ← List.range'_append_1]
    congr 1
  · rw [hother id hw] at hid
    exact h id first heights hid

omit [DecidableEq κ] [DecidableEq ι] [LinearOrder T] [JobText ι T] in
/-- The job that follows a body is for the height after the last one in it. -/
private theorem onTrack_sent {p p' : Progress ι} {data : WebhookStreamMsgData ι}
    {blocks : List (BlockDocument β)} (hontrack : OnTrack p data)
    (hblocks : data.isNew = false → From data.blockHeight.toNat blocks)
    (hself : p' data.webhookID = (p data.webhookID).map
      fun q => (q.1, q.2 ++ blocks.map BlockDocument.height)) {last : BlockDocument β}
    (hlast : blocks.getLast? = some last) (hroom : last.height.toNat + 1 < 2 ^ 64) :
    if data.isNew then p' data.webhookID = none
      else OnTrack p' ⟨data.webhookID, last.height + 1, false⟩ := by
  have hone : (1 : UInt64).toNat = 1 := rfl
  have hsucc : (last.height + 1).toNat = last.height.toNat + 1 := by
    rw [UInt64.toNat_add, hone]
    omega
  cases hp : p data.webhookID with
  | none =>
    simp only [OnTrack, hp] at hontrack
    rw [if_pos hontrack, hself, hp]
    rfl
  | some q =>
    obtain ⟨first, heights⟩ := q
    simp only [OnTrack, hp] at hontrack
    have hnext := From.getLast (hblocks hontrack.1) hlast
    rw [hp, Option.map_some] at hself
    simp only [hontrack.1, Bool.false_eq_true, if_false, OnTrack, hself, true_and,
      List.length_append, List.length_map]
    omega

/-- A POST of the blocks from the next height on. -/
private theorem SteadyInv.post {p : Progress ι} {rows : List (BlockDocument β)}
    {s : RelayState κ ι T β} (h : SteadyInv p rows s) (hcons : ConservationInv s) {c : κ}
    {msg : ParsedStreamMessage (WebhookStreamMsgData ι)}
    {msgs : List (ParsedStreamMessage (WebhookStreamMsgData ι))} {isBacklogMsg : Bool}
    {blocks : List (BlockDocument β)}
    (hc : s.consumers c = ⟨.handler (msg :: msgs) isBacklogMsg, .post blocks⟩)
    (hroom : ∀ b ∈ blocks, b.height.toNat + 1 < 2 ^ 64) {last : BlockDocument β}
    (hlast : blocks.getLast? = some last) :
    SteadyInv (p.after (some (.sent msg.data.webhookID (blocks.map BlockDocument.height)))) rows
      { s with
        consumers := Function.update s.consumers c
          ⟨.handler (msg :: msgs) isBacklogMsg,
            .xAckDel (some ⟨msg.data.webhookID, last.height + 1, false⟩)⟩ } := by
  have hloop : (s.consumers c).loop = .handler (msg :: msgs) isBacklogMsg := by rw [hc]
  have hnot := not_acknowledges_of_call (congrArg RelayConsumer.call hc) (by simp)
  have hontrack : OnTrack p msg.data := by
    apply onTrack_of_handed h hcons hnot
    rw [hloop]
    exact List.mem_cons_self
  have hblocks := h.calls c
  rw [hc] at hblocks
  have hother : ∀ id, id ≠ msg.data.webhookID →
      p.after (some (.sent msg.data.webhookID (blocks.map BlockDocument.height))) id = p id :=
    fun id hid => Function.update_of_ne hid ..
  have hself : p.after (some (.sent msg.data.webhookID (blocks.map BlockDocument.height)))
      msg.data.webhookID = (p msg.data.webhookID).map
        fun q => (q.1, q.2 ++ blocks.map BlockDocument.height) := Function.update_self ..
  generalize p.after (some (.sent msg.data.webhookID (blocks.map BlockDocument.height))) = p'
    at hother hself
  refine h.advance hcons hloop hother (inSequence_sent h.inSequence hontrack hblocks hother hself)
    ?_ (fun e he => .inl ⟨he, fun _ => ?_⟩) (fun e he => .inl he)
    ⟨rfl, onTrack_sent hontrack hblocks hself hlast (hroom last (List.mem_of_getLast? hlast))⟩
  · intro id hid
    apply h.member
    intro hnone
    by_cases hw : id = msg.data.webhookID
    · subst hw
      rw [hself, hnone] at hid
      exact hid rfl
    · rw [hother id hw] at hid
      exact hid hnone
  · exact ⟨msg, msgs, isBacklogMsg, _, rfl, rfl, rfl⟩

omit [DecidableEq κ] in
/-- An acknowledgement is the first one of its webhook, or the progress stays as it is. -/
private theorem SteadyInv.after_xAckDel {p : Progress ι} {rows : List (BlockDocument β)}
    {s : RelayState κ ι T β} (h : SteadyInv p rows s) {c : κ}
    {msg : ParsedStreamMessage (WebhookStreamMsgData ι)}
    {msgs : List (ParsedStreamMessage (WebhookStreamMsgData ι))} {isBacklogMsg : Bool}
    {newMsg : WebhookStreamMsgData ι}
    (hc : s.consumers c = ⟨.handler (msg :: msgs) isBacklogMsg, .xAckDel (some newMsg)⟩)
    (hwebhook : newMsg.webhookID = msg.data.webhookID) :
    (∀ id, id ≠ msg.data.webhookID →
        p.after (deliveryOf s (.consumer c .xAckDel)) id = p id) ∧
      OnTrack (p.after (deliveryOf s (.consumer c .xAckDel))) newMsg ∧
        InSequence (p.after (deliveryOf s (.consumer c .xAckDel))) := by
  have hcall := h.calls c
  rw [hc] at hcall
  obtain ⟨hflag, hprogress⟩ := hcall
  simp only [deliveryOf, hc, hflag, Bool.false_eq_true, not_false_eq_true, and_true]
  cases hisNew : msg.data.isNew with
  | false =>
    simp only [hisNew, Bool.false_eq_true, if_false] at hprogress ⊢
    exact ⟨fun _ _ => rfl, hprogress, h.inSequence⟩
  | true =>
    simp only [hisNew, if_true] at hprogress ⊢
    simp only [Progress.after, hprogress, Option.getD_none]
    refine ⟨fun id hid => Function.update_of_ne hid .., ?_, ?_⟩
    · simp only [OnTrack, hwebhook, Function.update_self, hflag, List.length_nil, Nat.add_zero,
        and_self]
    · intro id first heights hid
      by_cases hw : id = msg.data.webhookID
      · subst hw
        rw [Function.update_self] at hid
        cases hid
        rfl
      · rw [Function.update_of_ne hw] at hid
        exact h.inSequence id first heights hid

/-- The acknowledgement, after which the job is for the height after the last one sent. -/
private theorem SteadyInv.xAckDel {p : Progress ι} {rows : List (BlockDocument β)}
    {s : RelayState κ ι T β} (h : SteadyInv p rows s) (hcons : ConservationInv s) {c : κ}
    {msg : ParsedStreamMessage (WebhookStreamMsgData ι)}
    {msgs : List (ParsedStreamMessage (WebhookStreamMsgData ι))} {isBacklogMsg : Bool}
    {newMsg : WebhookStreamMsgData ι}
    (hc : s.consumers c = ⟨.handler (msg :: msgs) isBacklogMsg, .xAckDel (some newMsg)⟩) :
    SteadyInv (p.after (deliveryOf s (.consumer c .xAckDel))) rows
      { s with
        shard := s.shard.xAckDel msg (some newMsg)
        consumers := Function.update s.consumers c
          ⟨.handled (msg :: msgs) isBacklogMsg, .webhooksFindOne⟩ } := by
  have hloop : (s.consumers c).loop = .handler (msg :: msgs) isBacklogMsg := by rw [hc]
  have hwebhook := hcons.sameWebhook c msg msgs isBacklogMsg newMsg hloop (by rw [hc])
  have hmember : msg.data.webhookID ∈ s.shard.webhookSet := by
    apply (only_job_of_handed hcons (c := c) ?_).1
    rw [hloop]
    exact List.mem_cons_self
  have hset : (s.shard.xAckDel msg (some newMsg)).webhookSet = s.shard.webhookSet := by
    by_cases hb : s.shard.Behind newMsg.blockHeight
    · rw [Shard.xAckDel_behind hb]
    · rw [Shard.xAckDel_parked hb]
  obtain ⟨hother, hontrack, hsequence⟩ := h.after_xAckDel hc hwebhook
  generalize p.after (deliveryOf s (.consumer c .xAckDel)) = p' at hother hontrack hsequence ⊢
  refine h.advance hcons hloop hother hsequence ?_ ?_ ?_ (callSteady_first ..)
  · intro id hid
    rw [hset]
    by_cases hw : id = msg.data.webhookID
    · exact hw ▸ hmember
    · rw [hother id hw] at hid
      exact h.member id hid
  · intro e he
    -- the entry that is acknowledged is gone
    have hrest : e ∈ (Native.xAckDel s.shard.webhookStream [msg.id]).entries →
        e ∈ s.shard.webhookStream.entries ∧ (e.1 = msg.id → Acknowledges
          (⟨.handled (msg :: msgs) isBacklogMsg, .webhooksFindOne⟩ :
            RelayConsumer ι β) msg.id) := by
      intro hmem
      obtain ⟨hold, hne⟩ := List.mem_filter.1 hmem
      refine ⟨hold, fun heq => absurd (List.mem_singleton.2 heq) (of_decide_eq_true hne)⟩
    by_cases hb : s.shard.Behind newMsg.blockHeight
    · rw [Shard.xAckDel_behind hb] at he
      cases List.mem_append.1 he with
      | inl hold => exact .inl (hrest hold)
      | inr hnew =>
        right
        intro data hdata
        rw [List.mem_singleton.1 hnew, JobText.parse_marshal] at hdata
        cases hdata
        exact hontrack
    · rw [Shard.xAckDel_parked hb] at he
      exact .inl (hrest he)
  · intro e he
    cases Shard.mem_pendingSet_xAckDel he with
    | inl hold => exact .inl hold
    | inr hnew =>
      obtain ⟨new, heq, -, rfl⟩ := hnew
      cases heq
      right
      intro data hdata
      rw [JobText.parse_marshal] at hdata
      cases hdata
      exact hontrack

/-- The acknowledgement that takes the webhook out of the shard. -/
private theorem SteadyInv.remove {p : Progress ι} {rows : List (BlockDocument β)}
    {s : RelayState κ ι T β} (h : SteadyInv p rows s) (hcons : ConservationInv s) {c : κ}
    {msg : ParsedStreamMessage (WebhookStreamMsgData ι)}
    {msgs : List (ParsedStreamMessage (WebhookStreamMsgData ι))} {isBacklogMsg : Bool}
    (hloop : (s.consumers c).loop = .handler (msg :: msgs) isBacklogMsg) :
    SteadyInv (p.after (some (.removed msg.data.webhookID))) rows
      { s with
        shard := s.shard.xAckDel msg none
        consumers := Function.update s.consumers c
          ⟨.handled (msg :: msgs) isBacklogMsg, .webhooksFindOne⟩ } := by
  have hother : ∀ id, id ≠ msg.data.webhookID →
      p.after (some (.removed msg.data.webhookID)) id = p id :=
    fun id hid => Function.update_of_ne hid ..
  have hself : p.after (some (.removed msg.data.webhookID)) msg.data.webhookID = none :=
    Function.update_self ..
  generalize p.after (some (.removed msg.data.webhookID)) = p' at hother hself ⊢
  have hne : ∀ id, p' id ≠ none → id ≠ msg.data.webhookID := by
    intro id hid heq
    exact hid (heq ▸ hself)
  refine h.advance hcons hloop hother ?_ ?_ ?_ (fun e he => .inl he) (callSteady_first ..)
  · intro id first heights hid
    have hid' := hother id (hne id (by simp [hid]))
    rw [hid'] at hid
    exact h.inSequence id first heights hid
  · intro id hid
    have hw := hne id hid
    rw [hother id hw] at hid
    exact Finset.mem_erase.2 ⟨hw, h.member id hid⟩
  · intro e he
    obtain ⟨hold, hnot⟩ := List.mem_filter.1 he
    exact .inl ⟨hold, fun heq => absurd (List.mem_singleton.2 heq) (of_decide_eq_true hnot)⟩

/-- What the block store answers to a consumer: a read that will return the blocks from the height
    of the job on, and then these blocks. -/
structure SteadyAnswers (rows : List (BlockDocument β)) (s : RelayState κ ι T β) (c : κ)
    (action : ConsumerAction β) : Prop where
  readCache : ∀ msg msgs isBacklogMsg webhook answer, action = .readCache answer →
    s.consumers c = ⟨.handler (msg :: msgs) isBacklogMsg, .readCache webhook⟩ →
      msg.data.isNew = false → Serves rows msg.data.blockHeight answer
  readWrapped : ∀ start read blocks, action = .readWrapped blocks →
    (s.consumers c).call = .readWrapped read → Serves rows start read → From start.toNat blocks

/-- Every action of a consumer keeps the invariant. -/
private theorem steadyInv_consumer {p : Progress ι} {rows : List (BlockDocument β)}
    {s : RelayState κ ι T β} {c : κ} {action : ConsumerAction β} {shard : Shard κ ι T}
    {consumer : RelayConsumer ι β}
    (hmove : ConsumerStep c s.webhooks s.shard (s.consumers c) action shard consumer)
    (hcons : ConservationInv s) (hcalm : Calm s (.consumer c action))
    (hroom : ∀ blocks, (s.consumers c).call = .post blocks →
      ∀ b ∈ blocks, b.height.toNat + 1 < 2 ^ 64)
    (hanswers : SteadyAnswers rows s c action) (h : SteadyInv p rows s) :
    SteadyInv (p.after (deliveryOf s (.consumer c action))) rows
      { s with shard := shard, consumers := Function.update s.consumers c consumer } := by
  have hcall := h.calls c
  generalize hold : s.consumers c = old at hmove hcall
  cases hmove with
  | crash =>
    -- no process stops between the request and its acknowledgement
    refine h.update s.shard rfl rfl rfl ?_ (callSteady_first ..)
    apply not_acknowledges_of_call rfl
    intro newMsg heq
    simp only [Calm, heq, MayFail] at hcalm
  | readBacklog cursorId call loop stream hread =>
    obtain ⟨rfl, -⟩ := readBacklog_cases hread
    have hnot := not_acknowledges_of_loop (congrArg RelayConsumer.loop hold) (by simp)
    have hcallNext := callSteady_first p rows (β := β) loop
    exact h.update { s.shard with
      webhookStream := (s.shard.webhookStream.xreadgroupFrom c cursorId 1).2 }
      rfl rfl rfl hnot hcallNext
  | readNew call loop stream hread =>
    obtain ⟨rfl, -, -⟩ := readNew_cases hread
    have hnot := not_acknowledges_of_loop (congrArg RelayConsumer.loop hold) (by simp)
    have hcallNext := callSteady_first p rows (β := β) loop
    exact h.update { s.shard with
      webhookStream := (s.shard.webhookStream.xreadgroupNew c 1).2 }
      rfl rfl rfl hnot hcallNext
  | call msg msgs isBacklogMsg call call' _ _ hstep =>
    have hloop : (s.consumers c).loop = .handler (msg :: msgs) isBacklogMsg := by rw [hold]
    have hcallEq : (s.consumers c).call = call := by rw [hold]
    have hnot (hne : ∀ newMsg, call ≠ .xAckDel (some newMsg)) :=
      not_acknowledges_of_call hcallEq hne
    cases hstep with
    | noWebhook _ => exact h.update s.shard rfl rfl rfl (hnot (by simp)) trivial
    | backlogMsg webhook _ _ =>
      exact h.update s.shard rfl rfl rfl (hnot (by simp)) trivial
    | newMsg webhook _ _ =>
      exact h.update s.shard rfl rfl rfl (hnot (by simp)) trivial
    | exhausted webhook pendingMsg hpending hretries =>
      -- the retries do not run out in a calm run
      simp only [Calm, hold, RetriesLeft] at hcalm
      have hlt := hcalm pendingMsg hpending
      omega
    | retry webhook pendingMsg _ _ =>
      exact h.update s.shard rfl rfl rfl (hnot (by simp)) trivial
    | readCache webhook answer =>
      refine h.update s.shard rfl rfl rfl (hnot (by simp)) fun hisNew => ?_
      exact hanswers.readCache msg msgs isBacklogMsg webhook answer rfl hold hisNew
    | noBlocks read => exact h.update s.shard rfl rfl rfl (hnot (by simp)) trivial
    | blocks read blocks _ =>
      refine h.update s.shard rfl rfl rfl (hnot (by simp)) fun hisNew => ?_
      exact hanswers.readWrapped _ read blocks rfl hcallEq (hcall hisNew)
    | post blocks last hlast =>
      have hpost := h.post hcons hold (hroom blocks hcallEq) hlast
      simp only [deliveryOf, hold]
      exact hpost
  | handled msg msgs isBacklogMsg call _ _ hstep =>
    have hloop : (s.consumers c).loop = .handler (msg :: msgs) isBacklogMsg := by rw [hold]
    have hcallEq : (s.consumers c).call = call := by rw [hold]
    have hnot (hne : ∀ newMsg, call ≠ .xAckDel (some newMsg)) :=
      not_acknowledges_of_call hcallEq hne
    cases hstep with
    | notPending webhook _ =>
      exact h.update s.shard rfl rfl rfl (hnot (by simp)) (callSteady_first ..)
    | xAckDel newMsg =>
      cases newMsg with
      | none =>
        have hremove := h.remove hcons hloop
        simp only [deliveryOf, hold]
        exact hremove
      | some newMsg => exact h.xAckDel hcons hold
    | callFails _ _ =>
      refine h.update s.shard rfl rfl rfl (hnot ?_) (callSteady_first ..)
      -- the acknowledgement itself does not fail in a calm run
      intro newMsg heq
      simp only [Calm, hcallEq, heq, MayFail] at hcalm

/-- Every calm action of a shard keeps the invariant. -/
theorem steadyInv_step {p : Progress ι} {rows : List (BlockDocument β)}
    {s s' : RelayState κ ι T β} {a : RelayAction κ ι β} (hstep : s.step a = some s')
    (hcons : ConservationInv s) (hcalm : Calm s a)
    (hroom : ∀ c blocks, (s.consumers c).call = .post blocks →
      ∀ b ∈ blocks, b.height.toNat + 1 < 2 ^ 64)
    (hanswers : ∀ c action, a = .consumer c action → SteadyAnswers rows s c action)
    (h : SteadyInv p rows s) : SteadyInv (p.after (deliveryOf s a)) rows s' := by
  cases a with
  | activate ids =>
    cases hstep
    exact steadyInv_activate h ids
  | flush height =>
    cases hstep
    exact steadyInv_flush h height
  | setWebhook id webhook =>
    cases hstep
    exact ⟨h.inSequence, h.member, h.stream, h.pending, h.calls⟩
  | consumer c action =>
    obtain ⟨shard, consumer, hmove, rfl⟩ := consumerStep_of_relayStep hstep
    exact steadyInv_consumer hmove hcons hcalm (hroom c) (hanswers c action rfl) h

end Shard

/-! ## The whole feed -/

section Feed

variable {δ κ ι T β : Type} [DecidableEq δ] [DecidableEq κ] [DecidableEq ι] [LinearOrder T]
  [JobText ι T] [LinearOrder (BlockDocument β)]

/-- What an action delivers in which shard. -/
def deliveries (s : Feed δ κ ι T β) (action : FeedAction δ κ ι β) : List (δ × Delivery ι) :=
  match s.shardAction action with
  | some (d, a) => ((deliveryOf (s.shards d) a).map fun delivery => (d, delivery)).toList
  | none => []

/-- A feed and what it has delivered. -/
def feedDeliveries (batchSize : Nat) (webhookStreams : List δ) :
    Feed δ κ ι T β × List (δ × Delivery ι) → FeedAction δ κ ι β →
      Option (Feed δ κ ι T β × List (δ × Delivery ι)) :=
  recorded (Feed.step batchSize webhookStreams) deliveries

/-- Recording the deliveries changes no run of the feed. -/
theorem run_feedDeliveries {batchSize : Nat} {webhookStreams : List δ}
    {as : List (FeedAction δ κ ι β)} {s : Feed δ κ ι T β} :
    (∃ sent, run (feedDeliveries batchSize webhookStreams) (.init, []) as = some (s, sent)) ↔
      run (Feed.step batchSize webhookStreams) .init as = some s := run_recorded

/-- The progress of the webhooks of a shard. -/
def progress (sent : List (δ × Delivery ι)) (d : δ) : Progress ι :=
  sent.foldl (fun p e => if e.1 = d then p.after (some e.2) else p) fun _ => none

/-- The forwarder forwards the chain, webhooks ask for one block at least and for no more than an
    `int` holds, and the relay works without a disturbance. -/
structure SteadyAction (chain : UInt64 → β) (top : Nat) (s : Feed δ κ ι T β)
    (action : FeedAction δ κ ι β) : Prop where
  forwards : ForwardsChain chain top s action
  fits : WebhookFits (2 ^ 63 - 1) action
  calm : ∀ e ∈ s.shardAction action, Calm (s.shards e.1) e.2

/-- When the relay reads the blocks for a job that is not new, the cache has no gap in their
    range. -/
def MeetsNoGap (s : Feed δ κ ι T β) (action : FeedAction δ κ ι β) : Prop :=
  ∀ e ∈ s.shardAction action, ReadsNoGap s.stores.store.redisStore (s.shards e.1) e.2

instance [DecidableEq β] (chain : UInt64 → β) (top : Nat) (s : Feed δ κ ι T β)
    (action : FeedAction δ κ ι β) : Decidable (SteadyAction chain top s action) :=
  decidable_of_iff
    (ForwardsChain chain top s action ∧ WebhookFits (2 ^ 63 - 1) action ∧
      ∀ e ∈ s.shardAction action, Calm (s.shards e.1) e.2)
    ⟨fun h => ⟨h.1, h.2.1, h.2.2⟩, fun h => ⟨h.1, h.2, h.3⟩⟩

instance (s : Feed δ κ ι T β) (action : FeedAction δ κ ι β) : Decidable (MeetsNoGap s action) :=
  inferInstanceAs (Decidable (∀ e ∈ s.shardAction action,
    ReadsNoGap s.stores.store.redisStore (s.shards e.1) e.2))

omit [DecidableEq κ] [LinearOrder T] [JobText ι T] [LinearOrder (BlockDocument β)] in
private theorem progress_append (sent more : List (δ × Delivery ι)) (d : δ) :
    progress (sent ++ more) d =
      more.foldl (fun p e => if e.1 = d then p.after (some e.2) else p) (progress sent d) :=
  List.foldl_append

omit [DecidableEq κ] [JobText ι T] in
/-- The progress in a shard changes by its own actions only. -/
private theorem progress_of_ne {s : Feed δ κ ι T β} {action : FeedAction δ κ ι β} {d : δ}
    (haction : ∀ a, s.shardAction action ≠ some (d, a)) (sent : List (δ × Delivery ι)) :
    progress (sent ++ deliveries s action) d = progress sent d := by
  rw [progress_append]
  unfold deliveries
  split
  · next e a heq =>
    have hd : e ≠ d := fun hed => haction a (hed ▸ heq)
    cases deliveryOf (s.shards e) a with
    | none => rfl
    | some delivery => exact if_neg hd
  · rfl

omit [DecidableEq κ] [JobText ι T] in
private theorem progress_of_eq {s : Feed δ κ ι T β} {action : FeedAction δ κ ι β} {d : δ}
    {a : RelayAction κ ι β} (haction : s.shardAction action = some (d, a))
    (sent : List (δ × Delivery ι)) :
    progress (sent ++ deliveries s action) d =
      (progress sent d).after (deliveryOf (s.shards d) a) := by
  rw [progress_append]
  simp only [deliveries, haction]
  cases deliveryOf (s.shards d) a with
  | none => rfl
  | some delivery => exact if_pos rfl

/-- The invariant of the feed. -/
structure ServedInv (chain : UInt64 → β) (top batchSize : Nat) (webhookStreams : List δ)
    (s : Feed δ κ ι T β) (log : List (Event δ β)) (sent : List (δ × Delivery ι)) : Prop where
  relay : RelayInv top (2 ^ 63 - 1) webhookStreams s log
  loop : LoopInv s.blockStream () batchSize s.router.loop
  forward : ForwardInv chain top s log
  moved : MoveInv (PutAt log) s.stores
  steady : ∀ d, SteadyInv (progress sent d) s.stores.store.wrappedStore.rows (s.shards d)

theorem servedInv_init (chain : UInt64 → β) (top batchSize : Nat)
    (webhookStreams : List δ) :
    ServedInv chain top batchSize webhookStreams (.init : Feed δ κ ι T β) [] [] where
  relay := relayInv_init top _ webhookStreams
  loop := loopInv_init
  forward := forwardInv_init chain top
  moved := moveInv_init _
  steady := fun _ => steadyInv_init _

section Step

variable {chain : UInt64 → β} {top batchSize : Nat} {webhookStreams : List δ}
  {s s' : Feed δ κ ι T β} {log : List (Event δ β)} {sent : List (δ × Delivery ι)}
  {action : FeedAction δ κ ι β}

/-- What the wrapped store holds has no gap, whatever the flusher does. -/
private theorem ServedInv.moved_step (htop : top < 2 ^ 53)
    (h : ServedInv chain top batchSize webhookStreams s log sent)
    (hfeed : FeedStep batchSize webhookStreams s action s')
    (hrelay : RelayInv top (2 ^ 63 - 1) webhookStreams s'
      (log ++ events batchSize webhookStreams s action))
    (hforward : ForwardInv chain top s' (log ++ events batchSize webhookStreams s action)) :
    MoveInv (PutAt (log ++ events batchSize webhookStreams s action)) s'.stores := by
  have hput : ∀ b, s.stores.store.Stored b → PutAt log b.height :=
    fun b hb => (putAt_iff h.relay.stores _).2 ⟨b, hb, rfl⟩
  have hcached : ∀ b ∈ s.stores.held (), b ∈ s.stores.store.redisStore.blocks := by
    obtain ⟨bs, hrun, -⟩ := h.relay.stores
    exact held_cached hrun
  have hnew : ∀ x y, PutAt (log ++ events batchSize webhookStreams s action) x → PutAt log y →
      x.toNat ≤ y.toNat → PutAt log x := fun _ _ hx hy hle =>
    hforward.new_above hrelay.router h.forward hx hy hle
  have hold := h.moved.mono (fun r hr => hput r (.inr hr))
    (fun b hb => hput b (.inl (hcached b hb))) hnew
  have hstores := stores_step hfeed
  cases hstore : s.storeAction batchSize webhookStreams action with
  | none =>
    rw [hstore] at hstores
    rw [hstores]
    exact hold
  | some a =>
    rw [hstore] at hstores
    apply moveInv_step hstores hcached ?_ ?_ hold
    · intro b hb
      have hle := (h.relay.bounded _ (hput b hb)).2
      omega
    · intro x hx b hb hle
      exact (putAt_iff h.relay.stores x).1 (hnew x _ hx (hput b hb) hle)

/-- What the block store answers to a consumer. -/
private theorem ServedInv.answers (htop : top < 2 ^ 53)
    (h : ServedInv chain top batchSize webhookStreams s log sent) (hgap : MeetsNoGap s action)
    {d : δ} {c : κ} {a : ConsumerAction β} (hanswered : Answered s d (.consumer c a))
    (haction : s.shardAction action = some (d, .consumer c a)) :
    SteadyAnswers s.stores.store.wrappedStore.rows (s.shards d) c a where
  readCache := by
    intro msg msgs isBacklogMsg webhook answer heq hc hisNew
    subst heq
    obtain ⟨msg', msgs', b', webhook', hc', rfl⟩ := hanswered
    rw [hc] at hc'
    cases hc'
    have hrange := hgap _ haction
    simp only [ReadsNoGap, hc] at hrange
    have hready : Ready (PutAt log) msg.data :=
      ready_of_handed (h.relay.shards d) (h.relay.conservation d) (c := c)
        (by rw [hc]; exact List.mem_cons_self)
    have hstart := (hready.2 hisNew).1
    have hfits := (h.relay.shards d).calls c
    rw [hc] at hfits
    obtain ⟨hmin, hmax⟩ := hfits
    have hle := (h.relay.bounded _ hstart).2
    unfold relayRead
    rw [if_neg (by rw [hisNew]; decide)]
    have hflush := h.relay.stores.flushInv
    apply serves_readBlocks (fun b hb => h.forward.payload b (hflush.genuine b (.inl hb)))
      (putAt_iff h.relay.stores) h.relay.contiguous ?_ hstart hmin (by omega) (hrange hisNew)
    intro x hx
    have hbound := h.relay.bounded x hx
    omega
  readWrapped := by
    intro start read blocks heq hcall hserves
    subst heq
    obtain ⟨loop, read', hc, rfl⟩ := hanswered
    rw [hc] at hcall
    cases hcall
    apply hserves.finish
    intro hrow r hr n hlo hhi
    apply h.moved.dense h.relay.contiguous ?_ hrow hr hlo hhi
    intro r' hr'
    exact (putAt_iff h.relay.stores _).2 ⟨r', .inr hr', rfl⟩

/-- Every steady action whose read meets no gap keeps the invariant. -/
theorem servedInv_step (htop : top < 2 ^ 53) (hbatch : 0 < batchSize)
    (hfeed : FeedStep batchSize webhookStreams s action s')
    (hsteady : SteadyAction chain top s action) (hgap : MeetsNoGap s action)
    (h : ServedInv chain top batchSize webhookStreams s log sent) :
    ServedInv chain top batchSize webhookStreams s'
      (log ++ events batchSize webhookStreams s action) (sent ++ deliveries s action) := by
  have hforward := forwardInv_step (by omega) h.forward h.relay.router h.loop h.relay.stores hfeed
    hsteady.forwards
  have hrouter := h.relay.router.feedStep hbatch hfeed
  have hrelay := h.relay.step (by omega) (by omega) hbatch hfeed hsteady.fits
    (hforward.contiguous_put hrouter) fun x hx => hforward.bounded hx
  refine ⟨hrelay, h.loop.feedStep hfeed, hforward, h.moved_step htop hfeed hrelay hforward,
    fun d => ?_⟩
  have hsteadyShard := (h.steady d).mono (rows_subset_feedStep hfeed)
  cases shardView_of_feedStep hfeed d with
  | same heffect haction hshard =>
    rw [progress_of_ne haction, hshard]
    exact hsteadyShard
  | flush height heffect haction hshard =>
    rw [progress_of_ne haction, hshard]
    exact steadyInv_flush hsteadyShard height
  | relay a hanswered haction heffect hstores hstep =>
    rw [progress_of_eq haction, hstores]
    apply steadyInv_step hstep (h.relay.conservation d) (hsteady.calm _ haction) ?_ ?_ (h.steady d)
    · intro c blocks hcall b hb
      have hput := (h.relay.shards d).calls c
      rw [hcall] at hput
      have hle := (h.relay.bounded _ (hput b hb)).2
      omega
    · intro c b heq
      subst heq
      exact h.answers htop hgap hanswered haction

end Step

/-- As long as no read of the relay meets a gap in the cache, the heights sent to a webhook since
    its first job was acknowledged are the ones from its first height on, each once. -/
theorem served_inOrder {chain : UInt64 → β} {top : Nat} (htop : top < 2 ^ 53) {batchSize : Nat}
    (hbatch : 0 < batchSize) {webhookStreams : List δ} {as : List (FeedAction δ κ ι β)}
    {s : Feed δ κ ι T β} {sent : List (δ × Delivery ι)}
    (h : run (feedDeliveries batchSize webhookStreams) (.init, []) as = some (s, sent))
    (hsteady : Meets (feedDeliveries batchSize webhookStreams)
      (fun t action => SteadyAction chain top t.1 action ∧ MeetsNoGap t.1 action)
      ((.init, []) : Feed δ κ ι T β × List (δ × Delivery ι)) as) :
    ∀ d id first heights, progress sent d id = some (first, heights) →
      heights.map UInt64.toNat = List.range' first.toNat heights.length := by
  have hinv : ∃ log, ServedInv chain top batchSize webhookStreams s log sent := by
    apply run_invariant_of_meets
      (P := fun t : Feed δ κ ι T β × List (δ × Delivery ι) =>
        ∃ log, ServedInv chain top batchSize webhookStreams t.1 log t.2) ?_ h hsteady
      ⟨[], servedInv_init chain top batchSize webhookStreams⟩
    intro ⟨s, sent⟩ action ⟨s', sent'⟩ hstep hsteady hlog
    obtain ⟨hfeed, rfl⟩ := recorded_eq_some.1 hstep
    obtain ⟨log, hinv⟩ := hlog
    exact ⟨_, servedInv_step htop hbatch (feedStep_of_step hfeed) hsteady.1 hsteady.2 hinv⟩
  obtain ⟨log, hinv⟩ := hinv
  exact fun d => (hinv.steady d).inSequence

end Feed

/-! ## Two runs -/

/-- The payloads of the runs below. -/
def chainBlock (height : UInt64) : Nat :=
  10 * height.toNat

/-- The router handles the next block. -/
def routeBlock : List (FeedAction Nat Unit Nat Nat) :=
  [.router .readBacklog, .router .readNew, .router (.putBlocks .ok), .router (.flush 0 .ok),
    .router (.xAckDel .ok)]

/-- The flusher moves that many blocks. -/
def flushBlocks (n : Int) : List (FeedAction Nat Unit Nat Nat) :=
  [.flusher (.flushRead () n), .flusher (.flushInsert ()), .flusher (.flushDelete ())]

/-- The consumer takes the next job and reads the cache. -/
def takeJob : List (FeedAction Nat Unit Nat Nat) :=
  [.shard 0 (.consumer () .readBacklog), .shard 0 (.consumer () .readNew),
    .shard 0 (.consumer () .webhooksFindOne), .consumerReadCache 0 ()]

/-- The consumer does the rest of the job. -/
def finishJob : List (FeedAction Nat Unit Nat Nat) :=
  [.consumerReadWrapped 0 (), .shard 0 (.consumer () .post), .shard 0 (.consumer () .xAckDel)]

/-- The router has stored blocks 1 and 2 of four when the forwarder restarts and posts block 2
    again, behind blocks 3 and 4. Then blocks 3 and 4 are stored as well, and the IsNew message of
    a webhook is acknowledged, so its next job is for block 2. -/
def repostedBehind : List (FeedAction Nat Unit Nat Nat) :=
  [.shard 0 (.setWebhook 7 (some ⟨3, 3⟩)), .shard 0 (.activate [7]), .forwarderReadCache,
    .forwarderReadWrapped 1, .forward 10, .forward 20] ++ routeBlock ++ routeBlock ++
  [.forward 30, .forward 40, .forwarderCrash, .forwarderReadCache, .forward 20] ++ routeBlock ++
    takeJob ++ finishJob ++ routeBlock

/-- Block 2 is put again before the flusher moves it, in two parts around the first half of the
    read of the webhook. The forwarder restarts once more and goes back to block 4. -/
def movedWhileServed : List (FeedAction Nat Unit Nat Nat) :=
  repostedBehind ++ routeBlock ++ flushBlocks 2 ++ takeJob ++ flushBlocks 2 ++ finishJob ++
    [.forwarderCrash, .forwarderReadCache, .forwarderReadWrapped 9, .forward 40, .forward 50,
      .forward 60] ++ routeBlock ++ routeBlock ++ routeBlock ++ takeJob ++ finishJob

theorem served_inOrder_movedWhileServed :
    ∃ (s : Feed Nat Unit Nat TupleText Nat) (sent : List (Nat × Delivery Nat)),
      run (feedDeliveries 1 [0]) (.init, []) movedWhileServed = some (s, sent) ∧
        progress sent 0 7 = some (2, [2, 3, 4, 5, 6]) ∧
        ∀ d id first heights, progress sent d id = some (first, heights) →
          heights.map UInt64.toNat = List.range' first.toNat heights.length := by
  have hsteady : Meets (feedDeliveries 1 [0])
      (fun t action => SteadyAction chainBlock 100 t.1 action ∧ MeetsNoGap t.1 action)
      ((.init, []) : Feed Nat Unit Nat TupleText Nat × List (Nat × Delivery Nat))
      movedWhileServed := by decide +kernel
  refine ⟨_, _, rfl, rfl, ?_⟩
  exact served_inOrder (show 100 < 2 ^ 53 by decide) (show 0 < 1 by decide) rfl hsteady

/-- Blocks 1 to 3 are moved before block 2 is put again. -/
def putBelowFlushed : List (FeedAction Nat Unit Nat Nat) :=
  repostedBehind ++ flushBlocks 3 ++ routeBlock ++ takeJob ++ finishJob

/-- The cache holds blocks 2 and 4, and block 3 is never sent. -/
theorem not_served_inOrder :
    Meets (feedDeliveries 1 [0]) (fun t action => SteadyAction chainBlock 100 t.1 action)
      ((.init, []) : Feed Nat Unit Nat TupleText Nat × List (Nat × Delivery Nat))
      putBelowFlushed ∧
    ∃ (s : Feed Nat Unit Nat TupleText Nat) (sent : List (Nat × Delivery Nat)),
      run (feedDeliveries 1 [0]) (.init, []) putBelowFlushed = some (s, sent) ∧
        ¬ ∀ d id first heights, progress sent d id = some (first, heights) →
          heights.map UInt64.toNat = List.range' first.toNat heights.length := by
  refine ⟨by decide, _, _, rfl, fun hinOrder => ?_⟩
  have hsent := hinOrder 0 7 2 [2, 4] rfl
  exact absurd hsent (by decide)

end BlockFeed.Spec
