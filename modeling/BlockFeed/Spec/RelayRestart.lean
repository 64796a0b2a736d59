import BlockFeed.Native.RelayProcess
import BlockFeed.Spec.JobConservation

/-!
# Restarting the relay

An entry that has been delivered is read again by the consumer it was delivered to, and by no
other. So a job is stranded when it is pending for a consumer whose goroutine does not run: because
the relay was started again with a lower concurrency, or because the goroutine ended on a failed
read while the others went on.

`NoneStranded` is the property of a state, `Reclaims` the condition on an action. What they rest on
is `DeliveryInv`: a delivered entry is pending for someone until it is deleted, and what is pending
has its entry. So no goroutine ends because a message does not parse.
-/

namespace BlockFeed.Spec

open BlockFeed.Native Redis Transition

/-! ## Reads that do not fail -/

section Reads

variable {κ α δ : Type}

/-- Messages with data that parses are parsed. -/
theorem parseMessages_isSome {parse : α → Option δ} {msgs : List (Nat × Option α)}
    (h : ∀ m ∈ msgs, ∃ v, m.2 = some v ∧ (parse v).isSome) :
    (parseMessages parse msgs).isSome := by
  induction msgs with
  | nil => rfl
  | cons m msgs ih =>
    obtain ⟨id, rawData⟩ := m
    obtain ⟨v, hv, hparse⟩ := h _ List.mem_cons_self
    have hrest := ih fun m hm => h m (List.mem_cons_of_mem _ hm)
    obtain ⟨data, hdata⟩ := Option.isSome_iff_exists.1 hparse
    have hbind : rawData.bind parse = some data := by
      rw [show rawData = some v from hv]
      exact hdata
    simp only [parseMessages, hbind, Option.isSome_map, hrest]

/-- Every message that is pending for the consumer still has its entry, and it parses. -/
def Readable [DecidableEq κ] (parse : α → Option δ) (stream : GroupStream κ α) (c : κ) : Prop :=
  ∀ id ∈ stream.pelIds c, ∃ v data, (id, v) ∈ stream.entries ∧ parse v = some data

/-- A read of the backlog does not end the consumer as long as what is pending is readable. -/
theorem readBacklog_ne_stopped [DecidableEq κ] {parse : α → Option δ} {stream : GroupStream κ α}
    {c : κ} (count cursorId : Nat) (h : Readable parse stream c) :
    (Subscriber.readBacklog parse stream c count cursorId).1 ≠ .stopped := by
  have hmsgs : (parseMessages parse (stream.xreadgroupFrom c cursorId count).1).isSome := by
    apply parseMessages_isSome
    intro m hm
    obtain ⟨p, hp, rfl⟩ := List.mem_map.1 hm
    obtain ⟨hpel, howner, -⟩ := GroupStream.mem_backlog hp
    obtain ⟨v, data, hv, hdata⟩ := h p.id (GroupStream.mem_pelIds.2 ⟨p, hpel, howner, rfl⟩)
    exact ⟨v, GroupStream.get?_eq_some.2 hv, by rw [hdata]; rfl⟩
  intro hstop
  simp only [Subscriber.readBacklog] at hstop
  split at hstop
  · split at hstop
    · cases hstop
    · cases hstop
  · split at hstop
    · next hnone =>
      rw [hnone] at hmsgs
      cases hmsgs
    · cases hstop

/-- Nor does a read of new messages. -/
theorem readNew_ne_stopped {parse : α → Option δ} {stream stream' : GroupStream κ α} {c : κ}
    {count : Nat} {next : Subscriber δ} (hparse : ∀ e ∈ stream.entries, (parse e.2).isSome)
    (h : Subscriber.readNew parse stream c count = some (next, stream')) : next ≠ .stopped := by
  have hmsgs : (parseMessages parse
      ((stream.xreadgroupNew c count).1.map fun m => (m.1, some m.2))).isSome := by
    apply parseMessages_isSome
    intro m hm
    obtain ⟨e, he, rfl⟩ := List.mem_map.1 hm
    have hmem := (GroupStream.mem_unread.1 (List.mem_of_mem_take he)).1
    exact ⟨e.2, rfl, hparse e hmem⟩
  intro hstop
  subst hstop
  simp only [Subscriber.readNew] at h
  split at h
  · cases h
  · split at h
    · next hnone =>
      rw [hnone] at hmsgs
      cases hmsgs
    · cases h

end Reads

/-! ## What is delivered and not deleted -/

section Delivery

variable {κ ι T β : Type} [DecidableEq κ] [DecidableEq ι] [LinearOrder T] [JobText ι T]

/-- The invariant of a shard. -/
structure DeliveryInv (shard : Shard κ ι T) : Prop where
  parse : ∀ job ∈ jobs shard, (JobText.parse job).isSome
  delivered : shard.webhookStream.DeliveredTo (fun _ => True)
  backed : shard.webhookStream.Backed

omit [DecidableEq ι] in
theorem deliveryInv_empty : DeliveryInv (.empty : Shard κ ι T) where
  parse := fun _ hjob => absurd hjob List.not_mem_nil
  delivered := GroupStream.deliveredTo_empty _
  backed := GroupStream.backed_empty

omit [DecidableEq ι] in
theorem DeliveryInv.parse_entry {shard : Shard κ ι T} (h : DeliveryInv shard) :
    ∀ e ∈ shard.webhookStream.entries, (JobText.parse e.2 : Option _).isSome :=
  fun _ he => h.parse _ (List.mem_append_left _ (List.mem_map_of_mem he))

omit [DecidableEq ι] in
theorem DeliveryInv.readable {shard : Shard κ ι T} (h : DeliveryInv shard) (c : κ) :
    Readable JobText.parse shard.webhookStream c := by
  intro id hid
  obtain ⟨v, hv⟩ := h.backed c id hid
  obtain ⟨data, hdata⟩ := Option.isSome_iff_exists.1 (h.parse_entry _ hv)
  exact ⟨v, data, hv, hdata⟩

omit [DecidableEq ι] [LinearOrder T] [JobText ι T] in
/-- Actions of consumers among `S` leave everything delivered to consumers among `S`. -/
theorem deliveredTo_step {stream stream' : GroupStream κ T} {a : RelayAction κ ι β}
    (hstep : StreamStep stream a stream') {S : κ → Prop}
    (hS : ∀ c action, a = .consumer c action → S c) (h : stream.DeliveredTo S) :
    stream'.DeliveredTo S := by
  cases hstep with
  | xadd _ jobs => exact h.xaddAll jobs
  | readBacklog c action cursorId => exact h.xreadgroupFrom c cursorId 1
  | readNew c action => exact h.xreadgroupNew (hS c action rfl) 1
  | xAckDel c action id jobs =>
    have hack : (Native.xAckDel stream [id]).DeliveredTo S := h.xack_xdel [id]
    exact hack.xaddAll jobs

omit [DecidableEq ι] [LinearOrder T] [JobText ι T] in
theorem backed_step {stream stream' : GroupStream κ T} {a : RelayAction κ ι β}
    (hstep : StreamStep stream a stream') (h : stream.Backed) : stream'.Backed := by
  cases hstep with
  | xadd _ jobs => exact h.xaddAll jobs
  | readBacklog c action cursorId => exact h.xreadgroupFrom c cursorId 1
  | readNew c action => exact h.xreadgroupNew c 1
  | xAckDel c action id jobs =>
    have hack : (Native.xAckDel stream [id]).Backed := h.xack_xdel [id]
    exact hack.xaddAll jobs

omit [DecidableEq κ] in
/-- The jobs that `XAckDel` leaves are old ones or the new message. -/
private theorem parse_xAckDel {shard : Shard κ ι T}
    (h : ∀ job ∈ jobs shard, (JobText.parse job : Option _).isSome)
    (oldMsg : ParsedStreamMessage (WebhookStreamMsgData ι))
    (newMsg : Option (WebhookStreamMsgData ι)) :
    ∀ job ∈ jobs (shard.xAckDel oldMsg newMsg), (JobText.parse job : Option _).isSome := by
  have hnew : ∀ data : WebhookStreamMsgData ι,
      (JobText.parse (JobText.marshal data : T) : Option _).isSome := by
    intro data
    rw [JobText.parse_marshal]
    rfl
  have hentries : ∀ job ∈ (Native.xAckDel shard.webhookStream [oldMsg.id]).entries.map Prod.snd,
      (JobText.parse job : Option _).isSome := by
    intro job hjob
    obtain ⟨e, he, rfl⟩ := List.mem_map.1 hjob
    exact h _ (List.mem_append_left _ (List.mem_map_of_mem (List.mem_of_mem_filter he)))
  have hpending : ∀ job ∈ shard.pendingSet.members, (JobText.parse job : Option _).isSome :=
    fun job hjob => h job (List.mem_append_right _ hjob)
  intro job hjob
  cases newMsg with
  | none =>
    cases List.mem_append.1 hjob with
    | inl hjob => exact hentries job hjob
    | inr hjob => exact hpending job hjob
  | some data =>
    by_cases hb : shard.Behind data.blockHeight
    · rw [Shard.xAckDel_behind hb] at hjob
      simp only [jobs, GroupStream.entries_xadd, List.map_append, List.mem_append,
        List.map_singleton, List.mem_singleton] at hjob
      rcases hjob with (hjob | rfl) | hjob
      · exact hentries job hjob
      · exact hnew data
      · exact hpending job hjob
    · rw [Shard.xAckDel_parked hb] at hjob
      simp only [jobs, List.mem_append, SortedSet.mem_members_zadd] at hjob
      rcases hjob with hjob | hjob | rfl
      · exact hentries job hjob
      · exact hpending job hjob
      · exact hnew data

/-- Every action keeps the invariant. -/
theorem deliveryInv_step {s s' : RelayState κ ι T β} {a : RelayAction κ ι β}
    (hstep : s.step a = some s') (h : DeliveryInv s.shard) : DeliveryInv s'.shard := by
  have hstream := streamStep_of_step hstep
  refine ⟨?_, deliveredTo_step hstream (fun _ _ _ => trivial) h.delivered,
    backed_step hstream h.backed⟩
  -- a job that comes in has been written by one of the encoders
  cases a with
  | activate ids =>
    cases hstep
    intro job hjob
    rw [jobs, Shard.webhookStream_activate, List.mem_append, Shard.mem_members_activate] at hjob
    rcases hjob with hjob | hjob | ⟨id, -, -, rfl⟩
    · exact h.parse job (List.mem_append_left _ hjob)
    · exact h.parse job (List.mem_append_right _ hjob)
    · rw [JobText.parse_encode]
      rfl
  | flush height =>
    cases hstep
    intro job hjob
    rw [Shard.flush_eq] at hjob
    simp only [jobs, GroupStream.values_xaddAll, List.mem_append, List.mem_map] at hjob
    rcases hjob with (⟨e, he, rfl⟩ | ⟨e, he, rfl⟩) | hjob
    · exact h.parse_entry e he
    · exact h.parse _
        (List.mem_append_right _ (SortedSet.mem_members_of_mem (List.mem_of_mem_filter he)))
    · obtain ⟨e, he, rfl⟩ := List.mem_map.1 hjob
      exact h.parse _
        (List.mem_append_right _ (SortedSet.mem_members_of_mem (List.mem_of_mem_filter he)))
  | setWebhook id webhook => cases hstep; exact h.parse
  | consumer c action =>
    have hshard := shardStep_of_step hstep
    generalize s'.shard = shard' at hshard ⊢
    cases hshard with
    | same => exact h.parse
    | readBacklog cursorId => exact h.parse
    | readNew => exact h.parse
    | xAckDel msg newMsg => exact parse_xAckDel h.parse msg newMsg

/-- No consumer stops. -/
theorem loop_ne_stopped {c : κ} {webhooks : ι → Option Webhook} {shard shard' : Shard κ ι T}
    {consumer consumer' : RelayConsumer ι β} {action : ConsumerAction β} (h : DeliveryInv shard)
    (hstep : ConsumerStep c webhooks shard consumer action shard' consumer') :
    consumer'.loop ≠ .stopped := by
  cases hstep with
  | crash => simp [RelayConsumer.start, Subscriber.start]
  | readBacklog cursorId call loop stream hread =>
    have hne := readBacklog_ne_stopped 1 cursorId (h.readable c)
    rw [hread] at hne
    exact hne
  | readNew call loop stream hread => exact readNew_ne_stopped h.parse_entry hread
  | call msg msgs isBacklogMsg call call' _ _ _ =>
    intro hstop
    cases hstop
  | handled msg msgs isBacklogMsg call _ _ _ =>
    intro hstop
    cases isBacklogMsg with
    | true => cases hstop
    | false => cases hstop

end Delivery

/-! ## Runs with restarts -/

section Restarts

variable {ι T β : Type} [DecidableEq ι] [LinearOrder T] [JobText ι T]

/-- While the relay runs, a job that is not in the pending set is in the stream, and there it has
    not been delivered or it is pending for a goroutine that runs. -/
def NoneStranded (name : String) (s : RelayProcess ι T β) : Prop :=
  s.running ≠ [] → ∀ e ∈ s.relay.shard.webhookStream.entries,
    e ∈ s.relay.shard.webhookStream.unread ∨
      ∃ i ∈ s.running, e.1 ∈ s.relay.shard.webhookStream.pelIds (consumerName name i)

/-- The relay is started with all indexes for which something is pending; and a goroutine that
    ends on a failed read is the last one or has nothing pending. -/
def Reclaims (name : String) (s : RelayProcess ι T β) : ProcessAction ι β → Prop
  | .start concurrency => ∀ p ∈ s.relay.shard.webhookStream.pel,
    ∃ i < concurrency, p.consumer = consumerName name i
  | .readFails i =>
    s.running.erase i = [] ∨ s.relay.shard.webhookStream.pelIds (consumerName name i) = []
  | _ => True

/-- The invariant of a shard with its relay. -/
structure RestartInv (s : RelayProcess ι T β) : Prop where
  delivery : DeliveryInv s.relay.shard
  distinct : s.running.Nodup

omit [DecidableEq ι] in
theorem restartInv_init : RestartInv (.init : RelayProcess ι T β) where
  delivery := deliveryInv_empty
  distinct := List.nodup_nil

omit [DecidableEq ι] [JobText ι T] in
theorem noneStranded_iff_deliveredTo {name : String} {s : RelayProcess ι T β} :
    NoneStranded name s ↔ (s.running ≠ [] → s.relay.shard.webhookStream.DeliveredTo
      fun c => ∃ i ∈ s.running, c = consumerName name i) := by
  refine imp_congr_right fun _ => forall_congr' fun e => forall_congr' fun he => ?_
  have hor : e ∈ s.relay.shard.webhookStream.unread ↔
      ¬ e.1 ≤ s.relay.shard.webhookStream.lastDelivered := by
    rw [GroupStream.mem_unread, Nat.not_le]
    exact and_iff_right he
  rw [hor, ← imp_iff_not_or]
  apply imp_congr_right
  intro _
  constructor
  · rintro ⟨i, hi, hid⟩
    exact ⟨_, ⟨i, hi, rfl⟩, hid⟩
  · rintro ⟨_, ⟨i, hi, rfl⟩, hid⟩
    exact ⟨i, hi, hid⟩

omit [DecidableEq ι] in
/-- After a start nothing is stranded exactly if every index with something pending runs. -/
private theorem start_iff {shard : Shard String ι T} (h : DeliveryInv shard) (name : String)
    (concurrency : Nat) :
    (shard.webhookStream.DeliveredTo fun c =>
        ∃ i ∈ List.range concurrency, c = consumerName name i) ↔
      ∀ p ∈ shard.webhookStream.pel, ∃ i < concurrency, p.consumer = consumerName name i := by
  simp only [List.mem_range]
  constructor
  · intro hdelivered p hp
    have hid : p.id ∈ shard.webhookStream.pelIds p.consumer :=
      GroupStream.mem_pelIds.2 ⟨p, hp, rfl, rfl⟩
    -- its entry is pending for one consumer only
    obtain ⟨v, hv⟩ := h.backed _ _ hid
    obtain ⟨c, ⟨i, hi, rfl⟩, hc⟩ := hdelivered _ hv (GroupStream.pelIds_bounded hid).2
    exact ⟨i, hi, GroupStream.pelIds_owner hid hc⟩
  · intro hall e he hle
    obtain ⟨c, -, hc⟩ := h.delivered e he hle
    obtain ⟨p, hp, rfl, hid⟩ := GroupStream.mem_pelIds.1 hc
    exact ⟨p.consumer, hall p hp, hc⟩

omit [DecidableEq ι] in
/-- When a goroutine ends and others go on, nothing is stranded exactly if it has nothing
    pending. -/
private theorem readFails_iff {s : RelayProcess ι T β} (h : RestartInv s) {name : String} {i : Nat}
    (hP : s.relay.shard.webhookStream.DeliveredTo
      fun c => ∃ j ∈ s.running, c = consumerName name j) :
    (s.relay.shard.webhookStream.DeliveredTo fun c =>
        ∃ j ∈ s.running.erase i, c = consumerName name j) ↔
      s.relay.shard.webhookStream.pelIds (consumerName name i) = [] := by
  constructor
  · intro hdelivered
    apply List.eq_nil_iff_forall_not_mem.2
    intro id hid
    obtain ⟨v, hv⟩ := h.delivery.backed _ _ hid
    obtain ⟨c, ⟨j, hj, rfl⟩, hc⟩ := hdelivered _ hv (GroupStream.pelIds_bounded hid).2
    -- its owner would still be running
    have heq := consumerName_inj.1 (GroupStream.pelIds_owner hid hc)
    rw [h.distinct.mem_erase_iff] at hj
    exact hj.1 heq.symm
  · intro hnil e he hle
    obtain ⟨c, ⟨j, hj, rfl⟩, hc⟩ := hP e he hle
    refine ⟨_, ⟨j, ?_, rfl⟩, hc⟩
    rw [h.distinct.mem_erase_iff]
    refine ⟨fun heq => ?_, hj⟩
    rw [heq, hnil] at hc
    cases hc

omit [DecidableEq ι] [LinearOrder T] [JobText ι T] in
/-- After an action of a goroutine all goroutines run on, or none. -/
private theorem stillRunning_eq (running : List Nat) (i : Nat) {consumer : RelayConsumer ι β}
    (h : consumer.loop ≠ .stopped) :
    RelayProcess.stillRunning running i consumer = [] ∨
      RelayProcess.stillRunning running i consumer = running := by
  unfold RelayProcess.stillRunning
  split
  · exact .inl rfl
  · split
    · next hstop => exact absurd hstop h
    · exact .inr rfl

/-- The consumer that has acted has not stopped. -/
private theorem consumer_ne_stopped {s s' : RelayState String ι T β} {c : String}
    {action : ConsumerAction β} (h : DeliveryInv s.shard)
    (hstep : s.step (.consumer c action) = some s') : (s'.consumers c).loop ≠ .stopped := by
  obtain ⟨shard, consumer, hmove, rfl⟩ := consumerStep_of_relayStep hstep
  simp only [Function.update_self]
  exact loop_ne_stopped h hmove

/-- Every action keeps the invariant. -/
theorem restartInv_step {name : String} {s s' : RelayProcess ι T β} {a : ProcessAction ι β}
    (hstep : s.step name a = some s') (h : RestartInv s) : RestartInv s' := by
  cases a with
  | activate ids =>
    cases hstep
    exact ⟨deliveryInv_step (a := .activate ids) rfl h.delivery, h.distinct⟩
  | flush height =>
    cases hstep
    exact ⟨deliveryInv_step (a := .flush height) rfl h.delivery, h.distinct⟩
  | setWebhook id webhook =>
    cases hstep
    exact ⟨h.delivery, h.distinct⟩
  | start concurrency =>
    simp only [RelayProcess.step] at hstep
    split at hstep
    · cases hstep
      exact ⟨h.delivery, List.nodup_range⟩
    · cases hstep
  | stop =>
    cases hstep
    exact ⟨h.delivery, List.nodup_nil⟩
  | readFails i =>
    simp only [RelayProcess.step] at hstep
    split at hstep
    · split at hstep
      · cases hstep
        exact ⟨h.delivery, h.distinct.erase i⟩
      · cases hstep
    · cases hstep
  | consumer i action =>
    obtain ⟨hi, relay, hrelay, rfl⟩ := RelayProcess.step_consumer hstep
    refine ⟨deliveryInv_step hrelay h.delivery, ?_⟩
    cases stillRunning_eq s.running i (consumer_ne_stopped h.delivery hrelay) with
    | inl hnone => rw [hnone]; exact List.nodup_nil
    | inr hall => rw [hall]; exact h.distinct

/-- An action strands no job exactly under the condition. -/
private theorem noneStranded_step {name : String} {s s' : RelayProcess ι T β}
    {a : ProcessAction ι β} (hstep : s.step name a = some s') (h : RestartInv s)
    (hP : NoneStranded name s) : NoneStranded name s' ↔ Reclaims name s a := by
  rw [noneStranded_iff_deliveredTo] at hP ⊢
  cases a with
  | activate ids =>
    cases hstep
    refine iff_of_true (fun hrun => ?_) trivial
    rw [Shard.webhookStream_activate]
    exact hP hrun
  | flush height =>
    cases hstep
    refine iff_of_true (fun hrun => ?_) trivial
    rw [Shard.flush_eq]
    exact (hP hrun).xaddAll _
  | setWebhook id webhook =>
    cases hstep
    exact iff_of_true hP trivial
  | start concurrency =>
    simp only [RelayProcess.step] at hstep
    split at hstep
    · next hstart =>
      cases hstep
      have hne : List.range concurrency ≠ [] := by
        intro hnil
        have hzero := List.range_eq_nil.1 hnil
        omega
      rw [forall_prop_of_true hne]
      exact start_iff h.delivery name concurrency
    · cases hstep
  | stop =>
    cases hstep
    exact iff_of_true (fun hrun => absurd rfl hrun) trivial
  | readFails i =>
    simp only [RelayProcess.step] at hstep
    split at hstep
    · next hi =>
      split at hstep
      · cases hstep
        have hrun := hP (List.ne_nil_of_mem hi)
        rw [readFails_iff h hrun]
        exact imp_iff_not_or.trans (or_congr not_not Iff.rfl)
      · cases hstep
    · cases hstep
  | consumer i action =>
    obtain ⟨hi, relay, hrelay, rfl⟩ := RelayProcess.step_consumer hstep
    refine iff_of_true (fun hrun => ?_) trivial
    -- a goroutine that reads is one of those that run on
    have hall := (stillRunning_eq s.running i
      (consumer_ne_stopped h.delivery hrelay)).resolve_left hrun
    rw [hall]
    apply deliveredTo_step (streamStep_of_step hrelay) ?_ (hP (List.ne_nil_of_mem hi))
    intro c action' heq
    cases heq
    exact ⟨i, hi, rfl⟩

/-- No job is stranded anywhere in a run if and only if every start of the relay takes up all that
    is pending and every goroutine that ends before the others leaves nothing pending. -/
theorem always_noneStranded_iff {name : String} {as : List (ProcessAction ι β)} :
    Always (RelayProcess.step name) (NoneStranded name) (.init : RelayProcess ι T β) as ↔
      Meets (RelayProcess.step name) (Reclaims name) (.init : RelayProcess ι T β) as := by
  refine always_iff_meets (I := RestartInv) (fun _ _ _ => restartInv_step)
    (fun _ _ _ => noneStranded_step) restartInv_init ?_
  exact fun hrun => absurd rfl hrun

end Restarts

/-- Two webhooks, two goroutines with a job each, and a restart with one. -/
def lowerConcurrency : List (ProcessAction Nat Nat) :=
  [.activate [7, 8], .flush 5, .start 2, .consumer 0 .readBacklog, .consumer 0 .readNew,
    .consumer 1 .readBacklog, .consumer 1 .readNew, .stop, .start 1]

/-- The second job is pending for `relay-1`, which nobody reads as any more. -/
theorem not_always_noneStranded :
    ∃ s : RelayProcess Nat TupleText Nat,
      run (RelayProcess.step "relay") .init lowerConcurrency = some s ∧ s.running = [0] ∧
        s.relay.shard.webhookStream.pelIds "relay-1" = [2] ∧ ¬ NoneStranded "relay" s := by
  refine ⟨_, rfl, rfl, by decide, fun hnone => ?_⟩
  have hjob := hnone (by decide) (2, JobText.encode 8) (by decide)
  revert hjob
  decide

end BlockFeed.Spec
