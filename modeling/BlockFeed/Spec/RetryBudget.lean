import BlockFeed.Spec.RelayRestart

/-!
# The retry budget

`handleMessages` moves a job of the backlog to the next height when the delivery count of its
message has reached `MaxRetries`. That count already includes the first delivery and the read
that has just been made, so a message whose POSTs all fail is tried `max 1 (MaxRetries - 1)`
times. `BudgetInv` ties the delivery count to the attempts made so far.

- `attempts_eq`: the exact number of attempts when the job is moved.
- `retryBudget_iff`: the budget is honoured for `MaxRetries ≤ 1` only.
-/

namespace BlockFeed.Spec

open BlockFeed.Native Redis Transition

section Budget

variable {κ ι T β : Type}

/-- The message whose POST an action attempts, successfully or not. -/
def attempts [LinearOrder T] (s : RelayState κ ι T β) : RelayAction κ ι β → List Nat
  | .consumer c action =>
    match s.consumers c, action with
    | ⟨.handler (msg :: _) _, .post _⟩, .post => [msg.id]
    | ⟨.handler (msg :: _) _, .post _⟩, .callFails => [msg.id]
    | _, _ => []
  | _ => []

/-- The message that a consumer works on, and whether it is from the backlog. -/
def working : Subscriber (WebhookStreamMsgData ι) →
    Option (ParsedStreamMessage (WebhookStreamMsgData ι) × Bool)
  | .handler (msg :: _) isBacklogMsg => some (msg, isBacklogMsg)
  | _ => none

/-- No crash, all calls succeed but the POST, and the webhook of the message has this
    `MaxRetries`. -/
def OnlyPostsFail (n : Nat) (webhooks : ι → Option Webhook)
    (msg : ParsedStreamMessage (WebhookStreamMsgData ι)) :
    RelayCall ι β → ConsumerAction β → Prop
  | _, .crash => False
  | _, .post => False
  | .post _, .callFails => True
  | _, .callFails => False
  | _, .webhooksFindOne =>
    (webhooks msg.data.webhookID).map Webhook.maxRetries = some (n : Int)
  | _, _ => True

/-- While a consumer works on the message with this ID only its POSTs fail, and they do. -/
def AllPostsFail [LinearOrder T] (id n : Nat) (s : RelayState κ ι T β) : RelayAction κ ι β → Prop
  | .consumer c action =>
    match working (s.consumers c).loop with
    | some (msg, _) => msg.id = id → OnlyPostsFail n s.webhooks msg (s.consumers c).call action
    | none => True
  | _ => True

instance (n : Nat) (webhooks : ι → Option Webhook)
    (msg : ParsedStreamMessage (WebhookStreamMsgData ι)) (call : RelayCall ι β)
    (action : ConsumerAction β) : Decidable (OnlyPostsFail n webhooks msg call action) := by
  unfold OnlyPostsFail
  split <;> infer_instance

instance [LinearOrder T] (id n : Nat) (s : RelayState κ ι T β) (a : RelayAction κ ι β) :
    Decidable (AllPostsFail id n s a) := by
  unfold AllPostsFail
  split
  · split <;> infer_instance
  · infer_instance

/-- A message that is pending and not worked on: each delivery led to one attempt. -/
structure Tried (n deliveries made : Nat) : Prop where
  eq : made = deliveries
  pos : 1 ≤ made
  bound : made = 1 ∨ made < n

/-- What is known at a call for a message that has been tried `made` times before. -/
def CallTrying (n made : Nat) (msg : ParsedStreamMessage (WebhookStreamMsgData ι)) :
    RelayCall ι β → Prop
  | .getPendingMsg webhook => webhook.maxRetries = n ∧ 1 ≤ made
  | .readCache _ | .readWrapped _ | .post _ => made = 0 ∨ made + 1 < n
  | .xAckDel newMsg => 1 ≤ made ∧ n ≤ made + 1 ∧
    newMsg = some ⟨msg.data.webhookID, msg.data.blockHeight + 1, msg.data.isNew⟩
  | .webhooksFindOne | .panicked => True

/-- A message that is worked on: the last delivery is still to be tried. -/
structure Trying (n : Nat) (msg : ParsedStreamMessage (WebhookStreamMsgData ι))
    (isBacklogMsg : Bool) (call : RelayCall ι β) (deliveries made : Nat) : Prop where
  eq : made + 1 = deliveries
  first : made = 0 ↔ isBacklogMsg = false
  bound : made ≤ 1 ∨ made < n
  at_call : CallTrying n made msg call

/-- What has been spent on a pending message, by the position of its consumer. -/
def Spent (n id : Nat) (consumer : RelayConsumer ι β) (deliveries made : Nat) : Prop :=
  (∃ msg isBacklogMsg, working consumer.loop = some (msg, isBacklogMsg) ∧ msg.id = id ∧
    Trying n msg isBacklogMsg consumer.call deliveries made) ∨
  ((∀ msg isBacklogMsg, working consumer.loop = some (msg, isBacklogMsg) → msg.id ≠ id) ∧
    Tried n deliveries made)

/-- The invariant of one message with `made` attempts so far. -/
structure BudgetInv [LinearOrder T] (n id : Nat) (s : RelayState κ ι T β) (made : Nat) : Prop where
  unread : s.shard.webhookStream.lastDelivered < id → made = 0
  pending : ∀ p ∈ s.shard.webhookStream.pel, p.id = id →
    Spent n id (s.consumers p.consumer) p.deliveries made

variable [LinearOrder T]

theorem budgetInv_init (n id : Nat) : BudgetInv n id (.init : RelayState κ ι T β) 0 where
  unread := fun _ => rfl
  pending := fun _ hp => absurd hp List.not_mem_nil

/-- What the condition says of a consumer that works on the message. -/
theorem AllPostsFail.of_working {s : RelayState κ ι T β} {c : κ} {action : ConsumerAction β}
    {id n : Nat} (h : AllPostsFail id n s (.consumer c action))
    {msg : ParsedStreamMessage (WebhookStreamMsgData ι)} {isBacklogMsg : Bool}
    (hworking : working (s.consumers c).loop = some (msg, isBacklogMsg)) (hid : msg.id = id) :
    OnlyPostsFail n s.webhooks msg (s.consumers c).call action := by
  simp only [AllPostsFail, hworking] at h
  exact h hid

/-- An attempt is made by a consumer that works on the message. -/
theorem working_of_mem_attempts {s : RelayState κ ι T β} {c : κ} {action : ConsumerAction β}
    {id : Nat} (h : id ∈ attempts s (.consumer c action)) :
    ∃ msg isBacklogMsg, working (s.consumers c).loop = some (msg, isBacklogMsg) ∧ msg.id = id := by
  simp only [attempts] at h
  split at h
  · next msg _ isBacklogMsg _ hc =>
    rw [hc]
    exact ⟨msg, isBacklogMsg, rfl, (List.mem_singleton.1 h).symm⟩
  · next msg _ isBacklogMsg _ hc =>
    rw [hc]
    exact ⟨msg, isBacklogMsg, rfl, (List.mem_singleton.1 h).symm⟩
  · cases h

end Budget

/-! ## One step -/

section Step

variable {κ ι T β : Type} [DecidableEq κ] [DecidableEq ι] [LinearOrder T] [JobText ι T]

/-- A PEL entry of another consumer is what it was. -/
private theorem pel_of_ne {c : κ} {shard shard' : Shard κ ι T} (h : ShardStep c shard shard')
    {p : PelEntry κ} (hp : p ∈ shard'.webhookStream.pel) (hc : p.consumer ≠ c) :
    p ∈ shard.webhookStream.pel := by
  cases h with
  | same => exact hp
  | readBacklog cursorId =>
    obtain ⟨q, hq, rfl⟩ := GroupStream.mem_pel_xreadgroupFrom.1 hp
    by_cases hread : q ∈ shard.webhookStream.backlog c cursorId 1 ∧
        (shard.webhookStream.get? q.id).isSome
    · rw [if_pos hread] at hc
      exact absurd (GroupStream.mem_backlog hread.1).2.1 hc
    · rw [if_neg hread]
      exact hq
  | readNew =>
    rw [GroupStream.pel_xreadgroupNew, List.mem_append] at hp
    cases hp with
    | inl hp => exact hp
    | inr hp =>
      obtain ⟨e, -, rfl⟩ := List.mem_map.1 hp
      exact absurd rfl hc
  | xAckDel msg newMsg =>
    rw [Shard.pel_xAckDel] at hp
    exact List.mem_of_mem_filter hp

/-- The mark of the group never goes back. -/
private theorem lastDelivered_le {c : κ} {shard shard' : Shard κ ι T}
    (h : ShardStep c shard shard') :
    shard.webhookStream.lastDelivered ≤ shard'.webhookStream.lastDelivered := by
  cases h with
  | same | readBacklog _ => exact Nat.le_refl _
  | readNew => exact GroupStream.lastDelivered_le_xreadgroupNew _ c 1
  | xAckDel msg newMsg => rw [Shard.lastDelivered_xAckDel]

omit [DecidableEq κ] [DecidableEq ι] [LinearOrder T] [JobText ι T] in
/-- Nothing is known to go wrong with a message that nobody works on. -/
private theorem Tried.spent {n id deliveries made : Nat} (h : Tried n deliveries made)
    {consumer : RelayConsumer ι β} (hidle : working consumer.loop = none) :
    Spent n id consumer deliveries made := by
  refine .inr ⟨?_, h⟩
  intro msg isBacklogMsg hworking
  rw [hidle] at hworking
  cases hworking

omit [DecidableEq κ] [DecidableEq ι] [LinearOrder T] [JobText ι T] in
/-- A message is not worked on between two handlers. -/
private theorem Spent.tried {n id deliveries made : Nat} {consumer : RelayConsumer ι β}
    (h : Spent n id consumer deliveries made) (hidle : working consumer.loop = none) :
    Tried n deliveries made := by
  cases h with
  | inl htrying =>
    obtain ⟨msg, isBacklogMsg, hworking, -⟩ := htrying
    rw [hidle] at hworking
    cases hworking
  | inr htried => exact htried.2

omit [DecidableEq ι] in
/-- A read of the backlog with batch size 1 hands out one message with its next delivery, or
    nothing. -/
private theorem readBacklog_one {c : κ} {shard : Shard κ ι T} (hdelivery : DeliveryInv shard)
    {cursorId : Nat} {loop : Subscriber (WebhookStreamMsgData ι)} {stream : GroupStream κ T}
    (hread : Subscriber.readBacklog JobText.parse shard.webhookStream c 1 cursorId =
      (loop, stream)) :
    shard.webhookStream.backlog c cursorId 1 = [] ∧ working loop = none ∨
      ∃ p data, shard.webhookStream.backlog c cursorId 1 = [p] ∧
        (shard.webhookStream.get? p.id).isSome ∧ loop = .handler [⟨p.id, data⟩] true := by
  have hne := readBacklog_ne_stopped 1 cursorId (hdelivery.readable c)
  rw [hread] at hne
  obtain ⟨-, hcases⟩ := readBacklog_cases hread
  cases hmine : shard.webhookStream.backlog c cursorId 1 with
  | nil =>
    left
    have hreply : (shard.webhookStream.xreadgroupFrom c cursorId 1).1 = [] := by
      show (shard.webhookStream.backlog c cursorId 1).map _ = []
      rw [hmine]
      rfl
    cases hcases with
    | inl hempty =>
      refine ⟨rfl, ?_⟩
      rw [hempty.2]
      split <;> rfl
    | inr hsome => exact absurd hreply hsome.1
  | cons p ps =>
    right
    have hlen : (p :: ps).length ≤ 1 := by
      rw [← hmine]
      exact List.length_take_le _ _
    have hps : ps = [] := List.length_eq_zero_iff.1 (by simpa using hlen)
    subst hps
    have hreply : (shard.webhookStream.xreadgroupFrom c cursorId 1).1 =
        [(p.id, shard.webhookStream.get? p.id)] := by
      show (shard.webhookStream.backlog c cursorId 1).map _ = _
      rw [hmine]
      rfl
    cases hcases with
    | inl hempty => exact absurd (hreply.symm.trans hempty.1) (List.cons_ne_nil _ _)
    | inr hsome =>
      obtain ⟨-, hstop | ⟨msgs, hloop, hparse⟩⟩ := hsome
      · exact absurd hstop hne
      · rw [hreply] at hparse
        obtain ⟨data, rest, hdata, hrest, rfl⟩ := parseMessages_cons hparse
        cases hrest
        obtain ⟨v, hv, -⟩ := Option.bind_eq_some_iff.1 hdata
        exact ⟨p, data, rfl, by rw [hv]; rfl, hloop⟩

omit [DecidableEq ι] in
/-- After a read of the backlog the message that was read is tried once more. -/
private theorem spent_readBacklog {c : κ} {shard : Shard κ ι T} (hdelivery : DeliveryInv shard)
    {cursorId : Nat} {loop : Subscriber (WebhookStreamMsgData ι)} {stream : GroupStream κ T}
    (hread : Subscriber.readBacklog JobText.parse shard.webhookStream c 1 cursorId =
      (loop, stream)) {n id made : Nat}
    (h : ∀ p ∈ shard.webhookStream.pel, p.id = id → p.consumer = c →
      Tried n p.deliveries made) {p : PelEntry κ} (hp : p ∈ stream.pel) (hid : p.id = id)
    (hc : p.consumer = c) :
    Spent n id (⟨loop, .webhooksFindOne⟩ : RelayConsumer ι β) p.deliveries made := by
  have hone := readBacklog_one hdelivery hread
  obtain ⟨rfl, -⟩ := readBacklog_cases hread
  obtain ⟨q, hq, rfl⟩ := GroupStream.mem_pel_xreadgroupFrom.1 hp
  have hqc : q.consumer = c := by split at hc <;> exact hc
  have hqid : q.id = id := by split at hid <;> exact hid
  have hwait := h q hq hqid hqc
  cases hone with
  | inl hnone =>
    obtain ⟨hnil, hidle⟩ := hnone
    rw [if_neg (by rw [hnil]; simp)]
    exact hwait.spent hidle
  | inr hsome =>
    obtain ⟨r, data, hmine, hentry, rfl⟩ := hsome
    rw [hmine]
    by_cases hqr : q = r
    · -- the message itself: one delivery more than attempts
      subst hqr
      rw [if_pos ⟨List.mem_singleton.2 rfl, hentry⟩]
      refine .inl ⟨_, _, rfl, hqid, ?_⟩
      have hpos := hwait.pos
      exact
        { eq := congrArg (· + 1) hwait.eq
          first := by simp; omega
          bound := by have hbound := hwait.bound; omega
          at_call := trivial }
    · -- another one
      rw [if_neg (by simp [hqr])]
      refine .inr ⟨?_, hwait⟩
      intro msg isBacklogMsg hworking heq
      cases hworking
      have hr : r ∈ shard.webhookStream.backlog c cursorId 1 := by
        rw [hmine]
        exact List.mem_singleton.2 rfl
      exact hqr (GroupStream.pel_unique hq (GroupStream.mem_backlog hr).1 (hqid.trans heq.symm))

omit [DecidableEq ι] in
/-- After a read of new messages the new one is to be tried for the first time. -/
private theorem spent_readNew {c : κ} {shard : Shard κ ι T} (hdelivery : DeliveryInv shard)
    {loop : Subscriber (WebhookStreamMsgData ι)} {stream : GroupStream κ T}
    (hread : Subscriber.readNew JobText.parse shard.webhookStream c 1 = some (loop, stream))
    {n id made : Nat} (hunread : shard.webhookStream.lastDelivered < id → made = 0)
    (h : ∀ p ∈ shard.webhookStream.pel, p.id = id → p.consumer = c →
      Tried n p.deliveries made) {p : PelEntry κ} (hp : p ∈ stream.pel) (hid : p.id = id)
    (hc : p.consumer = c) :
    Spent n id (⟨loop, .webhooksFindOne⟩ : RelayConsumer ι β) p.deliveries made := by
  have hne := readNew_ne_stopped hdelivery.parse_entry hread
  obtain ⟨rfl, hsome, hstop | ⟨msgs, rfl, hparse⟩⟩ := readNew_cases hread
  · exact absurd hstop hne
  -- one entry is read, the first unread one
  cases hentries : shard.webhookStream.unread with
  | nil => exact absurd hentries hsome
  | cons e es =>
    rw [hentries] at hparse
    obtain ⟨data, rest, -, hrest, rfl⟩ := parseMessages_cons hparse
    cases hrest
    have hmark : shard.webhookStream.lastDelivered < e.1 :=
      (GroupStream.mem_unread.1 (hentries ▸ List.mem_cons_self)).2
    rw [GroupStream.pel_xreadgroupNew, hentries, List.mem_append] at hp
    cases hp with
    | inl hp =>
      -- what was pending was delivered before
      refine .inr ⟨?_, h p hp hid hc⟩
      intro msg isBacklogMsg hworking heq
      cases hworking
      have hle := (shard.webhookStream.pelBounded p hp).2
      have heq : e.1 = id := heq
      omega
    | inr hp =>
      rw [List.take_succ_cons, List.take_zero, List.map_singleton, List.mem_singleton] at hp
      subst hp
      have hzero := hunread (hid ▸ hmark)
      refine .inl ⟨_, _, rfl, hid, ?_⟩
      exact
        { eq := by rw [hzero]
          first := by simp [hzero]
          bound := by omega
          at_call := trivial }

/-- A call that leads to another one attempts nothing, unless it is a POST that succeeds. -/
private theorem attempts_of_call {c : κ} {s : RelayState κ ι T β} {shard : Shard κ ι T}
    {msg : ParsedStreamMessage (WebhookStreamMsgData ι)} {isBacklogMsg : Bool}
    {call call' : RelayCall ι β} {action : ConsumerAction β}
    (hstep : HandlerStep c s.webhooks s.shard msg isBacklogMsg call action shard (some call'))
    {msgs : List (ParsedStreamMessage (WebhookStreamMsgData ι))}
    (hc : s.consumers c = ⟨.handler (msg :: msgs) isBacklogMsg, call⟩) {n : Nat}
    (hfails : OnlyPostsFail n s.webhooks msg call action) :
    attempts s (.consumer c action) = [] := by
  cases hstep with
  | post blocks last hl => exact hfails.elim
  | _ => simp only [attempts, hc]

/-- A call of the handler on the message, up to the next call. -/
private theorem Trying.call {n made : Nat} {c : κ} {s : RelayState κ ι T β}
    {shard : Shard κ ι T} {msg : ParsedStreamMessage (WebhookStreamMsgData ι)}
    {isBacklogMsg : Bool} {call call' : RelayCall ι β} {action : ConsumerAction β}
    (hstep : HandlerStep c s.webhooks s.shard msg isBacklogMsg call action shard (some call'))
    (hfails : OnlyPostsFail n s.webhooks msg call action) {p : PelEntry κ}
    (hp : p ∈ s.shard.webhookStream.pel) (hid : p.id = msg.id)
    (h : Trying n msg isBacklogMsg call p.deliveries made) :
    Trying n msg isBacklogMsg call' p.deliveries made := by
  refine ⟨h.eq, h.first, h.bound, ?_⟩
  have hat := h.at_call
  have heq := h.eq
  cases hstep with
  | noWebhook hnone =>
    -- the row exists
    have hrow : (s.webhooks msg.data.webhookID).map Webhook.maxRetries = some (n : Int) := hfails
    rw [hnone] at hrow
    cases hrow
  | backlogMsg webhook hw hb =>
    have hrow : (s.webhooks msg.data.webhookID).map Webhook.maxRetries = some (n : Int) := hfails
    rw [hw] at hrow
    have hn : webhook.maxRetries = n := Option.some.inj hrow
    have hfirst := h.first
    rw [hb] at hfirst
    have hpos : made ≠ 0 := fun hzero => Bool.noConfusion (hfirst.1 hzero)
    exact ⟨hn, Nat.one_le_iff_ne_zero.2 hpos⟩
  | newMsg webhook hw hb => exact .inl (h.first.2 hb)
  | exhausted webhook pendingMsg hpending hr =>
    -- the reply of XPENDING is the entry itself, with the delivery of this read
    obtain ⟨hmem, -, hpid⟩ := GroupStream.xpending_eq_some.1 hpending
    rw [GroupStream.pel_unique hmem hp (hpid.trans hid.symm)] at hr
    refine ⟨hat.2, ?_, rfl⟩
    have hn := hat.1
    omega
  | retry webhook pendingMsg hpending hr =>
    obtain ⟨hmem, -, hpid⟩ := GroupStream.xpending_eq_some.1 hpending
    rw [GroupStream.pel_unique hmem hp (hpid.trans hid.symm)] at hr
    right
    have hn := hat.1
    omega
  | readCache webhook answer => exact hat
  | noBlocks read => trivial
  | blocks read blocks hne => exact hat
  | post blocks last hl => exact hfails.elim

/-- The return of the handler: the POST has failed. -/
private theorem Trying.handled {n made : Nat} {c : κ} {s : RelayState κ ι T β}
    {shard : Shard κ ι T} {msg : ParsedStreamMessage (WebhookStreamMsgData ι)}
    {isBacklogMsg : Bool} {call : RelayCall ι β} {action : ConsumerAction β}
    (hstep : HandlerStep c s.webhooks s.shard msg isBacklogMsg call action shard none)
    {msgs : List (ParsedStreamMessage (WebhookStreamMsgData ι))}
    (hc : s.consumers c = ⟨.handler (msg :: msgs) isBacklogMsg, call⟩)
    (hfails : OnlyPostsFail n s.webhooks msg call action) {p : PelEntry κ}
    (hp : p ∈ shard.webhookStream.pel) (hpc : p.consumer = c) (hid : p.id = msg.id)
    (h : Trying n msg isBacklogMsg call p.deliveries made) :
    Tried n p.deliveries (made + (attempts s (.consumer c action)).count msg.id) := by
  cases hstep with
  | notPending webhook hnone =>
    -- the message is pending
    rw [GroupStream.xpending_eq_some.2 ⟨hp, hpc, hid⟩] at hnone
    cases hnone
  | xAckDel newMsg =>
    -- it has just been acknowledged
    rw [Shard.pel_xAckDel] at hp
    exact absurd hid (of_decide_eq_true (List.mem_filter.1 hp).2)
  | callFails call hne =>
    cases call with
    | post blocks =>
      have hcount : (attempts s (.consumer c .callFails)).count msg.id = 1 := by
        simp only [attempts, hc, List.count_singleton_self]
      rw [hcount]
      have hat : made = 0 ∨ made + 1 < n := h.at_call
      have heq := h.eq
      exact ⟨heq, by omega, by omega⟩
    | _ => exact hfails.elim

omit [DecidableEq κ] [DecidableEq ι] [JobText ι T] in
/-- Nobody attempts a message that nobody works on. -/
private theorem count_attempts_eq_zero {s : RelayState κ ι T β} {c : κ}
    {action : ConsumerAction β} {id : Nat}
    (h : ∀ msg isBacklogMsg, working (s.consumers c).loop = some (msg, isBacklogMsg) →
      msg.id ≠ id) : (attempts s (.consumer c action)).count id = 0 := by
  rw [List.count_eq_zero]
  intro hmem
  obtain ⟨msg, isBacklogMsg, hworking, hid⟩ := working_of_mem_attempts hmem
  exact h msg isBacklogMsg hworking hid

/-- A message that a consumer works on is pending for it. -/
private theorem pending_of_working {s : RelayState κ ι T β} (h : ConservationInv s) {c : κ}
    {msg : ParsedStreamMessage (WebhookStreamMsgData ι)} {isBacklogMsg : Bool}
    (hworking : working (s.consumers c).loop = some (msg, isBacklogMsg)) :
    msg.id ∈ s.shard.webhookStream.pelIds c := by
  have hhanded := h.handed c
  generalize (s.consumers c).loop = loop at hworking hhanded
  unfold working at hworking
  split at hworking
  · cases hworking
    exact (hhanded msg List.mem_cons_self).1
  · cases hworking

/-- What an action of a consumer leaves of a message that is pending for it. -/
private theorem spent_own {n id made : Nat} {s : RelayState κ ι T β}
    (hdelivery : DeliveryInv s.shard) {c : κ} {action : ConsumerAction β} {shard : Shard κ ι T}
    {consumer : RelayConsumer ι β}
    (hstep : ConsumerStep c s.webhooks s.shard (s.consumers c) action shard consumer)
    (hfails : AllPostsFail id n s (.consumer c action)) (h : BudgetInv n id s made)
    {p : PelEntry κ} (hp : p ∈ shard.webhookStream.pel) (hid : p.id = id) (hpc : p.consumer = c) :
    Spent n id consumer p.deliveries (made + (attempts s (.consumer c action)).count id) := by
  have hold : ∀ q ∈ s.shard.webhookStream.pel, q.id = id → q.consumer = c →
      Spent n id (s.consumers c) q.deliveries made := by
    intro q hq hqid hqc
    have hspent := h.pending q hq hqid
    rwa [hqc] at hspent
  have hidle : working (s.consumers c).loop = none →
      (attempts s (.consumer c action)).count id = 0 := by
    intro hnone
    apply count_attempts_eq_zero
    intro msg isBacklogMsg hworking
    rw [hnone] at hworking
    cases hworking
  generalize hc : s.consumers c = old at hstep hold hidle
  cases hstep with
  | crash =>
    cases hold p hp hid hpc with
    | inl htrying =>
      obtain ⟨msg, isBacklogMsg, hworking, hmsg, -⟩ := htrying
      rw [← hc] at hworking
      have honly := hfails.of_working hworking hmsg
      simp only [OnlyPostsFail] at honly
    | inr htried =>
      rw [← hc] at htried
      rw [count_attempts_eq_zero htried.1]
      exact htried.2.spent rfl
  | readBacklog cursorId call loop stream hread =>
    rw [hidle rfl]
    exact spent_readBacklog hdelivery hread
      (fun q hq hqid hqc => (hold q hq hqid hqc).tried rfl) hp hid hpc
  | readNew call loop stream hread =>
    rw [hidle rfl]
    exact spent_readNew hdelivery hread h.unread
      (fun q hq hqid hqc => (hold q hq hqid hqc).tried rfl) hp hid hpc
  | call msg msgs isBacklogMsg call call' _ _ hcall =>
    -- only the last call of the handler touches the shard
    have hsame : shard = s.shard := by cases hcall <;> rfl
    have hmem : p ∈ s.shard.webhookStream.pel := hsame ▸ hp
    cases hold p hmem hid hpc with
    | inl htrying =>
      obtain ⟨_, _, hworking, hmsg, htry⟩ := htrying
      cases hworking
      subst hmsg
      have honly := hfails.of_working (by rw [hc]; rfl) rfl
      rw [hc] at honly
      rw [attempts_of_call hcall hc honly, List.count_nil]
      exact .inl ⟨msg, isBacklogMsg, rfl, rfl, htry.call hcall honly hmem hid⟩
    | inr htried =>
      rw [count_attempts_eq_zero (by rw [hc]; exact htried.1)]
      exact .inr htried
  | handled msg msgs isBacklogMsg call _ _ hcall =>
    have hmem : p ∈ s.shard.webhookStream.pel := by
      cases handlerStep_shard hcall with
      | inl hsame => exact hsame ▸ hp
      | inr hack =>
        obtain ⟨newMsg, -, rfl⟩ := hack
        rw [Shard.pel_xAckDel] at hp
        exact List.mem_of_mem_filter hp
    have hdone : working (.handled (msg :: msgs) isBacklogMsg :
        Subscriber (WebhookStreamMsgData ι)) = none := by
      cases isBacklogMsg <;> rfl
    cases hold p hmem hid hpc with
    | inl htrying =>
      obtain ⟨_, _, hworking, hmsg, htry⟩ := htrying
      cases hworking
      subst hmsg
      have honly := hfails.of_working (by rw [hc]; rfl) rfl
      rw [hc] at honly
      exact (htry.handled hcall hc honly hp hpc hid).spent hdone
    | inr htried =>
      rw [count_attempts_eq_zero (by rw [hc]; exact htried.1)]
      exact htried.2.spent hdone

/-- An action of a consumer keeps the invariant. -/
private theorem budgetInv_consumer {n id made : Nat} {s : RelayState κ ι T β}
    (hcons : ConservationInv s) (hdelivery : DeliveryInv s.shard) {c : κ}
    {action : ConsumerAction β} {shard : Shard κ ι T} {consumer : RelayConsumer ι β}
    (hstep : ConsumerStep c s.webhooks s.shard (s.consumers c) action shard consumer)
    (hshard : ShardStep c s.shard shard)
    (hfails : AllPostsFail id n s (.consumer c action)) (h : BudgetInv n id s made) :
    BudgetInv n id
      { s with shard := shard, consumers := Function.update s.consumers c consumer }
      (made + (attempts s (.consumer c action)).count id) := by
  constructor
  · -- nobody works on a message that has not been delivered
    intro hmark
    have hle := lastDelivered_le hshard
    have hold : s.shard.webhookStream.lastDelivered < id := Nat.lt_of_le_of_lt hle hmark
    rw [h.unread hold, count_attempts_eq_zero]
    intro msg isBacklogMsg hworking hid
    have hbounded := GroupStream.pelIds_bounded (pending_of_working hcons hworking)
    omega
  · intro p hp hid
    by_cases hpc : p.consumer = c
    · -- the consumer itself
      show Spent n id (Function.update s.consumers c consumer p.consumer) _ _
      rw [hpc, Function.update_self]
      exact spent_own hdelivery hstep hfails h hp hid hpc
    · -- another consumer: its message is not the one that this action is about
      have hmem := pel_of_ne hshard hp hpc
      show Spent n id (Function.update s.consumers c consumer p.consumer) _ _
      rw [Function.update_of_ne hpc, count_attempts_eq_zero]
      · exact h.pending p hmem hid
      · intro msg isBacklogMsg hworking heq
        have hpending := pending_of_working hcons hworking
        rw [heq, ← hid] at hpending
        exact hpc (GroupStream.pelIds_owner
          (GroupStream.mem_pelIds.2 ⟨p, hmem, rfl, rfl⟩) hpending)

/-- Every action keeps the invariant. -/
theorem budgetInv_step {n id made : Nat} {s s' : RelayState κ ι T β} {a : RelayAction κ ι β}
    (hstep : s.step a = some s') (hcons : ConservationInv s) (hdelivery : DeliveryInv s.shard)
    (hfails : AllPostsFail id n s a) (h : BudgetInv n id s made) :
    BudgetInv n id s' (made + (attempts s a).count id) := by
  cases a with
  | activate ids =>
    cases hstep
    have hstream := Shard.webhookStream_activate s.shard ids
    constructor
    · rw [hstream]
      exact h.unread
    · rw [hstream]
      exact h.pending
  | flush height =>
    cases hstep
    rw [Shard.flush_eq]
    constructor
    · rw [GroupStream.lastDelivered_xaddAll]
      exact h.unread
    · rw [GroupStream.pel_xaddAll]
      exact h.pending
  | setWebhook id webhook =>
    cases hstep
    exact ⟨h.unread, h.pending⟩
  | consumer c action =>
    have hshard := shardStep_of_step hstep
    obtain ⟨shard, consumer, hmove, rfl⟩ := consumerStep_of_relayStep hstep
    exact budgetInv_consumer hcons hdelivery hmove hshard hfails h

end Step

/-! ## Runs -/

section Runs

variable {κ ι T β : Type} [DecidableEq κ] [DecidableEq ι] [LinearOrder T] [JobText ι T]

/-- A shard, and the messages of the POSTs that have been attempted. -/
abbrev PostLog (κ ι T β : Type) [LinearOrder T] : Type := RelayState κ ι T β × List Nat

/-- One action, with the attempt that it is. -/
def postStep : PostLog κ ι T β → RelayAction κ ι β → Option (PostLog κ ι T β) :=
  recorded RelayState.step attempts

private theorem budgetInv_run {n id : Nat} {as : List (RelayAction κ ι β)}
    {s : RelayState κ ι T β} {posted : List Nat}
    (hrun : run postStep (.init, []) as = some (s, posted))
    (hfails : Meets postStep (fun p : PostLog κ ι T β => AllPostsFail id n p.1) (.init, []) as) :
    ConservationInv s ∧ BudgetInv n id s (posted.count id) := by
  have hinv : ConservationInv s ∧ DeliveryInv s.shard ∧ BudgetInv n id s (posted.count id) := by
    refine run_invariant_of_meets
      (P := fun p : PostLog κ ι T β => ConservationInv p.1 ∧ DeliveryInv p.1.shard ∧
        BudgetInv n id p.1 (p.2.count id)) ?_ hrun hfails
      ⟨conservationInv_init, deliveryInv_empty, budgetInv_init n id⟩
    rintro ⟨s, posted⟩ a ⟨s', posted'⟩ hstep hq ⟨hcons, hdelivery, hbudget⟩
    obtain ⟨hmove, rfl⟩ := recorded_eq_some.1 hstep
    refine ⟨conservationInv_step hmove hcons, deliveryInv_step hmove hdelivery, ?_⟩
    show BudgetInv n id s' ((posted ++ attempts s a).count id)
    rw [List.count_append]
    exact budgetInv_step hmove hcons hdelivery hq hbudget
  exact ⟨hinv.1, hinv.2.2⟩

/-- When the job is about to be moved on, it goes to the next height, and its message has been
    tried once, or once less than the limit. -/
theorem attempts_eq {n : Nat} {as : List (RelayAction κ ι β)} {s : RelayState κ ι T β}
    {posted : List Nat} (hrun : run postStep (.init, []) as = some (s, posted)) {c : κ}
    {msg : ParsedStreamMessage (WebhookStreamMsgData ι)}
    {msgs : List (ParsedStreamMessage (WebhookStreamMsgData ι))} {isBacklogMsg : Bool}
    {newMsg : WebhookStreamMsgData ι}
    (hmoves : s.consumers c = ⟨.handler (msg :: msgs) isBacklogMsg, .xAckDel (some newMsg)⟩)
    (hfails : Meets postStep (fun p : PostLog κ ι T β => AllPostsFail msg.id n p.1)
      (.init, []) as) :
    newMsg = ⟨msg.data.webhookID, msg.data.blockHeight + 1, msg.data.isNew⟩ ∧
      posted.count msg.id = max 1 (n - 1) := by
  obtain ⟨hcons, hbudget⟩ := budgetInv_run hrun hfails
  have hworking : working (s.consumers c).loop = some (msg, isBacklogMsg) := by
    rw [hmoves]
    rfl
  obtain ⟨p, hp, hpc, hid⟩ := GroupStream.mem_pelIds.1 (pending_of_working hcons hworking)
  have hspent := hbudget.pending p hp hid
  rw [hpc] at hspent
  cases hspent with
  | inl htrying =>
    obtain ⟨_, _, hworking', hmsg, htry⟩ := htrying
    rw [hworking] at hworking'
    cases hworking'
    have hat := htry.at_call
    rw [hmoves] at hat
    obtain ⟨hpos, hlimit, hnew⟩ := hat
    have hbound := htry.bound
    refine ⟨Option.some.inj hnew, ?_⟩
    omega
  | inr htried => exact absurd rfl (htried.1 msg isBacklogMsg hworking)

/-- The number of attempts lies between the limit and one more exactly if the limit is 0 or 1. -/
theorem retryBudget_iff {n : Nat} {as : List (RelayAction κ ι β)} {s : RelayState κ ι T β}
    {posted : List Nat} (hrun : run postStep (.init, []) as = some (s, posted)) {c : κ}
    {msg : ParsedStreamMessage (WebhookStreamMsgData ι)}
    {msgs : List (ParsedStreamMessage (WebhookStreamMsgData ι))} {isBacklogMsg : Bool}
    {newMsg : WebhookStreamMsgData ι}
    (hmoves : s.consumers c = ⟨.handler (msg :: msgs) isBacklogMsg, .xAckDel (some newMsg)⟩)
    (hfails : Meets postStep (fun p : PostLog κ ι T β => AllPostsFail msg.id n p.1)
      (.init, []) as) :
    newMsg = ⟨msg.data.webhookID, msg.data.blockHeight + 1, msg.data.isNew⟩ ∧
      ((n ≤ posted.count msg.id ∧ posted.count msg.id ≤ n + 1) ↔ n ≤ 1) := by
  obtain ⟨hnew, hcount⟩ := attempts_eq hrun hmoves hfails
  refine ⟨hnew, ?_⟩
  rw [hcount]
  omega

end Runs

/-- A webhook with this limit gets its first job; the first POST fails, and the message is read
    again from the backlog. -/
def failedOnce (maxRetries : Int) : List (RelayAction Unit Nat Nat) :=
  [.setWebhook 7 (some ⟨1, maxRetries⟩), .activate [7], .flush 5, .consumer () .readBacklog,
    .consumer () .readNew, .consumer () .webhooksFindOne, .consumer () (.readCache (.done [])),
    .consumer () (.readWrapped [⟨0, 4⟩]), .consumer () .callFails, .consumer () .readBacklog,
    .consumer () .webhooksFindOne, .consumer () .getPendingMsg]

theorem retryBudget_failedOnce :
    ∃ s : RelayState Unit Nat TupleText Nat,
      run postStep (.init, []) (failedOnce 1) = some (s, [1]) ∧
        ((1 ≤ [1].count 1 ∧ [1].count 1 ≤ 1 + 1) ↔ 1 ≤ 1) := by
  have hfails : Meets postStep
      (fun p : PostLog Unit Nat TupleText Nat => AllPostsFail 1 1 p.1) (.init, [])
      (failedOnce 1) := by decide
  refine ⟨_, rfl, ?_⟩
  exact (@retryBudget_iff Unit Nat TupleText Nat _ _ _ _ 1 (failedOnce 1) _ [1] rfl ()
    ⟨1, 7, 0, true⟩ [] true ⟨7, 1, true⟩ rfl hfails).2

/-- With a limit of 2 there is one attempt. -/
theorem not_retryBudget :
    ∃ s : RelayState Unit Nat TupleText Nat,
      run postStep (.init, []) (failedOnce 2) = some (s, [1]) ∧
        s.consumers () =
          ⟨.handler [⟨1, 7, 0, true⟩] true, .xAckDel (some ⟨7, 0 + 1, true⟩)⟩ ∧
        Meets postStep (fun p : PostLog Unit Nat TupleText Nat => AllPostsFail 1 2 p.1)
          (.init, []) (failedOnce 2) ∧
        ¬ 2 ≤ [1].count 1 :=
  ⟨_, rfl, rfl, by decide, by decide⟩

end BlockFeed.Spec
