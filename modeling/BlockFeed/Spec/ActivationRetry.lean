import BlockFeed.Native.Activation
import BlockFeed.Spec.JobConservation

/-!
# Activation after failures

A call of the activate handler changes a shard and the rows of its webhooks in two steps, so a
failure can leave webhooks in the webhook set of their shard whose rows are not active. A later
call reads these rows again and runs the script again; the script fails when all of its IDs are
members already, and the rows stay as they are.

`ActivationInv` is what every history of calls keeps, with failures anywhere and the relays at
work: an active webhook is in the webhook set of its shard. One more call in which no service
fails then does what it should exactly if each of its groups has an ID that is not a member yet
(`retryable_iff`).
-/

namespace BlockFeed.Spec

open BlockFeed.Native Redis Transition

section Activation

variable {κ ι T β : Type} [DecidableEq κ] [DecidableEq ι] [LinearOrder T] [JobText ι T]

/-! ## Webhooks with a row stay in the set -/

/-- A consumer that is about to remove a webhook has found no row of it. -/
def FoundNone (webhooks : ι → Option Webhook) (consumer : RelayConsumer ι β) : Prop :=
  ∀ msg msgs isBacklogMsg, consumer.loop = .handler (msg :: msgs) isBacklogMsg →
    consumer.call = .xAckDel none → webhooks msg.data.webhookID = none

omit [DecidableEq ι] in
theorem foundNone_first (webhooks : ι → Option Webhook)
    (loop : Subscriber (WebhookStreamMsgData ι)) :
    FoundNone webhooks (⟨loop, .webhooksFindOne⟩ : RelayConsumer ι β) := by
  intro msg msgs isBacklogMsg _ hcall
  cases hcall

omit [DecidableEq κ] in
/-- `XAckDel` takes at most the webhook of its message from the set. -/
private theorem mem_webhookSet_xAckDel {shard : Shard κ ι T}
    {msg : ParsedStreamMessage (WebhookStreamMsgData ι)}
    {newMsg : Option (WebhookStreamMsgData ι)} {id : ι} (h : id ∈ shard.webhookSet)
    (hid : newMsg = none → id ≠ msg.data.webhookID) :
    id ∈ (shard.xAckDel msg newMsg).webhookSet := by
  cases newMsg with
  | none => exact Finset.mem_erase.2 ⟨hid rfl, h⟩
  | some data =>
    by_cases hb : shard.Behind data.blockHeight
    · rw [Shard.xAckDel_behind hb]
      exact h
    · rw [Shard.xAckDel_parked hb]
      exact h

/-- No action of a consumer takes a webhook with a row from the set. -/
theorem foundNone_consumer {c : κ} {webhooks : ι → Option Webhook}
    {shard shard' : Shard κ ι T} {consumer consumer' : RelayConsumer ι β}
    {action : ConsumerAction β}
    (hstep : ConsumerStep c webhooks shard consumer action shard' consumer')
    (h : FoundNone webhooks consumer) :
    FoundNone webhooks consumer' ∧
      ∀ id, webhooks id ≠ none → id ∈ shard.webhookSet → id ∈ shard'.webhookSet := by
  cases hstep with
  | crash => exact ⟨foundNone_first _ _, fun _ _ hid => hid⟩
  | readBacklog cursorId call loop stream hread => exact ⟨foundNone_first _ _, fun _ _ hid => hid⟩
  | readNew call loop stream hread => exact ⟨foundNone_first _ _, fun _ _ hid => hid⟩
  | call msg msgs isBacklogMsg call call' _ _ hcall =>
    constructor
    · intro msg' msgs' isBacklogMsg' hloop hnone
      cases hloop
      subst hnone
      -- only the missing row leads to this call
      cases hcall with
      | noWebhook hmissing => exact hmissing
    · intro id _ hid
      cases hcall <;> exact hid
  | handled msg msgs isBacklogMsg call _ _ hcall =>
    refine ⟨foundNone_first _ _, fun id hrow hid => ?_⟩
    cases handlerStep_shard hcall with
    | inl hshard => rw [hshard]; exact hid
    | inr hack =>
      obtain ⟨newMsg, rfl, rfl⟩ := hack
      apply mem_webhookSet_xAckDel hid
      rintro rfl heq
      exact hrow (heq ▸ h msg msgs isBacklogMsg rfl rfl)

/-! ## The invariant -/

/-- What holds of the rows, the shards and the promises. -/
structure ActivationInv (s : ActivationState κ ι T β) : Prop where
  conserved : ∀ key, ConservationInv (s.relay key)
  foundNone : ∀ key c, FoundNone s.table.findOne (s.consumers key c)
  member : ∀ row ∈ s.table.rows, row.isActive = true → row.id ∈ (s.shards row.key).webhookSet
  /-- a promise works on webhooks of its shard -/
  grouped : ∀ task ∈ s.running, ∀ id ∈ task.group.webhookIds,
    ∃ row ∈ s.table.rows, row.id = id ∧ row.key = task.group.key
  /-- before the update the script has run -/
  scripted : ∀ task ∈ s.running, task.call = .update →
    ∀ id ∈ task.group.webhookIds, id ∈ (s.shards task.group.key).webhookSet

theorem activationInv_init {table : WebhookTable ι}
    (hnew : ∀ row ∈ table.rows, row.isActive = false) :
    ActivationInv (.init table : ActivationState κ ι T β) where
  conserved := by
    intro key
    have h : ConservationInv (.init : RelayState κ ι T β) := conservationInv_init
    exact ⟨h.conserved, h.handed, h.sameWebhook⟩
  foundNone := fun key c => foundNone_first _ _
  member := by
    intro row hrow hactive
    rw [hnew row hrow] at hactive
    cases hactive
  grouped := by
    intro task htask
    cases htask
  scripted := by
    intro task htask
    cases htask

/-- A change of shards, consumers and promises that keeps the members keeps the invariant. -/
private theorem activationInv_shards {s : ActivationState κ ι T β} (h : ActivationInv s)
    {shards : ShardKey → Shard κ ι T} {consumers : ShardKey → κ → RelayConsumer ι β}
    {running : List (ActivateTask ι)}
    (hconserved : ∀ key, ConservationInv
      (⟨shards key, s.table.findOne, consumers key⟩ : RelayState κ ι T β))
    (hfound : ∀ key c, FoundNone s.table.findOne (consumers key c))
    (hgrow : ∀ key, ∀ row ∈ s.table.rows, row.id ∈ (s.shards key).webhookSet →
      row.id ∈ (shards key).webhookSet)
    (hrunning : ∀ task ∈ running, task ∈ s.running ∨ ∃ old ∈ s.running, task.group = old.group ∧
      ∀ id ∈ task.group.webhookIds, id ∈ (shards task.group.key).webhookSet) :
    ActivationInv ⟨s.table, shards, consumers, running⟩ where
  conserved := hconserved
  foundNone := hfound
  member := fun row hrow hactive => hgrow _ row hrow (h.member row hrow hactive)
  grouped := by
    intro task htask
    cases hrunning task htask with
    | inl hold => exact h.grouped task hold
    | inr hnext =>
      obtain ⟨old, hold, hgroup, -⟩ := hnext
      rw [hgroup]
      exact h.grouped old hold
  scripted := by
    intro task htask hcall id hid
    cases hrunning task htask with
    | inl hold =>
      obtain ⟨row, hrow, rfl, -⟩ := h.grouped task hold id hid
      exact hgrow _ row hrow (h.scripted task hold hcall _ hid)
    | inr hnext =>
      obtain ⟨-, -, -, hset⟩ := hnext
      exact hset id hid

/-- The same for a change of one shard. -/
private theorem activationInv_shard {s : ActivationState κ ι T β} (h : ActivationInv s)
    (key : ShardKey) (relay : RelayState κ ι T β) (running : List (ActivateTask ι))
    (hwebhooks : relay.webhooks = s.table.findOne) (hconserved : ConservationInv relay)
    (hfound : ∀ c, FoundNone s.table.findOne (relay.consumers c))
    (hgrow : ∀ row ∈ s.table.rows, row.id ∈ (s.shards key).webhookSet →
      row.id ∈ relay.shard.webhookSet)
    (hrunning : ∀ task ∈ running, task ∈ s.running ∨ ∃ old ∈ s.running, task.group = old.group ∧
      task.group.key = key ∧ ∀ id ∈ task.group.webhookIds, id ∈ relay.shard.webhookSet) :
    ActivationInv ⟨s.table, Function.update s.shards key relay.shard,
      Function.update s.consumers key relay.consumers, running⟩ := by
  apply activationInv_shards h
  · intro key'
    by_cases hkey : key' = key
    · subst hkey
      rw [Function.update_self, Function.update_self, ← hwebhooks]
      exact hconserved
    · rw [Function.update_of_ne hkey, Function.update_of_ne hkey]
      exact h.conserved key'
  · intro key' c
    by_cases hkey : key' = key
    · subst hkey
      rw [Function.update_self]
      exact hfound c
    · rw [Function.update_of_ne hkey]
      exact h.foundNone key' c
  · intro key' row hrow hmem
    by_cases hkey : key' = key
    · subst hkey
      rw [Function.update_self]
      exact hgrow row hrow hmem
    · rw [Function.update_of_ne hkey]
      exact hmem
  · intro task htask
    cases hrunning task htask with
    | inl hold => exact .inl hold
    | inr hnext =>
      obtain ⟨old, hold, hgroup, hkey, hset⟩ := hnext
      refine .inr ⟨old, hold, hgroup, fun id hid => ?_⟩
      rw [hkey, Function.update_self]
      exact hset id hid

omit [DecidableEq κ] [JobText ι T] in
theorem mem_group_row {s : ActivationState κ ι T β} {customerId : String} {ids : List ι}
    {group : ShardGroup ι} (hgroup : group ∈ s.groups customerId ids) {id : ι}
    (hid : id ∈ group.webhookIds) :
    ∃ row ∈ s.table.findMany customerId ids, row.id = id ∧ row.key = group.key := by
  rw [(ActivationState.mem_groups.1 hgroup).2] at hid
  obtain ⟨row, hrow, rfl⟩ := List.mem_map.1 hid
  obtain ⟨hrow, hkey⟩ := List.mem_filter.1 hrow
  exact ⟨row, hrow, rfl, of_decide_eq_true hkey⟩

omit [DecidableEq κ] [JobText ι T] in
private theorem exists_group {s : ActivationState κ ι T β} {customerId : String} {ids : List ι}
    {row : WebhookRow ι} (hrow : row ∈ s.table.findMany customerId ids) :
    ∃ group ∈ s.groups customerId ids, group.key = row.key ∧ row.id ∈ group.webhookIds := by
  have hgroup : (⟨row.key, ((s.table.findMany customerId ids).filter
      fun r => r.key = row.key).map WebhookRow.id⟩ : ShardGroup ι) ∈ s.groups customerId ids :=
    ActivationState.mem_groups.2 ⟨⟨row, hrow, rfl⟩, rfl⟩
  refine ⟨_, hgroup, rfl, ?_⟩
  exact List.mem_map_of_mem (List.mem_filter.2 ⟨hrow, decide_eq_true rfl⟩)

/-- The script of a promise, executed or not, and the promise after it. -/
private theorem activationInv_activate {s : ActivationState κ ι T β} (h : ActivationInv s)
    {task : ActivateTask ι} (htask : task ∈ s.running) (outcome : CallOutcome) :
    ActivationInv { (s.activate task.group outcome).1 with
      running := if (s.activate task.group outcome).2 then
        { task with call := .update } :: s.running.erase task else s.running.erase task } := by
  cases hexec : outcome.executes with
  | false =>
    -- the call has failed, so the promise is rejected
    have hreject : (s.activate task.group outcome).2 = false := by
      cases outcome with
      | ok => cases hexec
      | failed => rfl
      | executedThenFailed => cases hexec
    simp only [hreject, Bool.false_eq_true, if_false]
    simp only [ActivationState.activate, hexec, Bool.false_eq_true, if_false]
    exact activationInv_shards h h.conserved h.foundNone (fun _ _ _ hmem => hmem)
      fun t ht => .inl (List.mem_of_mem_erase ht)
  | true =>
    have hstep : (s.relay task.group.key).step (.activate task.group.webhookIds) =
        some { s.relay task.group.key with
          shard := (s.shards task.group.key).activate task.group.webhookIds } := rfl
    have hshard := activationInv_shard h task.group.key
      { s.relay task.group.key with
        shard := (s.shards task.group.key).activate task.group.webhookIds }
      (if (s.activate task.group outcome).2 then
        { task with call := .update } :: s.running.erase task else s.running.erase task)
      rfl (conservationInv_step hstep (h.conserved _)) (h.foundNone _) ?_ ?_
    · simp only [ActivationState.relay, Function.update_eq_self] at hshard
      simp only [ActivationState.activate, hexec, if_true]
      exact hshard
    · intro row _ hmem
      simp only [Shard.webhookSet_activate, Finset.mem_union]
      exact .inl hmem
    · intro t ht
      split at ht
      · cases List.mem_cons.1 ht with
        | inl ht =>
          subst ht
          refine .inr ⟨task, htask, rfl, rfl, fun id hid => ?_⟩
          simp only [Shard.webhookSet_activate, Finset.mem_union, List.mem_toFinset]
          exact .inr hid
        | inr ht => exact .inl (List.mem_of_mem_erase ht)
      · exact .inl (List.mem_of_mem_erase ht)

/-- An update of rows whose webhooks are in the set. -/
private theorem activationInv_update {s : ActivationState κ ι T β} (h : ActivationInv s)
    {task : ActivateTask ι} (htask : task ∈ s.running) (hcall : task.call = .update)
    (outcome : CallOutcome) :
    ActivationInv { (s.update task.customerId task.group outcome).1 with
      running := s.running.erase task } := by
  cases hexec : outcome.executes with
  | false =>
    simp only [ActivationState.update, hexec, Bool.false_eq_true, if_false]
    exact activationInv_shards h h.conserved h.foundNone (fun _ _ _ hmem => hmem)
      fun t ht => .inl (List.mem_of_mem_erase ht)
  | true =>
    simp only [ActivationState.update, hexec, if_true]
    refine ⟨?_, ?_, ?_, ?_, ?_⟩
    · intro key
      simp only [ActivationState.relay, WebhookTable.findOne_activate]
      exact h.conserved key
    · intro key c
      rw [WebhookTable.findOne_activate]
      exact h.foundNone key c
    · intro row' hrow' hactive
      obtain ⟨row, hrow, rfl⟩ := List.mem_map.1 hrow'
      rw [WebhookTable.activateRow_id, WebhookTable.activateRow_key]
      cases WebhookTable.activateRow_isActive.1 hactive with
      | inl hold => exact h.member row hrow hold
      | inr hnew =>
        -- the row of the ID is a row of the shard of the promise
        obtain ⟨row₀, hrow₀, hid, hkey⟩ := h.grouped task htask row.id hnew.2
        rw [← s.table.row_unique hrow₀ hrow hid, hkey, hid]
        exact h.scripted task htask hcall row.id hnew.2
    · intro t ht id hid
      obtain ⟨row, hrow, hrowid, hkey⟩ := h.grouped t (List.mem_of_mem_erase ht) id hid
      refine ⟨_, List.mem_map_of_mem hrow, ?_, ?_⟩
      · rw [WebhookTable.activateRow_id, hrowid]
      · rw [WebhookTable.activateRow_key, hkey]
    · intro t ht
      exact h.scripted t (List.mem_of_mem_erase ht)

/-- Every action keeps the invariant. -/
theorem activationInv_step {s s' : ActivationState κ ι T β} {a : ActivationAction κ ι β}
    (hstep : s.step a = some s') (h : ActivationInv s) : ActivationInv s' := by
  cases a with
  | start customerId ids =>
    cases hstep
    have hnew : ∀ task, task ∈ (s.groups customerId ids).map
        (fun group => (⟨customerId, group, .activate⟩ : ActivateTask ι)) →
        task.group ∈ s.groups customerId ids ∧ task.call = .activate := by
      intro task htask
      obtain ⟨group, hgroup, rfl⟩ := List.mem_map.1 htask
      exact ⟨hgroup, rfl⟩
    refine ⟨h.conserved, h.foundNone, h.member, ?_, ?_⟩
    · intro task htask id hid
      cases List.mem_append.1 htask with
      | inl hold => exact h.grouped task hold id hid
      | inr htask =>
        obtain ⟨row, hrow, hrowid, hkey⟩ := mem_group_row (hnew task htask).1 hid
        exact ⟨row, (WebhookTable.mem_findMany.1 hrow).1, hrowid, hkey⟩
    · intro task htask hcall
      cases List.mem_append.1 htask with
      | inl hold => exact h.scripted task hold hcall
      | inr htask =>
        rw [(hnew task htask).2] at hcall
        cases hcall
  | activate task outcome =>
    simp only [ActivationState.step] at hstep
    split at hstep
    · next henabled =>
      cases hstep
      exact activationInv_activate h henabled.1 outcome
    · cases hstep
  | update task outcome =>
    simp only [ActivationState.step] at hstep
    split at hstep
    · next henabled =>
      cases hstep
      exact activationInv_update h henabled.1 henabled.2 outcome
    · cases hstep
  | flush key height =>
    cases hstep
    have hstep : (s.relay key).step (.flush height) =
        some { s.relay key with shard := (s.shards key).flush height } := rfl
    have hshard := activationInv_shard h key
      { s.relay key with shard := (s.shards key).flush height } s.running
      rfl (conservationInv_step hstep (h.conserved _)) (h.foundNone _) ?_ fun _ ht => .inl ht
    · simp only [ActivationState.relay, Function.update_eq_self] at hshard
      exact hshard
    · intro row _ hmem
      rw [Shard.flush_eq]
      exact hmem
  | consumer key c action =>
    simp only [ActivationState.step] at hstep
    split at hstep
    · cases hstep
    · next relay hrelay =>
      cases hstep
      have hinv := conservationInv_step hrelay (h.conserved key)
      obtain ⟨shard, consumer, hmove, rfl⟩ := consumerStep_of_relayStep hrelay
      obtain ⟨hfound, hgrow⟩ := foundNone_consumer hmove (h.foundNone key c)
      refine activationInv_shard h key _ _ rfl hinv ?_ ?_ fun _ ht => .inl ht
      · intro d
        by_cases hd : d = c
        · subst hd
          simp only [Function.update_self]
          exact hfound
        · simp only [Function.update_of_ne hd]
          exact h.foundNone key d
      · exact fun row hrow hmem => hgrow _ (WebhookTable.findOne_ne_none hrow) hmem

theorem activationInv_run {table : WebhookTable ι} (hnew : ∀ row ∈ table.rows, row.isActive = false)
    {as : List (ActivationAction κ ι β)} {s : ActivationState κ ι T β}
    (h : run ActivationState.step (.init table) as = some s) : ActivationInv s :=
  run_invariant (fun _ _ _ => activationInv_step) h (activationInv_init hnew)

/-! ## One more call -/

omit [DecidableEq κ] in
/-- Two updates of the same customer are one. -/
private theorem activateRow_activateRow (customerId : String) (ids ids' : List ι) :
    WebhookTable.activateRow customerId ids' ∘ WebhookTable.activateRow customerId ids =
      WebhookTable.activateRow customerId (ids ++ ids') := by
  funext row
  simp only [Function.comp_apply, WebhookTable.activateRow]
  by_cases hc : row.customerId = customerId
  · by_cases hid : row.id ∈ ids
    · by_cases hid' : row.id ∈ ids' <;> simp [hc, hid, hid']
    · simp [hc, hid]
  · simp [hc]

omit [DecidableEq κ] in
private theorem settle_eq (customerId : String) (s : ActivationState κ ι T β)
    (group : ShardGroup ι) :
    ActivationState.settle customerId s group =
      if (s.shards group.key).activateSucceeds group.webhookIds then
        ({ s with
          shards := Function.update s.shards group.key
            ((s.shards group.key).activate group.webhookIds)
          table := s.table.activate customerId group.webhookIds }, true)
      else
        ({ s with
          shards := Function.update s.shards group.key
            ((s.shards group.key).activate group.webhookIds) }, false) := by
  simp only [ActivationState.settle, ActivationState.activate, CallOutcome.executes,
    CallOutcome.succeeds, if_true, Bool.true_and]
  cases (s.shards group.key).activateSucceeds group.webhookIds <;> rfl

omit [DecidableEq κ] in
/-- What the promises do together. Each works on a shard of its own. -/
private theorem allSettled_spec (customerId : String) (groups : List (ShardGroup ι)) :
    ∀ s : ActivationState κ ι T β, (groups.map ShardGroup.key).Nodup →
      (ActivationState.allSettled customerId s groups).2 =
        groups.all (fun group => (s.shards group.key).activateSucceeds group.webhookIds) ∧
      (∀ group ∈ groups, (ActivationState.allSettled customerId s groups).1.shards group.key =
        (s.shards group.key).activate group.webhookIds) ∧
      (∀ key, key ∉ groups.map ShardGroup.key →
        (ActivationState.allSettled customerId s groups).1.shards key = s.shards key) ∧
      ((ActivationState.allSettled customerId s groups).2 = true →
        (ActivationState.allSettled customerId s groups).1.table.rows =
          s.table.rows.map (WebhookTable.activateRow customerId
            (groups.flatMap ShardGroup.webhookIds))) := by
  induction groups with
  | nil =>
    intro s _
    refine ⟨rfl, fun _ h => absurd h List.not_mem_nil, fun _ _ => rfl, fun _ => ?_⟩
    have hid : WebhookTable.activateRow customerId ([] : List ι) = id := by
      funext row
      simp [WebhookTable.activateRow]
    show s.table.rows = s.table.rows.map (WebhookTable.activateRow customerId [])
    rw [hid, List.map_id]
  | cons group groups ih =>
    intro s hnodup
    rw [List.map_cons, List.nodup_cons] at hnodup
    have hne : ∀ g ∈ groups, g.key ≠ group.key :=
      fun g hg heq => hnodup.1 (heq ▸ List.mem_map_of_mem hg)
    -- the first promise leaves the other shards alone
    obtain ⟨s₁, fulfilled, hsettle, hfulfilled, hshards, hrows⟩ :
        ∃ s₁ fulfilled, ActivationState.settle customerId s group = (s₁, fulfilled) ∧
          fulfilled = (s.shards group.key).activateSucceeds group.webhookIds ∧
          s₁.shards = Function.update s.shards group.key
            ((s.shards group.key).activate group.webhookIds) ∧
          (fulfilled = true → s₁.table = s.table.activate customerId group.webhookIds) := by
      rw [settle_eq]
      split
      · next hok => exact ⟨_, _, rfl, hok.symm, rfl, fun _ => rfl⟩
      · next hno =>
        exact ⟨_, _, rfl, (eq_false_of_ne_true hno).symm, rfl, fun h => by cases h⟩
    have hother : ∀ g ∈ groups, s₁.shards g.key = s.shards g.key := by
      intro g hg
      rw [hshards, Function.update_of_ne (hne g hg)]
    obtain ⟨hall, hin, hout, htable⟩ := ih s₁ hnodup.2
    have hcons : ActivationState.allSettled customerId s (group :: groups) =
        ((ActivationState.allSettled customerId s₁ groups).1,
          fulfilled && (ActivationState.allSettled customerId s₁ groups).2) := by
      rw [ActivationState.allSettled, hsettle]
    rw [hcons]
    refine ⟨?_, ?_, ?_, ?_⟩
    · have hsame : (groups.all fun g => (s₁.shards g.key).activateSucceeds g.webhookIds) =
          groups.all fun g => (s.shards g.key).activateSucceeds g.webhookIds := by
        rw [Bool.eq_iff_iff, List.all_eq_true, List.all_eq_true]
        exact forall₂_congr fun g hg => by rw [hother g hg]
      show (fulfilled && (ActivationState.allSettled customerId s₁ groups).2) = _
      rw [List.all_cons, hall, hfulfilled, hsame]
    · intro g hg
      cases List.mem_cons.1 hg with
      | inl hg =>
        subst hg
        rw [hout _ hnodup.1, hshards, Function.update_self]
      | inr hg => rw [hin g hg, hother g hg]
    · intro key hkey
      rw [List.map_cons, List.mem_cons, not_or] at hkey
      rw [hout key hkey.2, hshards, Function.update_of_ne hkey.1]
    · intro hok
      rw [Bool.and_eq_true] at hok
      rw [htable hok.2, hrows hok.1, List.flatMap_cons, ← activateRow_activateRow]
      show (s.table.rows.map _).map _ = _
      rw [List.map_map]

omit [DecidableEq κ] in
/-- The handler returns what its promises lead to. -/
private theorem handler_eq (s : ActivationState κ ι T β) (customerId : String) (ids : List ι) :
    ∃ count, s.handler customerId ids =
      ((ActivationState.allSettled customerId s (s.groups customerId ids)).1,
        if (ActivationState.allSettled customerId s (s.groups customerId ids)).2 then some count
        else none) := by
  by_cases hnone : s.table.findMany customerId ids = []
  · -- there is nothing to do
    have hgroups : s.groups customerId ids = [] := by
      rw [ActivationState.groups, hnone]
      rfl
    have hhandler : s.handler customerId ids = (s, some 0) := by
      rw [ActivationState.handler, hnone]
      split <;> rfl
    rw [hgroups, hhandler]
    exact ⟨0, rfl⟩
  · have hids : ids.isEmpty = false := by
      cases ids with
      | nil => simp [WebhookTable.findMany] at hnone
      | cons id ids => rfl
    have hrows : (s.table.findMany customerId ids).isEmpty = false := by
      rwa [List.isEmpty_eq_false_iff]
    refine ⟨1, ?_⟩
    simp only [ActivationState.handler, hids, hrows, Bool.false_eq_true, if_false]
    cases hsettled : ActivationState.allSettled customerId s (s.groups customerId ids) with
    | mk s' ok => cases ok <;> rfl

/-- A call that should be enough: it returns, the webhooks are active and in the set of their
    shard with one job, and the same call does nothing afterwards. -/
def Retryable (s : ActivationState κ ι T β) (customerId : String) (ids : List ι) : Prop :=
  ∃ s' count, s.handler customerId ids = (s', some count) ∧
    (∀ row ∈ s.table.rows, row.customerId = customerId → row.id ∈ ids →
      { row with isActive := true } ∈ s'.table.rows ∧
        row.id ∈ (s'.shards row.key).webhookSet ∧
        outstanding (s'.shards row.key) row.id = 1) ∧
    s'.handler customerId ids = (s', some 0)

/-- Where a webhook of the call is not active yet, one of its shard is not a member yet. -/
def NewMember (s : ActivationState κ ι T β) (customerId : String) (ids : List ι) : Prop :=
  ∀ row ∈ s.table.findMany customerId ids, ∃ row' ∈ s.table.findMany customerId ids,
    row'.key = row.key ∧ row'.id ∉ (s.shards row.key).webhookSet

omit [DecidableEq κ] [JobText ι T] in
/-- This is the condition for all scripts to succeed. -/
private theorem newMember_iff (s : ActivationState κ ι T β) (customerId : String) (ids : List ι) :
    NewMember s customerId ids ↔ (s.groups customerId ids).all
      (fun group => (s.shards group.key).activateSucceeds group.webhookIds) = true := by
  simp only [List.all_eq_true, Shard.activateSucceeds, List.any_eq_true, decide_eq_true_eq]
  constructor
  · intro hnew group hgroup
    obtain ⟨⟨row, hrow, hkey⟩, hids⟩ := ActivationState.mem_groups.1 hgroup
    obtain ⟨row', hrow', hkey', hmem⟩ := hnew row hrow
    refine ⟨row'.id, ?_, hkey ▸ hmem⟩
    rw [hids]
    exact List.mem_map_of_mem (List.mem_filter.2 ⟨hrow', decide_eq_true (hkey'.trans hkey)⟩)
  · intro hall row hrow
    obtain ⟨group, hgroup, hkey, -⟩ := exists_group hrow
    obtain ⟨id, hid, hmem⟩ := hall group hgroup
    obtain ⟨row', hrow', rfl, hkey'⟩ := mem_group_row hgroup hid
    exact ⟨row', hrow', hkey'.trans hkey, hkey ▸ hmem⟩

/-- After any history of calls, one more call without failures does what it should exactly if the
    script has a member to add in each group. -/
theorem retryable_iff {table : WebhookTable ι} (hnew : ∀ row ∈ table.rows, row.isActive = false)
    {as : List (ActivationAction κ ι β)} {s : ActivationState κ ι T β}
    (h : run ActivationState.step (.init table) as = some s) (customerId : String)
    (ids : List ι) : Retryable s customerId ids ↔ NewMember s customerId ids := by
  have hinv := activationInv_run hnew h
  obtain ⟨count, hhandler⟩ := handler_eq s customerId ids
  obtain ⟨hall, hin, hout, htable⟩ :=
    allSettled_spec customerId (s.groups customerId ids) s (ClusterMap.groups_nodup _)
  rw [newMember_iff, ← hall]
  generalize ActivationState.allSettled customerId s (s.groups customerId ids) = settled
    at hhandler hin hout htable
  obtain ⟨s', ok⟩ := settled
  simp only at hhandler hin hout htable ⊢
  constructor
  · rintro ⟨_, _, hreturns, -⟩
    rw [hhandler, Prod.mk.injEq] at hreturns
    by_contra hno
    rw [if_neg hno] at hreturns
    cases hreturns.2
  · intro hok
    rw [if_pos hok] at hhandler
    -- a shard has the script run on it or is left alone
    have hshard : ∀ key, Conserved (s'.shards key) ∧
        (s.shards key).webhookSet ⊆ (s'.shards key).webhookSet := by
      intro key
      by_cases hkey : key ∈ (s.groups customerId ids).map ShardGroup.key
      · obtain ⟨group, hgroup, rfl⟩ := List.mem_map.1 hkey
        rw [hin group hgroup]
        refine ⟨conserved_activate (hinv.conserved group.key).conserved _, ?_⟩
        rw [Shard.webhookSet_activate]
        exact Finset.subset_union_left
      · rw [hout key hkey]
        exact ⟨(hinv.conserved key).conserved, Finset.Subset.refl _⟩
    have hrow : ∀ row ∈ s.table.rows, row.customerId = customerId → row.id ∈ ids →
        WebhookTable.activateRow customerId
            ((s.groups customerId ids).flatMap ShardGroup.webhookIds) row =
          { row with isActive := true } ∧ row.id ∈ (s'.shards row.key).webhookSet := by
      intro row hrow hcustomer hid
      cases hactive : row.isActive with
      | true =>
        refine ⟨?_, (hshard row.key).2 (hinv.member row hrow hactive)⟩
        unfold WebhookTable.activateRow
        split
        · rfl
        · rw [← hactive]
      | false =>
        obtain ⟨group, hgroup, hkey, hmem⟩ :=
          exists_group (WebhookTable.mem_findMany.2 ⟨hrow, hcustomer, hactive, hid⟩)
        constructor
        · exact if_pos ⟨hcustomer, List.mem_flatMap.2 ⟨group, hgroup, hmem⟩⟩
        · rw [← hkey, hin group hgroup, Shard.webhookSet_activate, Finset.mem_union,
            List.mem_toFinset]
          exact .inr hmem
    refine ⟨s', count, hhandler, ?_, ?_⟩
    · intro row hmem hcustomer hid
      obtain ⟨hactive, hset⟩ := hrow row hmem hcustomer hid
      refine ⟨?_, hset, ?_⟩
      · rw [htable hok, ← hactive]
        exact List.mem_map_of_mem hmem
      · rw [(hshard row.key).1 row.id, if_pos hset]
    · -- no inactive row is left
      have hnone : s'.table.findMany customerId ids = [] := by
        rw [List.eq_nil_iff_forall_not_mem]
        intro row' hrow'
        obtain ⟨hmem', hcustomer, hinactive, hid⟩ := WebhookTable.mem_findMany.1 hrow'
        rw [htable hok] at hmem'
        obtain ⟨row, hmem, rfl⟩ := List.mem_map.1 hmem'
        rw [WebhookTable.activateRow_customerId] at hcustomer
        rw [WebhookTable.activateRow_id] at hid
        rw [(hrow row hmem hcustomer hid).1] at hinactive
        cases hinactive
      rw [ActivationState.handler, hnone]
      split <;> rfl

end Activation

/-- Webhooks 1 and 2 on one shard, webhook 3 on a shard of another cluster. -/
def threeWebhooks : WebhookTable Nat where
  rows := [⟨1, "user", false, 0, "redis://a", ⟨2, 3⟩⟩, ⟨2, "user", false, 0, "redis://a", ⟨2, 3⟩⟩,
    ⟨3, "user", false, 5, "redis://b", ⟨2, 3⟩⟩]
  nodup := by decide

/-- The promise of a call for webhook 1. -/
def firstTask (call : ActivateCall) : ActivateTask Nat := ⟨"user", ⟨⟨"redis://a", 0⟩, [1]⟩, call⟩

/-- The script runs for webhook 1 but its reply is lost. -/
def replyLost : List (ActivationAction Bool Nat Nat) :=
  [.start "user" [1], .activate (firstTask .activate) .executedThenFailed]

/-- A call for all three then activates them, since webhook 2 is new to the shard of webhook 1. -/
theorem retryable_replyLost :
    ∃ s : ActivationState Bool Nat TupleText Nat,
      run ActivationState.step (.init threeWebhooks) replyLost = some s ∧
        1 ∈ (s.shards ⟨"redis://a", 0⟩).webhookSet ∧ Retryable s "user" [1, 2, 3] :=
  ⟨_, rfl, by decide,
    (retryable_iff (show ∀ row ∈ threeWebhooks.rows, row.isActive = false by decide)
      (show run ActivationState.step (.init threeWebhooks) replyLost = some _ from rfl)
      "user" [1, 2, 3]).2 (by unfold NewMember; decide)⟩

/-- The script runs for webhook 1 and the update of its row fails. -/
def updateFails : List (ActivationAction Bool Nat Nat) :=
  [.start "user" [1], .activate (firstTask .activate) .ok, .update (firstTask .update) .failed]

/-- Every later call for it throws and leaves the row as it is. -/
theorem not_retryable :
    ∃ s : ActivationState Bool Nat TupleText Nat,
      run ActivationState.step (.init threeWebhooks) updateFails = some s ∧
        (s.handler "user" [1]).2 = none ∧
        (s.handler "user" [1]).1.table.rows = threeWebhooks.rows ∧
        ¬ Retryable s "user" [1] := by
  refine ⟨_, rfl, by decide, by decide, ?_⟩
  rintro ⟨s', count, hreturns, -⟩
  have hthrows : none = some count := congrArg Prod.snd hreturns
  cases hthrows

end BlockFeed.Spec
