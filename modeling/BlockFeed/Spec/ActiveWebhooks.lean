import BlockFeed.Native.Platform
import BlockFeed.Spec.ActivationRetry

/-!
# An active webhook has one job

Webhooks are created, updated, activated and removed by all users at the same time while the
routers flush and the relays work, crash and retire the jobs of webhooks without a row. Whenever the
dashboard shows a webhook as active, exactly one job of it is outstanding, in the shard that it was
drawn for, and no webhook ever has a job in another shard (`active_one_job`).

The script of an activation runs before the update of the rows, and a relay retires a webhook only
after it has found no row. That no row comes back, because IDs are drawn once, is what keeps both
right when other calls come in between.
-/

namespace BlockFeed.Spec

open BlockFeed.Native Redis Transition

section Platform

variable {κ ι T β : Type} [DecidableEq κ] [DecidableEq ι] [LinearOrder T] [JobText ι T]

/-! ### The webhook set of one shard -/

omit [DecidableEq κ] in
/-- `XAckDel` adds no webhook to the set. -/
theorem webhookSet_xAckDel_subset (shard : Shard κ ι T)
    (msg : ParsedStreamMessage (WebhookStreamMsgData ι))
    (newMsg : Option (WebhookStreamMsgData ι)) :
    (shard.xAckDel msg newMsg).webhookSet ⊆ shard.webhookSet := by
  cases newMsg with
  | none => exact Finset.erase_subset _ _
  | some data =>
    by_cases hb : shard.Behind data.blockHeight
    · rw [Shard.xAckDel_behind hb]
    · rw [Shard.xAckDel_parked hb]

theorem webhookSet_consumer_subset {c : κ} {webhooks : ι → Option Webhook}
    {shard shard' : Shard κ ι T} {consumer consumer' : RelayConsumer ι β}
    {action : ConsumerAction β}
    (hstep : ConsumerStep c webhooks shard consumer action shard' consumer') :
    shard'.webhookSet ⊆ shard.webhookSet := by
  cases hstep with
  | crash => exact Finset.Subset.refl _
  | readBacklog cursorId call loop stream hread => exact Finset.Subset.refl _
  | readNew call loop stream hread => exact Finset.Subset.refl _
  | call msg msgs isBacklogMsg call call' _ _ hcall =>
    cases hcall <;> exact Finset.Subset.refl _
  | handled msg msgs isBacklogMsg call _ _ hcall =>
    cases handlerStep_shard hcall with
    | inl hshard => rw [hshard]
    | inr hack =>
      obtain ⟨newMsg, -, rfl⟩ := hack
      exact webhookSet_xAckDel_subset _ _ _

/-- What an action of a shard does to its webhook set, where relays see the rows `webhooks`. -/
theorem webhookSet_relayStep {s s' : RelayState κ ι T β} {a : RelayAction κ ι β}
    (hstep : s.step a = some s') (hrows : ∀ id webhook, a ≠ .setWebhook id webhook)
    (hfound : ∀ c, FoundNone s.webhooks (s.consumers c)) :
    (∀ c, FoundNone s.webhooks (s'.consumers c)) ∧
      (∀ id, s.webhooks id ≠ none → id ∈ s.shard.webhookSet → id ∈ s'.shard.webhookSet) ∧
      (∀ ids, a = .activate ids → ∀ id ∈ ids, id ∈ s'.shard.webhookSet) ∧
      ∀ id ∈ s'.shard.webhookSet,
        id ∈ s.shard.webhookSet ∨ ∃ ids, a = .activate ids ∧ id ∈ ids := by
  cases a with
  | activate ids =>
    cases hstep
    have hset : ∀ id, id ∈ (s.shard.activate ids).webhookSet ↔
        id ∈ s.shard.webhookSet ∨ id ∈ ids := by
      intro id
      simp
    refine ⟨hfound, fun id _ hid => (hset id).2 (.inl hid), ?_, fun id hid => ?_⟩
    · rintro _ ⟨⟩ id hid
      exact (hset id).2 (.inr hid)
    · exact ((hset id).1 hid).imp_right fun hids => ⟨ids, rfl, hids⟩
  | flush height =>
    cases hstep
    rw [Shard.flush_eq]
    exact ⟨hfound, fun _ _ hid => hid, nofun, fun _ hid => .inl hid⟩
  | setWebhook id webhook => exact absurd rfl (hrows id webhook)
  | consumer c action =>
    obtain ⟨shard, consumer, hmove, rfl⟩ := consumerStep_of_relayStep hstep
    obtain ⟨hconsumer, hgrow⟩ := foundNone_consumer hmove (hfound c)
    refine ⟨fun d => ?_, hgrow, nofun, fun id hid => .inl (webhookSet_consumer_subset hmove hid)⟩
    by_cases hd : d = c
    · subst hd
      simp only [Function.update_self]
      exact hconsumer
    · simp only [Function.update_of_ne hd]
      exact hfound d

/-! ### The invariant -/

/-- What holds of the rows, the shards, the promises and the history. -/
structure PlatformInv (p : Platform κ ι T β) : Prop where
  conserved : ∀ key, ConservationInv (p.state.relay key)
  foundNone : ∀ key c, FoundNone p.state.table.findOne (p.state.consumers key c)
  member : ∀ row ∈ p.state.table.rows, row.isActive = true →
    row.id ∈ (p.state.shards row.key).webhookSet
  /-- a promise works on webhooks of its shard -/
  grouped : ∀ task ∈ p.state.running, ∀ id ∈ task.group.webhookIds,
    (id, task.group.key) ∈ p.created
  /-- before the update the script has run; since then only rows can have gone -/
  scripted : ∀ task ∈ p.state.running, task.call = .update →
    ∀ row ∈ p.state.table.rows, row.id ∈ task.group.webhookIds →
      row.id ∈ (p.state.shards task.group.key).webhookSet
  home : ∀ key, ∀ id ∈ (p.state.shards key).webhookSet, (id, key) ∈ p.created
  recorded : ∀ row ∈ p.state.table.rows, (row.id, row.key) ∈ p.created
  unique : (p.created.map Prod.fst).Nodup

theorem platformInv_init : PlatformInv (.init : Platform κ ι T β) where
  conserved := by
    intro key
    have h : ConservationInv (.init : RelayState κ ι T β) := conservationInv_init
    exact ⟨h.conserved, h.handed, h.sameWebhook⟩
  foundNone := fun key c => foundNone_first _ _
  member := nofun
  grouped := nofun
  scripted := nofun
  home := nofun
  recorded := nofun
  unique := .nil

/-- A webhook has one shard. -/
theorem PlatformInv.key_eq {p : Platform κ ι T β} (h : PlatformInv p) {id : ι} {key key' : ShardKey}
    (hkey : (id, key) ∈ p.created) (hkey' : (id, key') ∈ p.created) : key = key' :=
  congrArg Prod.snd (List.inj_on_of_nodup_map h.unique hkey hkey' rfl)

/-- The webhook of a message in hand is on record. -/
theorem PlatformInv.created_of_handed {p : Platform κ ι T β} (h : PlatformInv p) {key : ShardKey}
    {c : κ} {msg : ParsedStreamMessage (WebhookStreamMsgData ι)}
    (hmsg : msg ∈ handed (p.state.consumers key c).loop) :
    (msg.data.webhookID, key) ∈ p.created :=
  h.home key _ (only_job_of_handed (h.conserved key) hmsg).1

/-- An action of one shard, with the promises that are left. -/
theorem PlatformInv.shard {p : Platform κ ι T β} (h : PlatformInv p) {key : ShardKey}
    {a : RelayAction κ ι β} {relay : RelayState κ ι T β}
    (hstep : (p.state.relay key).step a = some relay)
    (hrows : ∀ id webhook, a ≠ .setWebhook id webhook)
    (hids : ∀ ids, a = .activate ids → ∀ id ∈ ids, (id, key) ∈ p.created)
    (running : List (ActivateTask ι))
    (hrunning : ∀ task ∈ running, task ∈ p.state.running ∨
      ∃ old ∈ p.state.running, task.group = old.group ∧ task.group.key = key ∧
        a = .activate task.group.webhookIds) :
    PlatformInv (⟨⟨p.state.table, Function.update p.state.shards key relay.shard,
      Function.update p.state.consumers key relay.consumers, running⟩, p.created⟩ :
        Platform κ ι T β) := by
  obtain ⟨hfound, hgrow, hadded, hset⟩ := webhookSet_relayStep hstep hrows (h.foundNone key)
  -- webhooks with a row stay in the sets of all shards
  have hkeep : ∀ key', ∀ row ∈ p.state.table.rows, row.id ∈ (p.state.shards key').webhookSet →
      row.id ∈ (Function.update p.state.shards key relay.shard key').webhookSet := by
    intro key' row hrow hmem
    by_cases hkey : key' = key
    · subst hkey
      rw [Function.update_self]
      exact hgrow _ (WebhookTable.findOne_ne_none hrow) hmem
    · rw [Function.update_of_ne hkey]
      exact hmem
  refine ⟨fun key' => ?_, fun key' c => ?_, fun row hrow hactive => ?_, fun task htask => ?_,
    fun task htask hcall row hrow hid => ?_, fun key' id hid => ?_, h.recorded, h.unique⟩
  · by_cases hkey : key' = key
    · subst hkey
      have hinv := conservationInv_step hstep (h.conserved key')
      simp only [ActivationState.relay, Function.update_self]
      exact ⟨hinv.conserved, hinv.handed, hinv.sameWebhook⟩
    · simp only [ActivationState.relay, Function.update_of_ne hkey]
      exact h.conserved key'
  · by_cases hkey : key' = key
    · subst hkey
      simp only [Function.update_self]
      exact hfound c
    · simp only [Function.update_of_ne hkey]
      exact h.foundNone key' c
  · exact hkeep _ row hrow (h.member row hrow hactive)
  · cases hrunning task htask with
    | inl hold => exact h.grouped task hold
    | inr hnext =>
      obtain ⟨old, hold, hgroup, -⟩ := hnext
      rw [hgroup]
      exact h.grouped old hold
  · cases hrunning task htask with
    | inl hold => exact hkeep _ row hrow (h.scripted task hold hcall row hrow hid)
    | inr hnext =>
      obtain ⟨-, -, -, hkey, ha⟩ := hnext
      rw [hkey]
      simp only [Function.update_self]
      exact hadded _ ha _ hid
  · by_cases hkey : key' = key
    · subst hkey
      simp only [Function.update_self] at hid
      rcases hset id hid with hold | ⟨ids, ha, hmem⟩
      · exact h.home key' id hold
      · exact hids ids ha id hmem
    · simp only [Function.update_of_ne hkey] at hid
      exact h.home key' id hid

/-! ### Changes of the rows -/

/-- A change of rows that keeps IDs and shards, and activates only what is in its set. -/
theorem PlatformInv.rows {p : Platform κ ι T β} (h : PlatformInv p) {table : WebhookTable ι}
    {running : List (ActivateTask ι)} (hrunning : ∀ task ∈ running, task ∈ p.state.running)
    (hold : ∀ row ∈ table.rows, ∃ old ∈ p.state.table.rows, row.id = old.id ∧ row.key = old.key ∧
      (row.isActive = true →
        old.isActive = true ∨ old.id ∈ (p.state.shards old.key).webhookSet)) :
    PlatformInv (⟨{ p.state with table := table, running := running }, p.created⟩ :
      Platform κ ι T β) := by
  refine ⟨fun key => ?_, fun key c => ?_, fun row hrow hactive => ?_, fun task htask => ?_,
    fun task htask hcall row hrow hid => ?_, h.home, fun row hrow => ?_, h.unique⟩
  · have hinv := h.conserved key
    exact ⟨hinv.conserved, hinv.handed, hinv.sameWebhook⟩
  · intro msg msgs isBacklogMsg hloop hcall
    have hnone := h.foundNone key c msg msgs isBacklogMsg hloop hcall
    rw [WebhookTable.findOne_eq_none] at hnone ⊢
    intro row hrow heq
    obtain ⟨old, hmem, hid, -, -⟩ := hold row hrow
    exact hnone old hmem (hid.symm.trans heq)
  · obtain ⟨old, hmem, hid, hkey, hor⟩ := hold row hrow
    show row.id ∈ (p.state.shards row.key).webhookSet
    rw [hid, hkey]
    rcases hor hactive with hwas | hin
    · exact h.member old hmem hwas
    · exact hin
  · exact h.grouped task (hrunning task htask)
  · obtain ⟨old, hmem, hold, -, -⟩ := hold row hrow
    rw [hold] at hid ⊢
    exact h.scripted task (hrunning task htask) hcall old hmem hid
  · obtain ⟨old, hmem, hid, hkey, -⟩ := hold row hrow
    rw [hid, hkey]
    exact h.recorded old hmem

/-- A new row whose ID has never been drawn before. -/
theorem PlatformInv.insert {p : Platform κ ι T β} (h : PlatformInv p) {row : WebhookRow ι}
    (hinactive : row.isActive = false) (hrow : row.id ∉ p.state.table.rows.map WebhookRow.id)
    (hnew : row.id ∉ p.created.map Prod.fst) :
    PlatformInv (⟨{ p.state with table := p.state.table.insert row hrow },
      (row.id, row.key) :: p.created⟩ : Platform κ ι T β) := by
  have hfresh : ∀ key, (row.id, key) ∉ p.created := fun key hmem => hnew (List.mem_map_of_mem hmem)
  refine ⟨fun key => ?_, fun key c => ?_, fun r hr hactive => ?_, fun task htask id hid => ?_,
    fun task htask hcall r hr hid => ?_, fun key id hid => .tail _ (h.home key id hid), ?_, ?_⟩
  · have hinv := h.conserved key
    exact ⟨hinv.conserved, hinv.handed, hinv.sameWebhook⟩
  · intro msg msgs isBacklogMsg hloop hcall
    have hnone := h.foundNone key c msg msgs isBacklogMsg hloop hcall
    rw [WebhookTable.findOne_eq_none] at hnone ⊢
    intro r hr heq
    rcases List.mem_cons.1 hr with rfl | hr
    · -- the webhook in hand is on record
      have hmsg : msg ∈ handed (p.state.consumers key c).loop := by
        rw [hloop]
        exact List.mem_cons_self
      rw [heq] at hfresh
      exact hfresh key (h.created_of_handed hmsg)
    · exact hnone r hr heq
  · rcases List.mem_cons.1 hr with rfl | hr
    · rw [hinactive] at hactive
      cases hactive
    · exact h.member r hr hactive
  · exact .tail _ (h.grouped task htask id hid)
  · rcases List.mem_cons.1 hr with rfl | hr
    · exact absurd (h.grouped task htask _ hid) (hfresh _)
    · exact h.scripted task htask hcall r hr hid
  · intro r hr
    rcases List.mem_cons.1 hr with rfl | hr
    · exact List.mem_cons_self
    · exact .tail _ (h.recorded r hr)
  · exact List.nodup_cons.2 ⟨hnew, h.unique⟩

/-! ### Every action -/

/-- A change of the promises alone. -/
theorem PlatformInv.running {p : Platform κ ι T β} (h : PlatformInv p)
    {running : List (ActivateTask ι)} (hrunning : ∀ task ∈ running, task ∈ p.state.running) :
    PlatformInv (⟨{ p.state with running := running }, p.created⟩ : Platform κ ι T β) :=
  h.rows hrunning fun row hrow => ⟨row, hrow, rfl, rfl, .inl⟩

/-- New promises. -/
theorem PlatformInv.start {p : Platform κ ι T β} (h : PlatformInv p) (customerId : String)
    (ids : List ι) :
    PlatformInv (⟨{ p.state with running := p.state.running ++
      (p.state.groups customerId ids).map fun group => ⟨customerId, group, .activate⟩ },
        p.created⟩ : Platform κ ι T β) := by
  refine ⟨h.conserved, h.foundNone, h.member, fun task htask id hid => ?_,
    fun task htask hcall => ?_, h.home, h.recorded, h.unique⟩
  · rcases List.mem_append.1 htask with hold | hnew
    · exact h.grouped task hold id hid
    · obtain ⟨group, hgroup, rfl⟩ := List.mem_map.1 hnew
      obtain ⟨row, hrow, rfl, hkey⟩ := mem_group_row hgroup hid
      rw [← hkey]
      exact h.recorded row (WebhookTable.mem_findMany.1 hrow).1
  · rcases List.mem_append.1 htask with hold | hnew
    · exact h.scripted task hold hcall
    · obtain ⟨group, -, rfl⟩ := List.mem_map.1 hnew
      cases hcall

/-- The script of a promise, executed or not, and the promise after it. -/
theorem PlatformInv.activate {p : Platform κ ι T β} (h : PlatformInv p) {task : ActivateTask ι}
    (htask : task ∈ p.state.running) (outcome : CallOutcome) :
    PlatformInv (⟨{ (p.state.activate task.group outcome).1 with
      running := if (p.state.activate task.group outcome).2 then
        { task with call := .update } :: p.state.running.erase task
        else p.state.running.erase task }, p.created⟩ : Platform κ ι T β) := by
  cases hexec : outcome.executes with
  | false =>
    have hreject : (p.state.activate task.group outcome).2 = false := by
      cases outcome with
      | ok => cases hexec
      | failed => rfl
      | executedThenFailed => cases hexec
    simp only [hreject, Bool.false_eq_true, if_false]
    simp only [ActivationState.activate, hexec, Bool.false_eq_true, if_false]
    exact h.running fun t ht => List.mem_of_mem_erase ht
  | true =>
    have hstep : (p.state.relay task.group.key).step (.activate task.group.webhookIds) =
        some { p.state.relay task.group.key with
          shard := (p.state.shards task.group.key).activate task.group.webhookIds } := rfl
    have hshard := h.shard hstep (by simp) (fun ids heq id hid => ?_)
      (if (p.state.activate task.group outcome).2 then
        { task with call := .update } :: p.state.running.erase task
        else p.state.running.erase task) fun t ht => ?_
    · simp only [ActivationState.relay, Function.update_eq_self] at hshard
      simp only [ActivationState.activate, hexec, if_true]
      exact hshard
    · cases heq
      exact h.grouped task htask id hid
    · split at ht
      · rcases List.mem_cons.1 ht with rfl | ht
        · exact .inr ⟨task, htask, rfl, rfl, rfl⟩
        · exact .inl (List.mem_of_mem_erase ht)
      · exact .inl (List.mem_of_mem_erase ht)

/-- The update of a promise, executed or not. -/
theorem PlatformInv.updateTask {p : Platform κ ι T β} (h : PlatformInv p) {task : ActivateTask ι}
    (htask : task ∈ p.state.running) (hcall : task.call = .update) (outcome : CallOutcome) :
    PlatformInv (⟨{ (p.state.update task.customerId task.group outcome).1 with
      running := p.state.running.erase task }, p.created⟩ : Platform κ ι T β) := by
  have herase : ∀ t ∈ p.state.running.erase task, t ∈ p.state.running :=
    fun t ht => List.mem_of_mem_erase ht
  cases hexec : outcome.executes with
  | false =>
    simp only [ActivationState.update, hexec, Bool.false_eq_true, if_false]
    exact h.running herase
  | true =>
    simp only [ActivationState.update, hexec, if_true]
    refine h.rows herase fun row hrow => ?_
    obtain ⟨old, hold, rfl⟩ := List.mem_map.1 hrow
    refine ⟨old, hold, by simp, by simp, fun hactive => ?_⟩
    refine (WebhookTable.activateRow_isActive.1 hactive).imp_right fun hnew => ?_
    -- the row is one of the shard of the promise
    rw [h.key_eq (h.recorded old hold) (h.grouped task htask _ hnew.2)]
    exact h.scripted task htask hcall old hold hnew.2

/-- Every action keeps the invariant. -/
theorem platformInv_step {db : Collation} {blockchains : List Blockchain}
    {p p' : Platform κ ι T β} {a : PlatformAction κ ι β}
    (hstep : p.step db blockchains a = some p') (h : PlatformInv p) : PlatformInv p' := by
  cases a with
  | create userId data uuid draw =>
    simp only [Platform.step] at hstep
    split at hstep
    · cases hstep
    · next row hcreate =>
      split at hstep
      · next hnew =>
        cases hstep
        exact h.insert (createRow_eq_some hcreate).2 hnew.1 hnew.2
      · cases hstep
  | update userId id data =>
    cases hstep
    refine h.rows (fun _ ht => ht) fun row hrow => ?_
    obtain ⟨old, hold, rfl⟩ := List.mem_map.1 hrow
    exact ⟨old, hold, by simp, by simp, fun hactive => .inl (by simpa using hactive)⟩
  | remove userId ids =>
    cases hstep
    refine h.rows (fun _ ht => ht) fun row hrow => ?_
    exact ⟨row, (List.mem_filter.1 hrow).1, rfl, rfl, .inl⟩
  | activation action =>
    simp only [Platform.step] at hstep
    split at hstep
    · cases hstep
    · next state hstate =>
      cases hstep
      cases action with
      | start customerId ids =>
        cases hstate
        exact h.start customerId ids
      | activate task outcome =>
        simp only [ActivationState.step] at hstate
        split at hstate
        · next henabled =>
          cases hstate
          exact h.activate henabled.1 outcome
        · cases hstate
      | update task outcome =>
        simp only [ActivationState.step] at hstate
        split at hstate
        · next henabled =>
          cases hstate
          exact h.updateTask henabled.1 henabled.2 outcome
        · cases hstate
      | flush key height =>
        cases hstate
        have hflush : (p.state.relay key).step (.flush height) =
            some { p.state.relay key with shard := (p.state.shards key).flush height } := rfl
        have hshard := h.shard hflush (by simp) (by simp) p.state.running fun _ ht => .inl ht
        simp only [ActivationState.relay, Function.update_eq_self] at hshard
        exact hshard
      | consumer key c action =>
        simp only [ActivationState.step] at hstate
        split at hstate
        · cases hstate
        · next relay hrelay =>
          cases hstate
          exact h.shard hrelay (by simp) (by simp) _ fun _ ht => .inl ht

theorem platformInv_run {db : Collation} {blockchains : List Blockchain}
    {as : List (PlatformAction κ ι β)} {p : Platform κ ι T β}
    (h : run (Platform.step db blockchains) .init as = some p) : PlatformInv p :=
  run_invariant (fun _ _ _ => platformInv_step) h platformInv_init

/-- In every reachable state no webhook has two jobs; no webhook that has or had a row has a job
    outside the shard that the row was drawn for; and an active webhook has one. -/
theorem active_one_job {db : Collation} {blockchains : List Blockchain}
    {as : List (PlatformAction κ ι β)} {p : Platform κ ι T β}
    (h : run (Platform.step db blockchains) .init as = some p) :
    (∀ key w, outstanding (p.state.shards key) w ≤ 1) ∧
    (∀ w home, (w, home) ∈ p.created → ∀ key, key ≠ home →
      outstanding (p.state.shards key) w = 0) ∧
    (∀ row ∈ p.state.table.rows, (row.id, row.key) ∈ p.created) ∧
    ∀ row ∈ p.state.table.rows, row.isActive = true →
      outstanding (p.state.shards row.key) row.id = 1 := by
  have hinv := platformInv_run h
  have hone : ∀ key w, outstanding (p.state.shards key) w =
      if w ∈ (p.state.shards key).webhookSet then 1 else 0 :=
    fun key w => (hinv.conserved key).conserved w
  refine ⟨fun key w => ?_, fun w home hhome key hne => ?_, hinv.recorded,
    fun row hrow hactive => ?_⟩
  · rw [hone]
    split
    · exact Nat.le_refl 1
    · exact Nat.zero_le 1
  · rw [hone, if_neg]
    exact fun hmem => hne (hinv.key_eq (hinv.home key _ hmem) hhome)
  · rw [hone, if_pos (hinv.member row hrow hactive)]

end Platform

/-- The promise of the first webhook of `u`. -/
def activateTask (call : ActivateCall) : ActivateTask Nat := ⟨"u", ⟨⟨"redis", 1⟩, [7]⟩, call⟩

/-- A webhook is created and activated; before the update of its row it is updated, and another
    webhook is created and removed. -/
def createAndActivate : List (PlatformAction Unit Nat Nat) :=
  [.create "u" ⟨"http://u", 1, 0, 5, "flow"⟩ 7 3, .activation (.start "u" [7]),
    .activation (.activate (activateTask .activate) .ok),
    .create "v" ⟨"http://v", 1, 0, 5, "flow"⟩ 8 0,
    .update "u" 7 ⟨.undefined, .value 2, .null, .null⟩,
    .remove "v" [7, 8], .activation (.update (activateTask .update) .ok)]

theorem active_one_job_createAndActivate :
    ∃ p : Platform Unit Nat TupleText Nat,
      run (Platform.step ⟨fun a b => a == b, fun _ _ => false⟩ [⟨"flow", 2, "redis"⟩]) .init
        createAndActivate = some p ∧
      (∃ row ∈ p.state.table.rows, row.isActive = true ∧
        outstanding (p.state.shards row.key) row.id = 1) ∧
      -- the webhook that has been removed
      outstanding (p.state.shards ⟨"redis", 1⟩) 8 = 0 := by
  have hrun : (run (Platform.step ⟨fun a b => a == b, fun _ _ => false⟩ [⟨"flow", 2, "redis"⟩])
      (.init : Platform Unit Nat TupleText Nat) createAndActivate).any
        (fun p => p.state.table.rows.any WebhookRow.isActive &&
          p.created.contains (8, ⟨"redis", 0⟩)) = true := rfl
  obtain ⟨p, hp, hstate⟩ := (Option.any_eq_true ..).1 hrun
  obtain ⟨hany, hcreated⟩ := Bool.and_eq_true_iff.1 hstate
  obtain ⟨row, hrow, hactive⟩ := List.any_eq_true.1 hany
  have hjobs := active_one_job hp
  exact ⟨p, hp, ⟨row, hrow, hactive, hjobs.2.2.2 row hrow hactive⟩,
    hjobs.2.1 8 ⟨"redis", 0⟩ (List.contains_iff_mem.1 hcreated) ⟨"redis", 1⟩ (by decide)⟩

end BlockFeed.Spec
