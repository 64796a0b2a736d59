import BlockFeed.Native.BacklogPass
import BlockFeed.Spec.RelayRestart
import Mathlib.Algebra.GroupWithZero.Nat
import Mathlib.Algebra.Order.BigOperators.Group.List
import Mathlib.Algebra.Order.Group.Nat

/-!
# The backlog pass terminates

The loop of `processBacklogMsgs` is left only by an empty read from `0-0`, and it goes on whether
or not the handler fails. It ends because the delivery counts grow: `work` counts what is left to
do for the pending messages, the retries that remain and one more for each. A round that hands a
batch to the handler makes it smaller, and a round that wraps the cursor is followed by such a
round or by the end.

- `backlog_terminates`: the pass ends, and nothing is pending for the consumer then.
- `DeliveryInv.readable`: what it asks of the stream holds in every reachable state.
-/

namespace BlockFeed.Spec

open BlockFeed.Native Redis

/-! ## What is left to do -/

section Work

variable {κ α : Type} [DecidableEq κ]

/-- The deliveries that a message can still take, where `limit` has the `MaxRetries` of each ID,
    and the one that ends it. -/
def remaining (limit : Nat → Nat) (p : PelEntry κ) : Nat := limit p.id - p.deliveries + 1

/-- What is left to do for one consumer. -/
def work (limit : Nat → Nat) (stream : GroupStream κ α) (c : κ) : Nat :=
  ((stream.pelOf c).map (remaining limit)).sum

omit [DecidableEq κ] in
/-- Leaving out something of positive weight makes a sum smaller. -/
private theorem sum_filter_lt {l : List (PelEntry κ)} {weight : PelEntry κ → Nat}
    {keep : PelEntry κ → Bool} {p : PelEntry κ} (hp : p ∈ l) (hnot : keep p = false)
    (hpos : 0 < weight p) : ((l.filter keep).map weight).sum < (l.map weight).sum := by
  have hsplit : (l.map weight).sum =
      ((l.filter keep).map weight).sum + ((l.filter fun q => !keep q).map weight).sum := by
    rw [← List.sum_append, ← List.map_append]
    exact ((List.filter_append_perm keep l).map weight).sum_eq.symm
  have hmem : weight p ∈ (l.filter fun q => !keep q).map weight :=
    List.mem_map_of_mem (List.mem_filter.2 ⟨hp, by rw [hnot]; rfl⟩)
  have hle := List.single_le_sum (fun _ _ => Nat.zero_le _) _ hmem
  omega

/-- A read leaves no more to do. -/
theorem work_xreadgroupFrom_le (limit : Nat → Nat) (stream : GroupStream κ α) (c : κ)
    (k n : Nat) : work limit (stream.xreadgroupFrom c k n).2 c ≤ work limit stream c := by
  rw [work, GroupStream.pelOf_xreadgroupFrom_self, List.map_map]
  apply List.sum_le_sum
  intro p _
  simp only [Function.comp, remaining]
  split
  · simp only
    omega
  · exact Nat.le_refl _

/-- It leaves less where it delivers a message that has retries left. -/
theorem work_xreadgroupFrom_lt {limit : Nat → Nat} {stream : GroupStream κ α} {c : κ} {k n : Nat}
    {p : PelEntry κ} (hp : p ∈ stream.backlog c k n) (hentry : (stream.get? p.id).isSome)
    (hlimit : p.deliveries < limit p.id) :
    work limit (stream.xreadgroupFrom c k n).2 c < work limit stream c := by
  obtain ⟨hpel, hc, -⟩ := GroupStream.mem_backlog hp
  rw [work, GroupStream.pelOf_xreadgroupFrom_self, List.map_map]
  apply List.sum_lt_sum
  · intro q _
    simp only [Function.comp, remaining]
    split
    · simp only
      omega
    · exact Nat.le_refl _
  · refine ⟨p, GroupStream.mem_pelOf.2 ⟨hpel, hc⟩, ?_⟩
    simp only [Function.comp, remaining, if_pos (And.intro hp hentry)]
    omega

/-- Acknowledging a pending message leaves less to do. -/
theorem work_xAckDel_lt {ι T : Type} [DecidableEq ι] [LinearOrder T] [JobText ι T]
    {limit : Nat → Nat} {shard : Shard κ ι T} {c : κ}
    {msg : ParsedStreamMessage (WebhookStreamMsgData ι)}
    (h : msg.id ∈ shard.webhookStream.pelIds c) (newMsg : Option (WebhookStreamMsgData ι)) :
    work limit (shard.xAckDel msg newMsg).webhookStream c <
      work limit shard.webhookStream c := by
  obtain ⟨p, hp, hc, hid⟩ := GroupStream.mem_pelIds.1 h
  have hpel : (shard.xAckDel msg newMsg).webhookStream.pelOf c =
      (shard.webhookStream.pelOf c).filter (fun p => p.id ≠ msg.id) := by
    rw [GroupStream.pelOf, Shard.pel_xAckDel, GroupStream.pelOf, List.filter_filter,
      List.filter_filter]
    exact List.filter_congr fun q _ => Bool.and_comm _ _
  rw [work, hpel]
  apply sum_filter_lt (GroupStream.mem_pelOf.2 ⟨hp, hc⟩)
  · exact decide_eq_false fun hne => hne hid
  · exact Nat.succ_pos _

end Work

/-! ## One iteration -/

section Pass

variable {κ ι T β : Type} [DecidableEq κ] [DecidableEq ι] [LinearOrder T] [JobText ι T]

/-- The retries of a job; a job whose webhook is gone has none. -/
def retries (webhooks : ι → Option Webhook) (data : WebhookStreamMsgData ι) : Nat :=
  (webhooks data.webhookID).elim 0 fun webhook => webhook.maxRetries.toNat

/-- The invariant of the pass. `limit` has the retries of the pending messages. -/
structure PassInv (c : κ) (webhooks : ι → Option Webhook) (limit : Nat → Nat)
    (s : BacklogPass κ ι T β) : Prop where
  readable : ∀ id ∈ s.shard.webhookStream.pelIds c, ∃ v data,
    (id, v) ∈ s.shard.webhookStream.entries ∧ JobText.parse v = some data ∧
      limit id = retries webhooks data
  position : (∃ cursorId, s.loop = .processBacklogMsgs cursorId) ∨
    s.loop = .processNewMsgs ∧ s.shard.webhookStream.pelIds c = []
  blocks : ∀ i, (s.outcomes i).blocks ≠ some []

/-- What is left to do at a position of the loop. -/
def passMeasure (c : κ) (limit : Nat → Nat) (s : BacklogPass κ ι T β) : Nat :=
  match s.loop with
  | .processBacklogMsgs cursorId =>
    2 * work limit s.shard.webhookStream c + (if cursorId = 0 then 0 else 1) + 1
  | _ => 0

omit [DecidableEq ι] [LinearOrder T] in
/-- A batch that is not empty starts with a message that is pending for the consumer. -/
private theorem head_of_readBacklog {stream stream' : GroupStream κ T} {c : κ} {k n : Nat}
    {msgs : List (ParsedStreamMessage (WebhookStreamMsgData ι))} {isBacklogMsg : Bool}
    (hread : Subscriber.readBacklog JobText.parse stream c n k =
      (.handler msgs isBacklogMsg, stream')) :
    isBacklogMsg = true ∧ ∃ msg rest p v, msgs = msg :: rest ∧ p ∈ stream.backlog c k n ∧
      p.id = msg.id ∧ stream.get? p.id = some v ∧ JobText.parse v = some msg.data := by
  have hne := handler_ne_nil_of_readBacklog hread msgs isBacklogMsg rfl
  obtain ⟨-, hempty | ⟨-, hstop | ⟨msgs', hloop, hparse⟩⟩⟩ := readBacklog_cases hread
  · have hloop := hempty.2
    split at hloop <;> cases hloop
  · cases hstop
  · cases hloop
    refine ⟨rfl, ?_⟩
    cases msgs with
    | nil => exact absurd rfl hne
    | cons msg rest =>
      obtain ⟨v, hv, hdata⟩ := mem_parseMessages hparse List.mem_cons_self
      obtain ⟨p, hp, heq⟩ := List.mem_map.1 hv
      obtain ⟨hid, hget⟩ := Prod.mk.inj heq
      exact ⟨msg, rest, p, v, rfl, hp, hid, hget, hdata⟩

omit [DecidableEq ι] [LinearOrder T] in
/-- The cursor wraps when nothing comes after it. -/
private theorem wraps_of_readBacklog {stream stream' : GroupStream κ T} {c : κ} {k n k' : Nat}
    (hread : Subscriber.readBacklog JobText.parse stream c n k =
      ((.processBacklogMsgs k' : Subscriber (WebhookStreamMsgData ι)), stream')) :
    k ≠ 0 ∧ k' = 0 ∧ stream' = (stream.xreadgroupFrom c k n).2 := by
  obtain ⟨rfl, ⟨-, hloop⟩ | ⟨-, hstop | ⟨msgs, hloop, -⟩⟩⟩ := readBacklog_cases hread
  · split at hloop
    · cases hloop
    · next hk =>
      cases hloop
      exact ⟨hk, rfl, rfl⟩
  · cases hstop
  · cases hloop

omit [DecidableEq ι] [LinearOrder T] in
/-- The pass returns when nothing is pending. -/
private theorem pelIds_eq_nil_of_readBacklog {stream stream' : GroupStream κ T} {c : κ}
    {k n : Nat} (hn : 1 ≤ n)
    (hread : Subscriber.readBacklog JobText.parse stream c n k =
      ((.processNewMsgs : Subscriber (WebhookStreamMsgData ι)), stream')) :
    stream' = (stream.xreadgroupFrom c k n).2 ∧ stream.pelIds c = [] := by
  obtain ⟨rfl, ⟨hempty, hloop⟩ | ⟨-, hstop | ⟨msgs, hloop, -⟩⟩⟩ := readBacklog_cases hread
  · split at hloop
    · next hk =>
      subst hk
      refine ⟨rfl, ?_⟩
      have hids := GroupStream.ids_xreadgroupFrom stream c 0 n
      rw [hempty, List.map_nil, eq_comm, List.take_eq_nil_iff, List.filter_eq_nil_iff] at hids
      cases hids with
      | inl hzero => omega
      | inr hnone =>
        apply List.eq_nil_iff_forall_not_mem.2
        intro id hid
        exact hnone id hid (decide_eq_true (GroupStream.pelIds_bounded hid).1)
    · cases hloop
  · cases hstop
  · cases hloop

/-- An acknowledgement leaves the other messages, with their entries. -/
private theorem kept_xAckDel {c : κ} (shard : Shard κ ι T)
    (msg : ParsedStreamMessage (WebhookStreamMsgData ι)) (newMsg : Option (WebhookStreamMsgData ι))
    {id : Nat} (hid : id ∈ (shard.xAckDel msg newMsg).webhookStream.pelIds c) :
    id ∈ shard.webhookStream.pelIds c ∧ ∀ v, (id, v) ∈ shard.webhookStream.entries →
      (id, v) ∈ (shard.xAckDel msg newMsg).webhookStream.entries := by
  obtain ⟨q, hq, hqc, rfl⟩ := GroupStream.mem_pelIds.1 hid
  rw [Shard.pel_xAckDel, List.mem_filter] at hq
  have hne := of_decide_eq_true hq.2
  refine ⟨GroupStream.mem_pelIds.2 ⟨q, hq.1, hqc, rfl⟩, ?_⟩
  intro v hv
  obtain ⟨jobs, hstream⟩ := Shard.webhookStream_xAckDel shard msg newMsg
  rw [hstream]
  apply GroupStream.entries_xaddAll_subset
  rw [entries_xAckDel]
  exact List.mem_filter.2 ⟨hv, decide_eq_true fun hmem => hne (List.mem_singleton.1 hmem)⟩

/-- The handler returns; what is pending is still readable, and there is less to do. -/
private theorem handle_lt {c : κ} {webhooks : ι → Option Webhook} {limit : Nat → Nat}
    {s : BacklogPass κ ι T β} (hinv : PassInv c webhooks limit s) {cursorId count : Nat}
    {stream : GroupStream κ T} {msgs : List (ParsedStreamMessage (WebhookStreamMsgData ι))}
    {isBacklogMsg : Bool}
    (hread : Subscriber.readBacklog JobText.parse s.shard.webhookStream c count cursorId =
      (.handler msgs isBacklogMsg, stream)) :
    ∃ shard, BlockRelay.handle c webhooks { s.shard with webhookStream := stream } msgs
        isBacklogMsg (s.outcomes 0) = some shard ∧
      work limit shard.webhookStream c < work limit s.shard.webhookStream c ∧
      ∀ id ∈ shard.webhookStream.pelIds c, id ∈ s.shard.webhookStream.pelIds c ∧
        ∀ v, (id, v) ∈ s.shard.webhookStream.entries → (id, v) ∈ shard.webhookStream.entries := by
  obtain ⟨rfl, msg, rest, p, v, rfl, hp, hid, hget, hdata⟩ := head_of_readBacklog hread
  obtain ⟨rfl, -⟩ := readBacklog_cases hread
  obtain ⟨hpel, hc, -⟩ := GroupStream.mem_backlog hp
  have hpending : msg.id ∈ s.shard.webhookStream.pelIds c :=
    GroupStream.mem_pelIds.2 ⟨p, hpel, hc, hid⟩
  have hentry : (s.shard.webhookStream.get? p.id).isSome := by
    rw [hget]
    rfl
  have hle := work_xreadgroupFrom_le limit s.shard.webhookStream c cursorId count
  -- the read has counted this delivery
  have hcounted : (s.shard.webhookStream.xreadgroupFrom c cursorId count).2.xpending c msg.id =
      some { p with deliveries := p.deliveries + 1 } := by
    refine GroupStream.xpending_eq_some.2 ⟨?_, hc, hid⟩
    exact GroupStream.mem_pel_xreadgroupFrom.2 ⟨p, hpel, by rw [if_pos ⟨hp, hentry⟩]⟩
  have hhandled : (∃ newMsg, BlockRelay.handle c webhooks { s.shard with
      webhookStream := (s.shard.webhookStream.xreadgroupFrom c cursorId count).2 }
      (msg :: rest) true (s.outcomes 0) = _) ∨ _ :=
    handle_backlog rest (hinv.blocks 0) hcounted
  cases hhandled with
  | inl hacked =>
    obtain ⟨newMsg, hhandle⟩ := hacked
    refine ⟨_, hhandle, ?_, ?_⟩
    · refine Nat.lt_of_lt_of_le (work_xAckDel_lt ?_ newMsg) hle
      rw [GroupStream.pelIds_xreadgroupFrom]
      exact hpending
    · intro id hid
      obtain ⟨hmem, hentries⟩ := kept_xAckDel _ msg newMsg hid
      rw [GroupStream.pelIds_xreadgroupFrom] at hmem
      exact ⟨hmem, hentries⟩
  | inr hfailed =>
    obtain ⟨hhandle, webhook, hw, hlt⟩ := hfailed
    refine ⟨_, hhandle, ?_, ?_⟩
    · -- one retry less
      apply work_xreadgroupFrom_lt hp hentry
      obtain ⟨v', data, hv', hdata', hlimit⟩ := hinv.readable _ hpending
      have hv := GroupStream.get?_eq_some.1 hget
      rw [hid] at hv
      rw [GroupStream.entry_unique hv' hv, hdata] at hdata'
      cases hdata'
      rw [hid, hlimit, retries, hw]
      have hretries : ((p.deliveries + 1 : Nat) : Int) < webhook.maxRetries := hlt
      simp only [Option.elim_some]
      omega
    · intro id hid
      rw [GroupStream.pelIds_xreadgroupFrom] at hid
      exact ⟨hid, fun v hv => hv⟩

/-- One iteration keeps the invariant and leaves less to do. -/
private theorem passInv_step {c : κ} {webhooks : ι → Option Webhook} {limit : Nat → Nat}
    {count : Nat} (hcount : 1 ≤ count) {s s' : BacklogPass κ ι T β}
    (hstep : processBacklogMsgs c count webhooks s = some s') (h : PassInv c webhooks limit s) :
    PassInv c webhooks limit s' ∧ passMeasure c limit s' < passMeasure c limit s := by
  cases hloop : s.loop with
  | processBacklogMsgs cursorId =>
    have hmeasure : passMeasure c limit s =
        2 * work limit s.shard.webhookStream c + (if cursorId = 0 then 0 else 1) + 1 := by
      simp only [passMeasure, hloop]
    simp only [processBacklogMsgs, hloop] at hstep
    cases hread : Subscriber.readBacklog JobText.parse s.shard.webhookStream c count cursorId with
    | mk next stream =>
      simp only [hread] at hstep
      cases next with
      | handler msgs isBacklogMsg =>
        obtain ⟨shard, hhandle, hlt, hkeep⟩ := handle_lt h hread
        simp only [hhandle, Option.some.injEq] at hstep
        subst hstep
        obtain ⟨rfl, -⟩ := head_of_readBacklog hread
        constructor
        · refine ⟨?_, .inl ⟨_, rfl⟩, fun i => h.blocks (i + 1)⟩
          intro id hid
          obtain ⟨hmem, hentry⟩ := hkeep id hid
          obtain ⟨v, data, hv, hdata⟩ := h.readable id hmem
          exact ⟨v, data, hentry v hv, hdata⟩
        · rw [hmeasure]
          simp only [passMeasure, Subscriber.handled, if_true]
          split <;> split <;> omega
      | processBacklogMsgs cursorId' =>
        simp only [Option.some.injEq] at hstep
        subst hstep
        obtain ⟨hwrap, rfl, rfl⟩ := wraps_of_readBacklog hread
        constructor
        · refine ⟨?_, .inl ⟨_, rfl⟩, h.blocks⟩
          rw [GroupStream.pelIds_xreadgroupFrom]
          exact h.readable
        · have hle := work_xreadgroupFrom_le limit s.shard.webhookStream c cursorId count
          rw [hmeasure, if_neg hwrap]
          simp only [passMeasure, if_true]
          omega
      | processNewMsgs =>
        simp only [Option.some.injEq] at hstep
        subst hstep
        obtain ⟨rfl, hnil⟩ := pelIds_eq_nil_of_readBacklog hcount hread
        constructor
        · refine ⟨?_, .inr ⟨rfl, ?_⟩, h.blocks⟩
          · rw [GroupStream.pelIds_xreadgroupFrom]
            exact h.readable
          · rw [GroupStream.pelIds_xreadgroupFrom]
            exact hnil
        · rw [hmeasure]
          exact Nat.succ_pos _
      | stopped =>
        -- what is pending is readable
        have hreadable : Readable JobText.parse s.shard.webhookStream c := fun id hid => by
          obtain ⟨v, data, hv, hdata, -⟩ := h.readable id hid
          exact ⟨v, data, hv, hdata⟩
        exact absurd (congrArg Prod.fst hread) (readBacklog_ne_stopped count cursorId hreadable)
  | _ => simp [processBacklogMsgs, hloop] at hstep

/-- For every PEL of the consumer, all limits, every batch size and whatever the block store and
    the POSTs do, the pass ends without an error, and nothing is pending for the consumer. -/
theorem backlog_terminates {c : κ} {count : Nat} (hcount : 1 ≤ count)
    (webhooks : ι → Option Webhook) {shard : Shard κ ι T}
    (hreadable : Readable JobText.parse shard.webhookStream c)
    {outcomes : Nat → HandlerOutcome β} (hblocks : ∀ i, (outcomes i).blocks ≠ some []) :
    ∃ t, LoopEnds (processBacklogMsgs c count webhooks)
        ⟨shard, .processBacklogMsgs 0, outcomes⟩ t ∧
      t.loop = .processNewMsgs ∧ t.shard.webhookStream.pelIds c = [] := by
  -- the retries of each pending message, by its ID
  let limit (id : Nat) : Nat :=
    ((shard.webhookStream.get? id).bind JobText.parse).elim 0 (retries webhooks)
  have hinit : PassInv c webhooks limit ⟨shard, .processBacklogMsgs 0, outcomes⟩ := by
    refine ⟨?_, .inl ⟨0, rfl⟩, hblocks⟩
    intro id hid
    obtain ⟨v, data, hv, hdata⟩ := hreadable id hid
    refine ⟨v, data, hv, hdata, ?_⟩
    simp only [limit, GroupStream.get?_eq_some.2 hv, Option.bind_some, hdata, Option.elim_some]
  obtain ⟨t, hends, hinv, hnone⟩ := exists_loopEnds (passMeasure c limit)
    (fun s s' hs hstep => passInv_step hcount hstep hs) hinit
  refine ⟨t, hends, ?_⟩
  cases hinv.position with
  | inl hagain =>
    -- at a read of the backlog the loop goes on
    obtain ⟨cursorId, hloop⟩ := hagain
    simp only [processBacklogMsgs, hloop] at hnone
    split at hnone
    · split at hnone <;> cases hnone
    · cases hnone
  | inr hdone => exact hdone

end Pass

/-- Two messages are pending for a consumer, with limits of 3 and 0. -/
def twoPending : Shard Unit Nat TupleText where
  webhookSet := {7, 8}
  pendingSet := .empty
  webhookStream :=
    (((GroupStream.empty.xadd (JobText.encode 7)).xadd (JobText.encode 8)).xreadgroupNew () 2).2
  latestBlockHeight := none

theorem backlog_terminates_twoPending :
    ∃ t, LoopEnds
        (processBacklogMsgs () 1 fun id : Nat => some (if id = 7 then ⟨1, 3⟩ else ⟨1, 0⟩))
        (⟨twoPending, .processBacklogMsgs 0, fun _ => ⟨some [⟨0, 4⟩], false⟩⟩ :
          BacklogPass Unit Nat TupleText Nat) t ∧
      t.loop = .processNewMsgs ∧ t.shard.webhookStream.pelIds () = [] := by
  apply backlog_terminates
  · decide
  · intro id hid
    have hids : twoPending.webhookStream.pelIds () = [1, 2] := by decide
    rw [hids] at hid
    simp only [List.mem_cons, List.not_mem_nil, or_false] at hid
    rcases hid with rfl | rfl
    · exact ⟨JobText.encode 7, ⟨7, 0, true⟩, by decide, rfl⟩
    · exact ⟨JobText.encode 8, ⟨8, 0, true⟩, by decide, rfl⟩
  · intro i h
    cases h

end BlockFeed.Spec
