import BlockFeed.ForStd.Transition
import BlockFeed.Native.BlockRelay
import BlockFeed.Spec.SubscribeCorrect

/-!
# Jobs are conserved

A job of a webhook lies in the stream of its shard, delivered or not, or in the pending set.
The scripts move jobs between the two: `Flush` and `XAckDel` with a new message keep the number
of jobs of every webhook, `XAckDel` without one takes the last job of a webhook together with the
webhook, and activation adds one job for each webhook it adds.

`XAckDel` does not check that the entry it acknowledges is still there. That it is follows from
the consumer: what its handler works on stays pending for it until it acknowledges.
-/

namespace BlockFeed.Spec

open BlockFeed.Native Redis Transition

section Jobs

variable {κ ι T : Type} [DecidableEq ι] [LinearOrder T] [JobText ι T]

/-- The webhook of a job. -/
def webhookOf (job : T) : Option ι := (JobText.parse job).map WebhookStreamMsgData.webhookID

/-- The outstanding jobs of a shard. -/
def jobs (shard : Shard κ ι T) : List T :=
  shard.webhookStream.entries.map Prod.snd ++ shard.pendingSet.members

/-- How many of a list of jobs belong to a webhook. -/
def jobsFor (w : ι) (js : List T) : Nat := js.countP (fun job => webhookOf job = some w)

/-- How many jobs a webhook has outstanding. -/
def outstanding (shard : Shard κ ι T) (w : ι) : Nat := jobsFor w (jobs shard)

/-- A webhook has one job while it is in the webhook set and none otherwise. -/
def Conserved (shard : Shard κ ι T) : Prop :=
  ∀ w, outstanding shard w = if w ∈ shard.webhookSet then 1 else 0

omit [DecidableEq ι] [LinearOrder T] in
theorem webhookOf_marshal (data : WebhookStreamMsgData ι) :
    webhookOf (JobText.marshal data : T) = some data.webhookID := by
  rw [webhookOf, JobText.parse_marshal, Option.map_some]

omit [DecidableEq ι] [LinearOrder T] in
theorem webhookOf_encode (id : ι) : webhookOf (JobText.encode id : T) = some id := by
  rw [webhookOf, JobText.parse_encode, Option.map_some]

theorem outstanding_eq (shard : Shard κ ι T) (w : ι) :
    outstanding shard w = jobsFor w (shard.webhookStream.entries.map Prod.snd) +
      jobsFor w shard.pendingSet.members :=
  List.countP_append

omit [LinearOrder T] in
theorem jobsFor_cons (w : ι) (job : T) (js : List T) :
    jobsFor w (job :: js) = jobsFor w js + if webhookOf job = some w then 1 else 0 := by
  simp [jobsFor, List.countP_cons]

omit [LinearOrder T] in
/-- Distinct jobs are counted by membership. -/
theorem jobsFor_congr {w : ι} {js js' : List T} (hnd : js.Nodup) (hnd' : js'.Nodup)
    (h : ∀ job, webhookOf job = some w → (job ∈ js ↔ job ∈ js')) :
    jobsFor w js = jobsFor w js' := by
  unfold jobsFor
  rw [List.countP_eq_length_filter, List.countP_eq_length_filter]
  apply List.Perm.length_eq
  rw [List.perm_ext_iff_of_nodup (hnd.filter _) (hnd'.filter _)]
  intro job
  rw [List.mem_filter, List.mem_filter, decide_eq_true_eq]
  constructor
  · intro hjob
    exact ⟨(h job hjob.2).1 hjob.1, hjob.2⟩
  · intro hjob
    exact ⟨(h job hjob.2).2 hjob.1, hjob.2⟩

omit [LinearOrder T] in
theorem jobsFor_pos {w : ι} {js : List T} {job : T} (hjob : job ∈ js)
    (hw : webhookOf job = some w) : 0 < jobsFor w js :=
  List.countP_pos_iff.2 ⟨job, hjob, decide_eq_true hw⟩

/-! ## The scripts -/

/-- `Flush` keeps all jobs. -/
theorem outstanding_flush (shard : Shard κ ι T) (height : UInt64) (w : ι) :
    outstanding (shard.flush height) w = outstanding shard w := by
  rw [Shard.flush_eq]
  unfold outstanding jobsFor
  apply List.Perm.countP_eq
  simp only [jobs, GroupStream.values_xaddAll, List.append_assoc]
  apply List.Perm.append_left
  simp only [SortedSet.members, SortedSet.restrict, ← List.map_append]
  apply List.Perm.map
  -- what is below the height and what is not, together, is the pending set
  have hsplit := List.filter_append_perm (fun e : Nat × T => decide (e.1 < score height))
    shard.pendingSet.entries
  have hrest : shard.pendingSet.entries.filter (fun e => !decide (e.1 < score height)) =
      shard.pendingSet.entries.filter (fun e => score height ≤ e.1) := by
    apply List.filter_congr
    intro e _
    rw [← decide_not]
    exact decide_eq_decide.2 Nat.not_lt
  rw [hrest] at hsplit
  exact hsplit

/-- `Flush` keeps the property. -/
theorem conserved_flush {shard : Shard κ ι T} (h : Conserved shard) (height : UInt64) :
    Conserved (shard.flush height) := by
  intro w
  rw [outstanding_flush, h w, Shard.flush_eq]

/-- Activation adds one job for each webhook that enters the set. -/
theorem conserved_activate {shard : Shard κ ι T} (h : Conserved shard) (ids : List ι) :
    Conserved (shard.activate ids) := by
  intro w
  have hw := h w
  rw [outstanding_eq] at hw ⊢
  simp only [Shard.webhookStream_activate, Shard.webhookSet_activate, Finset.mem_union,
    List.mem_toFinset]
  by_cases hnew : w ∈ ids ∧ w ∉ shard.webhookSet
  · -- `w` had no job and gets the one the script encodes
    rw [if_neg hnew.2] at hw
    have hone : jobsFor w (shard.activate ids).pendingSet.members =
        jobsFor w [(JobText.encode w : T)] := by
      apply jobsFor_congr (SortedSet.members_nodup _) (List.nodup_singleton _)
      intro job hjob
      rw [Shard.mem_members_activate, List.mem_singleton]
      constructor
      · -- an old job of `w` would have been counted
        intro hor
        cases hor with
        | inl hin =>
          have hpos := jobsFor_pos hin hjob
          omega
        | inr hin =>
          obtain ⟨id, -, -, rfl⟩ := hin
          rw [webhookOf_encode, Option.some.injEq] at hjob
          rw [hjob]
      · intro heq
        exact .inr ⟨w, hnew.1, hnew.2, heq.symm⟩
    have hzero : jobsFor w ([] : List T) = 0 := rfl
    rw [hone, jobsFor_cons, if_pos (webhookOf_encode w), if_pos (.inr hnew.1)]
    omega
  · -- the script adds no job of `w`
    have hsame : jobsFor w (shard.activate ids).pendingSet.members =
        jobsFor w shard.pendingSet.members := by
      apply jobsFor_congr (SortedSet.members_nodup _) (SortedSet.members_nodup _)
      intro job hjob
      rw [Shard.mem_members_activate]
      apply or_iff_left
      intro hin
      obtain ⟨id, hid, hidset, rfl⟩ := hin
      rw [webhookOf_encode, Option.some.injEq] at hjob
      subst hjob
      exact hnew ⟨hid, hidset⟩
    rw [hsame, hw]
    by_cases hset : w ∈ shard.webhookSet
    · rw [if_pos hset, if_pos (.inl hset)]
    · rw [if_neg hset, if_neg]
      intro hor
      exact hnew ⟨hor.resolve_left hset, hset⟩

omit [LinearOrder T] in
/-- `XAckDel` takes its entry from the stream. -/
theorem jobsFor_xAckDel {stream : GroupStream κ T} {id : Nat} {job : T}
    (h : (id, job) ∈ stream.entries) (w : ι) :
    jobsFor w (stream.entries.map Prod.snd) =
      jobsFor w ((Native.xAckDel stream [id]).entries.map Prod.snd) +
        if webhookOf job = some w then 1 else 0 := by
  rw [← jobsFor_cons]
  exact List.Perm.countP_eq _ (GroupStream.values_xdel_perm h)

/-- `XAckDel` of a job in the stream keeps the property; the new message is for the same
    webhook. -/
theorem conserved_xAckDel {shard : Shard κ ι T} (h : Conserved shard)
    {oldMsg : ParsedStreamMessage (WebhookStreamMsgData ι)} {job : T}
    (hentry : (oldMsg.id, job) ∈ shard.webhookStream.entries)
    (hjob : JobText.parse job = some oldMsg.data) {newMsg : Option (WebhookStreamMsgData ι)}
    (hnew : ∀ data, newMsg = some data → data.webhookID = oldMsg.data.webhookID) :
    Conserved (shard.xAckDel oldMsg newMsg) := by
  have hwebhook : webhookOf job = some oldMsg.data.webhookID := by
    rw [webhookOf, hjob, Option.map_some]
  intro w
  have hw := h w
  rw [outstanding_eq, jobsFor_xAckDel hentry] at hw
  cases newMsg with
  | none =>
    rw [outstanding_eq]
    simp only [Shard.xAckDel, Finset.mem_erase]
    by_cases heq : w = oldMsg.data.webhookID
    · -- the one job of `w` goes together with `w`
      subst heq
      rw [if_pos hwebhook] at hw
      rw [if_neg (fun hand => hand.1 rfl)]
      split at hw
      · omega
      · omega
    · -- nothing changes for the other webhooks
      rw [if_neg (fun hsome => heq (Option.some.inj (hsome.symm.trans hwebhook)))] at hw
      simp only [heq, ne_eq, not_false_eq_true, true_and]
      exact hw
  | some data =>
    have hsame : webhookOf (JobText.marshal data : T) = webhookOf job := by
      rw [webhookOf_marshal, hwebhook, hnew data rfl]
    -- the job in the stream is the only one of its webhook, so none is pending
    have hfresh : (JobText.marshal data : T) ∉ shard.pendingSet.members := by
      intro hin
      have hold := h oldMsg.data.webhookID
      rw [outstanding_eq, jobsFor_xAckDel hentry, if_pos hwebhook] at hold
      have hpos := jobsFor_pos hin (hsame.trans hwebhook)
      split at hold
      · omega
      · omega
    have hpark : jobsFor w
        (shard.pendingSet.zadd (score data.blockHeight) (JobText.marshal data)).members =
          jobsFor w shard.pendingSet.members + if webhookOf job = some w then 1 else 0 := by
      rw [← hsame, ← jobsFor_cons]
      exact List.Perm.countP_eq _ ((SortedSet.entries_zadd_perm hfresh).map Prod.snd)
    rw [outstanding_eq]
    by_cases hb : shard.Behind data.blockHeight
    · -- one job leaves the stream, one enters it
      have hback : jobsFor w
          (((Native.xAckDel shard.webhookStream [oldMsg.id]).xadd
            (JobText.marshal data)).entries.map Prod.snd) =
          jobsFor w ((Native.xAckDel shard.webhookStream [oldMsg.id]).entries.map Prod.snd) +
            if webhookOf job = some w then 1 else 0 := by
        rw [← hsame, ← jobsFor_cons, GroupStream.entries_xadd, List.map_append]
        exact List.Perm.countP_eq _ (List.perm_append_singleton _ _)
      rw [Shard.xAckDel_behind hb]
      simp only [hback]
      exact hw
    · -- one job leaves the stream, one enters the pending set
      rw [Shard.xAckDel_parked hb]
      simp only [hpark]
      omega

end Jobs

/-! ## Runs of a shard -/

section Runs

variable {κ ι T β : Type} [DecidableEq κ] [DecidableEq ι] [LinearOrder T] [JobText ι T]

/-- The new message that a handler is about to send is for the webhook of the old one. -/
def SameWebhook (consumer : RelayConsumer ι β) : Prop :=
  ∀ msg msgs isBacklogMsg newMsg, consumer.loop = .handler (msg :: msgs) isBacklogMsg →
    consumer.call = .xAckDel (some newMsg) → newMsg.webhookID = msg.data.webhookID

/-- The invariant of a shard and its consumers. -/
structure ConservationInv (s : RelayState κ ι T β) : Prop where
  conserved : Conserved s.shard
  handed : ∀ c, Handed JobText.parse s.shard.webhookStream c (s.consumers c).loop
  sameWebhook : ∀ c, SameWebhook (s.consumers c)

omit [DecidableEq κ] [DecidableEq ι] [LinearOrder T] [JobText ι T] in
theorem sameWebhook_first (loop : Subscriber (WebhookStreamMsgData ι)) :
    SameWebhook (⟨loop, .webhooksFindOne⟩ : RelayConsumer ι β) := by
  intro msg msgs isBacklogMsg newMsg _ hcall
  cases hcall

theorem conservationInv_init : ConservationInv (.init : RelayState κ ι T β) where
  conserved := by
    intro w
    rfl
  handed := fun c => handed_start _ _ c
  sameWebhook := fun _ => sameWebhook_first _

omit [DecidableEq ι] in
/-- `Flush` adds entries to the stream. -/
private theorem handed_flush {shard : Shard κ ι T} {c : κ}
    {loop : Subscriber (WebhookStreamMsgData ι)}
    (h : Handed JobText.parse shard.webhookStream c loop) (height : UInt64) :
    Handed JobText.parse (shard.flush height).webhookStream c loop := by
  rw [Shard.flush_eq]
  apply h.mono
  · rw [GroupStream.pelIds_xaddAll]
    exact List.Subset.refl _
  · exact GroupStream.entries_xaddAll_subset _ _

/-- `XAckDel` leaves the messages of a handler that works on something else. -/
theorem handed_xAckDel {shard : Shard κ ι T} {c : κ}
    {loop : Subscriber (WebhookStreamMsgData ι)}
    (h : Handed JobText.parse shard.webhookStream c loop)
    {msg : ParsedStreamMessage (WebhookStreamMsgData ι)} (hmsg : ∀ m ∈ handed loop, m.id ≠ msg.id)
    (newMsg : Option (WebhookStreamMsgData ι)) :
    Handed JobText.parse (shard.xAckDel msg newMsg).webhookStream c loop := by
  have hack : Handed JobText.parse (Native.xAckDel shard.webhookStream [msg.id]) c loop :=
    h.xAckDel fun m hm hmem => hmsg m hm (List.mem_singleton.1 hmem)
  cases newMsg with
  | none => exact hack
  | some data =>
    by_cases hb : shard.Behind data.blockHeight
    · rw [Shard.xAckDel_behind hb]
      exact hack.mono (List.Subset.refl _) (List.subset_append_left _ _)
    · rw [Shard.xAckDel_parked hb]
      exact hack

/-- A new message that the handler decides on is for the webhook of its message. -/
private theorem handlerStep_sameWebhook {c : κ} {webhooks : ι → Option Webhook}
    {shard shard' : Shard κ ι T} {msg : ParsedStreamMessage (WebhookStreamMsgData ι)}
    {isBacklogMsg : Bool} {call : RelayCall ι β} {action : ConsumerAction β}
    {newMsg : WebhookStreamMsgData ι}
    (h : HandlerStep c webhooks shard msg isBacklogMsg call action shard'
      (some (.xAckDel (some newMsg)))) : newMsg.webhookID = msg.data.webhookID := by
  -- the job moves on after a POST or after too many retries
  cases h with
  | exhausted _ _ _ _ => rfl
  | post _ _ _ => rfl

/-- It is enough to look at the shard, at the consumer that moves, and at the messages of the
    others. -/
private theorem ConservationInv.update {s : RelayState κ ι T β} (h : ConservationInv s) {c : κ}
    {shard : Shard κ ι T} {consumer : RelayConsumer ι β} (hcons : Conserved shard)
    (hc : Handed JobText.parse shard.webhookStream c consumer.loop) (hsame : SameWebhook consumer)
    (hothers : ∀ d, c ≠ d → Handed JobText.parse shard.webhookStream d (s.consumers d).loop) :
    ConservationInv
      { s with shard := shard, consumers := Function.update s.consumers c consumer } := by
  refine ⟨hcons, ?_, ?_⟩
  · intro d
    by_cases hd : d = c
    · subst hd
      simp only [Function.update_self]
      exact hc
    · simp only [Function.update_of_ne hd]
      exact hothers d (Ne.symm hd)
  · intro d
    by_cases hd : d = c
    · subst hd
      simp only [Function.update_self]
      exact hsame
    · simp only [Function.update_of_ne hd]
      exact h.sameWebhook d

/-- An action of a consumer keeps the invariant. -/
private theorem conservationInv_consumer {s : RelayState κ ι T β} (h : ConservationInv s) {c : κ}
    {action : ConsumerAction β} {shard : Shard κ ι T} {consumer : RelayConsumer ι β}
    (hstep : ConsumerStep c s.webhooks s.shard (s.consumers c) action shard consumer) :
    ConservationInv
      { s with shard := shard, consumers := Function.update s.consumers c consumer } := by
  have hc := h.handed c
  have hsame := h.sameWebhook c
  generalize s.consumers c = old at hstep hc hsame
  cases hstep with
  | crash =>
    exact h.update h.conserved (handed_start _ _ c) (sameWebhook_first _) fun d _ => h.handed d
  | readBacklog cursorId call loop stream hread =>
    have hhanded := handed_readBacklog hread
    obtain ⟨rfl, -⟩ := readBacklog_cases hread
    refine h.update h.conserved hhanded
      (sameWebhook_first loop) fun d _ => ?_
    apply (h.handed d).mono
    · rw [GroupStream.pelIds_xreadgroupFrom]
      exact List.Subset.refl _
    · exact List.Subset.refl _
  | readNew call loop stream hread =>
    have hhanded := handed_readNew hread
    obtain ⟨rfl, -, -⟩ := readNew_cases hread
    refine h.update h.conserved hhanded
      (sameWebhook_first loop) fun d hd => ?_
    apply (h.handed d).mono
    · rw [GroupStream.pelIds_xreadgroupNew_ne _ hd]
      exact List.Subset.refl _
    · exact List.Subset.refl _
  | call msg msgs isBacklogMsg call call' _ _ hcall =>
    -- only the last call of the handler touches the shard
    have hshard : shard = s.shard := by
      cases hcall <;> rfl
    subst hshard
    refine h.update h.conserved hc ?_ fun d _ => h.handed d
    intro msg' msgs' isBacklogMsg' newMsg hloop hnew
    cases hloop
    subst hnew
    exact handlerStep_sameWebhook hcall
  | handled msg msgs isBacklogMsg call _ _ hcall =>
    cases handlerStep_shard hcall with
    | inl hshard =>
      subst hshard
      exact h.update h.conserved (handed_handled _ _ c _ _) (sameWebhook_first _)
        fun d _ => h.handed d
    | inr hack =>
      obtain ⟨newMsg, rfl, rfl⟩ := hack
      -- the message is still in the stream, pending for `c`
      obtain ⟨hpending, job, hentry, hjob⟩ := hc msg List.mem_cons_self
      refine h.update ?_ (handed_handled _ _ c _ _) (sameWebhook_first _) ?_
      · apply conserved_xAckDel h.conserved hentry hjob
        intro data hdata
        subst hdata
        exact hsame msg msgs isBacklogMsg data rfl rfl
      · -- an ID is pending for one consumer only
        intro d hd
        apply handed_xAckDel (h.handed d)
        intro m hm heq
        have hother := (h.handed d m hm).1
        rw [heq] at hother
        exact hd (GroupStream.pelIds_owner hpending hother)

/-- Every action keeps the invariant. -/
theorem conservationInv_step {s s' : RelayState κ ι T β} {a : RelayAction κ ι β}
    (hstep : s.step a = some s') (h : ConservationInv s) : ConservationInv s' := by
  cases a with
  | activate ids =>
    cases hstep
    refine ⟨conserved_activate h.conserved ids, fun c => ?_, h.sameWebhook⟩
    rw [Shard.webhookStream_activate]
    exact h.handed c
  | flush height =>
    cases hstep
    exact ⟨conserved_flush h.conserved height, fun c => handed_flush (h.handed c) height,
      h.sameWebhook⟩
  | setWebhook id webhook =>
    cases hstep
    exact ⟨h.conserved, h.handed, h.sameWebhook⟩
  | consumer c action =>
    obtain ⟨shard, consumer, hmove, rfl⟩ := consumerStep_of_relayStep hstep
    exact conservationInv_consumer h hmove

/-- The job that a consumer works on is the only one of its webhook. -/
theorem only_job_of_handed {s : RelayState κ ι T β} (h : ConservationInv s) {c : κ}
    {msg : ParsedStreamMessage (WebhookStreamMsgData ι)}
    (hmsg : msg ∈ handed (s.consumers c).loop) :
    msg.data.webhookID ∈ s.shard.webhookSet ∧
      (∀ e ∈ s.shard.webhookStream.entries, webhookOf e.2 = some msg.data.webhookID →
        e.1 = msg.id) ∧
      ∀ job ∈ s.shard.pendingSet.members, webhookOf job ≠ some msg.data.webhookID := by
  obtain ⟨-, job, hentry, hjob⟩ := h.handed c msg hmsg
  have hwebhook : webhookOf job = some msg.data.webhookID := by
    rw [webhookOf, hjob, Option.map_some]
  have hone := h.conserved msg.data.webhookID
  rw [outstanding_eq, jobsFor_xAckDel hentry, if_pos hwebhook] at hone
  refine ⟨?_, ?_, ?_⟩
  · -- a webhook with a job is in the set
    by_contra hnot
    rw [if_neg hnot] at hone
    omega
  · intro e he hw
    by_contra hne
    -- another entry would still be there after this one is gone
    have hrest : e ∈ (Native.xAckDel s.shard.webhookStream [msg.id]).entries :=
      List.mem_filter.2 ⟨he, decide_eq_true fun hid => hne (List.mem_singleton.1 hid)⟩
    have hpos := jobsFor_pos (List.mem_map_of_mem hrest) hw
    split at hone <;> omega
  · intro job' hjob' hw
    have hpos := jobsFor_pos hjob' hw
    split at hone <;> omega

theorem conservationInv_run {as : List (RelayAction κ ι β)} {s : RelayState κ ι T β}
    (h : run RelayState.step .init as = some s) : ConservationInv s :=
  run_invariant (fun _ _ _ => conservationInv_step) h conservationInv_init

/-- In every run of a shard each webhook in the webhook set has exactly one outstanding job,
    and every other webhook has none. -/
theorem jobs_conserved {as : List (RelayAction κ ι β)} {s : RelayState κ ι T β}
    (h : run RelayState.step .init as = some s) (w : ι) :
    outstanding s.shard w = if w ∈ s.shard.webhookSet then 1 else 0 :=
  (conservationInv_run h).conserved w

end Runs

/-- A webhook is activated twice in one call, its job is read, its row disappears while a
    consumer crashes, and it is activated again after the job is gone. -/
def removeAndReactivate : List (RelayAction Bool Nat Nat) :=
  [.setWebhook 7 (some ⟨2, 3⟩), .activate [7, 7], .flush 5, .consumer true .readBacklog,
    .consumer true .readNew, .consumer true .webhooksFindOne, .setWebhook 7 none,
    .consumer true .crash, .consumer true .readBacklog, .consumer true .webhooksFindOne,
    .consumer true .xAckDel, .activate [7, 8]]

theorem jobs_conserved_removeAndReactivate :
    ∃ s : RelayState Bool Nat TupleText Nat,
      run RelayState.step .init removeAndReactivate = some s ∧
        outstanding s.shard 7 = if 7 ∈ s.shard.webhookSet then 1 else 0 :=
  ⟨_, rfl, jobs_conserved (show run RelayState.step .init removeAndReactivate = some _ from rfl) 7⟩

end BlockFeed.Spec
