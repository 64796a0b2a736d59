import BlockFeed.Spec.JobConservation

/-!
# Running `XAckDel` twice

A client that loses the reply of `XAckDel` sends the script again. Between the two executions
anything may happen to the shard. The old entry is gone by then and its ID never comes back, so
the second execution acknowledges nothing; what it does with the new message depends on where the
latest block height and the first copy of the job are now.

ZADD of a member that is there changes its score only, but XADD always makes a new entry. So a
second execution is harmless exactly when it parks a job that is still parked, or when the webhook
has no job left (`xAckDel_twice_iff`).
-/

namespace BlockFeed.Spec

open BlockFeed.Native Redis Transition

section Again

variable {κ ι T : Type} [DecidableEq ι] [LinearOrder T] [JobText ι T]

/-- No webhook has two jobs. -/
def OneJobEach (shard : Shard κ ι T) : Prop := ∀ w, outstanding shard w ≤ 1

/-- A new message that can be sent again: its webhook has no job, or it would be parked where it
    is parked already. -/
def Repeatable (shard : Shard κ ι T) (newMsg : Option (WebhookStreamMsgData ι)) : Prop :=
  ∀ data, newMsg = some data → data.webhookID ∉ shard.webhookSet ∨
    ¬ shard.Behind data.blockHeight ∧ (JobText.marshal data : T) ∈ shard.pendingSet.members

/-! ### The old entry stays away -/

/-- Once `XAckDel` has run, the old entry is deleted. -/
theorem deleted_xAckDel {shard : Shard κ ι T}
    {oldMsg : ParsedStreamMessage (WebhookStreamMsgData ι)} {job : T}
    (hentry : (oldMsg.id, job) ∈ shard.webhookStream.entries)
    (newMsg : Option (WebhookStreamMsgData ι)) :
    (shard.xAckDel oldMsg newMsg).webhookStream.Deleted oldMsg.id := by
  have hack : (Native.xAckDel shard.webhookStream [oldMsg.id]).Deleted oldMsg.id :=
    GroupStream.deleted_xdel (s := shard.webhookStream.xack [oldMsg.id]) hentry
  obtain ⟨jobs, hstream⟩ := Shard.webhookStream_xAckDel shard oldMsg newMsg
  rw [hstream]
  exact hack.xaddAll jobs

/-- Nothing brings it back. -/
theorem deleted_step {β : Type} [DecidableEq κ] {s s' : RelayState κ ι T β}
    {a : RelayAction κ ι β} (hstep : s.step a = some s') {id : Nat}
    (h : s.shard.webhookStream.Deleted id) : s'.shard.webhookStream.Deleted id := by
  have hstream := streamStep_of_step hstep
  generalize s'.shard.webhookStream = stream at hstream
  cases hstream with
  | xadd _ jobs => exact h.xaddAll jobs
  | readBacklog c action cursorId => exact h
  | readNew c action => exact h
  | xAckDel c action other jobs =>
    have hxack : (s.shard.webhookStream.xack [other]).Deleted id := h
    have hack : (Native.xAckDel s.shard.webhookStream [other]).Deleted id := hxack.xdel _
    exact hack.xaddAll jobs

/-! ### The second execution -/

/-- Once the old entry is gone, only the new message counts: with XADD it is one more job, with
    ZADD only if it is not parked yet. -/
theorem outstanding_xAckDel_again {shard : Shard κ ι T}
    {oldMsg : ParsedStreamMessage (WebhookStreamMsgData ι)}
    (h : shard.webhookStream.Deleted oldMsg.id) (data : WebhookStreamMsgData ι) (w : ι) :
    outstanding (shard.xAckDel oldMsg (some data)) w = outstanding shard w +
      if (shard.Behind data.blockHeight ∨ (JobText.marshal data : T) ∉ shard.pendingSet.members) ∧
        data.webhookID = w then 1 else 0 := by
  have hxack : (shard.webhookStream.xack [oldMsg.id]).Deleted oldMsg.id := h
  have hentries : (Native.xAckDel shard.webhookStream [oldMsg.id]).entries =
      shard.webhookStream.entries := hxack.entries_xdel
  have hwebhook : webhookOf (JobText.marshal data : T) = some w ↔ data.webhookID = w := by
    rw [webhookOf_marshal, Option.some.injEq]
  rw [outstanding_eq, outstanding_eq]
  by_cases hb : shard.Behind data.blockHeight
  · -- XADD
    have hback : jobsFor w
        (((Native.xAckDel shard.webhookStream [oldMsg.id]).xadd
          (JobText.marshal data)).entries.map Prod.snd) =
        jobsFor w (shard.webhookStream.entries.map Prod.snd) +
          if data.webhookID = w then 1 else 0 := by
      rw [← if_congr hwebhook rfl rfl, ← jobsFor_cons, GroupStream.entries_xadd, hentries,
        List.map_append]
      exact List.Perm.countP_eq _ (List.perm_append_singleton _ _)
    rw [Shard.xAckDel_behind hb]
    simp only [hback, hb, true_or, true_and]
    omega
  · rw [Shard.xAckDel_parked hb]
    simp only [hentries, hb, false_or]
    by_cases hin : (JobText.marshal data : T) ∈ shard.pendingSet.members
    · -- ZADD of a member
      have hsame : jobsFor w
          (shard.pendingSet.zadd (score data.blockHeight) (JobText.marshal data)).members =
            jobsFor w shard.pendingSet.members := by
        apply jobsFor_congr (SortedSet.members_nodup _) (SortedSet.members_nodup _)
        intro job _
        rw [SortedSet.mem_members_zadd]
        exact or_iff_left_of_imp fun heq => heq ▸ hin
      simp only [hsame, hin, not_true_eq_false, false_and, if_false, Nat.add_zero]
    · -- ZADD of a new member
      have hpark : jobsFor w
          (shard.pendingSet.zadd (score data.blockHeight) (JobText.marshal data)).members =
            jobsFor w shard.pendingSet.members + if data.webhookID = w then 1 else 0 := by
        rw [← if_congr hwebhook rfl rfl, ← jobsFor_cons]
        exact List.Perm.countP_eq _ ((SortedSet.entries_zadd_perm hin).map Prod.snd)
      simp only [hpark, hin, not_false_eq_true, true_and]
      omega

/-- On a shard that conserves its jobs the second execution is harmless exactly for a repeatable
    message. -/
theorem oneJobEach_again {shard : Shard κ ι T} (hcons : Conserved shard)
    {oldMsg : ParsedStreamMessage (WebhookStreamMsgData ι)}
    (h : shard.webhookStream.Deleted oldMsg.id) (newMsg : Option (WebhookStreamMsgData ι)) :
    OneJobEach (shard.xAckDel oldMsg newMsg) ↔ Repeatable shard newMsg := by
  cases newMsg with
  | none =>
    -- nothing is added
    have hxack : (shard.webhookStream.xack [oldMsg.id]).Deleted oldMsg.id := h
    have hentries : (Native.xAckDel shard.webhookStream [oldMsg.id]).entries =
        shard.webhookStream.entries := hxack.entries_xdel
    refine iff_of_true (fun w => ?_) (fun data hdata => by cases hdata)
    have hw := hcons w
    rw [outstanding_eq] at hw ⊢
    simp only [Shard.xAckDel, hentries]
    split at hw <;> omega
  | some data =>
    constructor
    · intro hone data' hdata
      cases hdata
      have hw := hcons data.webhookID
      have hle := hone data.webhookID
      rw [outstanding_xAckDel_again h, hw] at hle
      by_cases hset : data.webhookID ∈ shard.webhookSet
      · -- the webhook has a job, so there is no room for another one
        right
        rw [if_pos hset] at hle
        constructor
        · intro hb
          rw [if_pos ⟨.inl hb, rfl⟩] at hle
          omega
        · by_contra hnot
          rw [if_pos ⟨.inr hnot, rfl⟩] at hle
          omega
      · exact .inl hset
    · intro hrep w
      have hw := hcons w
      rw [outstanding_xAckDel_again h, hw]
      cases hrep data rfl with
      | inl hset =>
        by_cases heq : data.webhookID = w
        · subst heq
          rw [if_neg hset]
          split <;> omega
        · simp only [heq, and_false, if_false]
          split <;> omega
      | inr hparked =>
        have hno : ¬ ((shard.Behind data.blockHeight ∨
            (JobText.marshal data : T) ∉ shard.pendingSet.members) ∧ data.webhookID = w) := by
          rintro ⟨hb | hnot, -⟩
          · exact hparked.1 hb
          · exact hnot hparked.2
        rw [if_neg hno]
        split <;> omega

end Again

/-! ## Two executions in a run -/

section Runs

variable {κ ι T β : Type} [DecidableEq κ] [DecidableEq ι] [LinearOrder T] [JobText ι T]

/-- The first execution keeps the invariant once its consumer has moved on. -/
private theorem conservationInv_executed {s : RelayState κ ι T β} (h : ConservationInv s) {c : κ}
    {oldMsg : ParsedStreamMessage (WebhookStreamMsgData ι)} {job : T}
    (hentry : (oldMsg.id, job) ∈ s.shard.webhookStream.entries)
    (hjob : JobText.parse job = some oldMsg.data)
    (hothers : ∀ d, d ≠ c → oldMsg ∉ handed (s.consumers d).loop)
    {newMsg : Option (WebhookStreamMsgData ι)}
    (hnew : ∀ data, newMsg = some data → data.webhookID = oldMsg.data.webhookID)
    {consumer : RelayConsumer ι β} (hmoved : handed consumer.loop = []) :
    ConservationInv
      { s with
        shard := s.shard.xAckDel oldMsg newMsg
        consumers := Function.update s.consumers c consumer } where
  conserved := conserved_xAckDel h.conserved hentry hjob hnew
  handed := by
    intro d
    by_cases hd : d = c
    · subst hd
      intro m hm
      simp only [Function.update_self, hmoved] at hm
      cases hm
    · simp only [Function.update_of_ne hd]
      apply handed_xAckDel (h.handed d)
      -- a message with the same ID is the same message
      intro m hm heq
      obtain ⟨-, v, hv, hparse⟩ := h.handed d m hm
      rw [heq] at hv
      rw [GroupStream.entry_unique hv hentry, hjob] at hparse
      have hsame : m = oldMsg := by
        cases m
        cases oldMsg
        cases heq
        cases hparse
        rfl
      exact hothers d hd (hsame ▸ hm)
  sameWebhook := by
    intro d
    by_cases hd : d = c
    · subst hd
      intro msg msgs isBacklogMsg newMsg' hloop
      simp only [Function.update_self] at hloop
      rw [hloop] at hmoved
      cases hmoved
    · simp only [Function.update_of_ne hd]
      exact h.sameWebhook d

/-- `XAckDel` is executed once for a message in the stream, its consumer goes on, and after any
    further actions the same script is executed again. Then no webhook has two jobs if and only if
    the new message is repeatable at that point. -/
theorem xAckDel_twice_iff {before between : List (RelayAction κ ι β)}
    {s s' : RelayState κ ι T β} (hbefore : run RelayState.step .init before = some s) {c : κ}
    {oldMsg : ParsedStreamMessage (WebhookStreamMsgData ι)} {job : T}
    (hentry : (oldMsg.id, job) ∈ s.shard.webhookStream.entries)
    (hjob : JobText.parse job = some oldMsg.data)
    (hothers : ∀ d, d ≠ c → oldMsg ∉ handed (s.consumers d).loop)
    {newMsg : Option (WebhookStreamMsgData ι)}
    (hnew : ∀ data, newMsg = some data → data.webhookID = oldMsg.data.webhookID)
    {consumer : RelayConsumer ι β} (hmoved : handed consumer.loop = [])
    (hbetween : run RelayState.step
      { s with
        shard := s.shard.xAckDel oldMsg newMsg
        consumers := Function.update s.consumers c consumer } between = some s') :
    OneJobEach (s'.shard.xAckDel oldMsg newMsg) ↔ Repeatable s'.shard newMsg := by
  have hexecuted := conservationInv_executed (conservationInv_run hbefore) hentry hjob hothers hnew
    hmoved
  have hinv : ConservationInv s' :=
    run_invariant (fun _ _ _ => conservationInv_step) hbetween hexecuted
  have hdeleted : s'.shard.webhookStream.Deleted oldMsg.id :=
    run_invariant (P := fun s => s.shard.webhookStream.Deleted oldMsg.id)
      (fun _ _ _ hstep => deleted_step hstep) hbetween (deleted_xAckDel hentry newMsg)
  exact oneJobEach_again hinv.conserved hdeleted newMsg

end Runs

/-- A consumer holds the first message of a webhook; the latest height is 5. -/
def readOnce : List (RelayAction Bool Nat Nat) :=
  [.activate [7], .flush 5, .consumer true .readBacklog, .consumer true .readNew]

/-- The job is parked and another webhook comes in before the script runs again. -/
theorem xAckDel_twice_parked :
    ∃ s s' : RelayState Bool Nat TupleText Nat,
      run RelayState.step .init readOnce = some s ∧
      run RelayState.step
        { s with
          shard := s.shard.xAckDel ⟨1, 7, 0, true⟩ (some ⟨7, 6, false⟩)
          consumers := Function.update s.consumers true .start } [.activate [8]] = some s' ∧
      Repeatable s'.shard (some ⟨7, 6, false⟩) ∧
      OneJobEach (s'.shard.xAckDel ⟨1, 7, 0, true⟩ (some ⟨7, 6, false⟩)) := by
  have hrep : ∀ s' : RelayState Bool Nat TupleText Nat,
      s'.shard.latestBlockHeight = some 5 →
      (JobText.marshal (⟨7, 6, false⟩ : WebhookStreamMsgData Nat) : TupleText) ∈
        s'.shard.pendingSet.members →
      Repeatable s'.shard (some ⟨7, 6, false⟩) := by
    intro s' hlatest hin data hdata
    cases hdata
    refine .inr ⟨?_, hin⟩
    rw [Shard.behind_iff hlatest]
    decide
  refine ⟨_, _, rfl, rfl, hrep _ rfl (by decide), ?_⟩
  refine (@xAckDel_twice_iff _ _ _ _ _ _ _ _ readOnce [.activate [8]] _ _ rfl true _
    (JobText.encode 7 : TupleText) (by decide) rfl ?_ _ ?_ .start rfl rfl).2
    (hrep _ rfl (by decide))
  · intro d hd
    cases d with
    | true => exact absurd rfl hd
    | false => exact List.not_mem_nil
  · intro data hdata
    cases hdata
    rfl

/-- The job is behind the latest height, and the script runs again at once. -/
theorem not_xAckDel_twice :
    ∃ s : RelayState Bool Nat TupleText Nat,
      run RelayState.step .init readOnce = some s ∧
      outstanding s.shard 7 = 1 ∧
      ¬ OneJobEach ((s.shard.xAckDel ⟨1, 7, 0, true⟩ (some ⟨7, 3, false⟩)).xAckDel
        ⟨1, 7, 0, true⟩ (some ⟨7, 3, false⟩)) := by
  refine ⟨_, rfl, by decide, fun hone => ?_⟩
  exact absurd (hone 7) (by decide)

end BlockFeed.Spec
