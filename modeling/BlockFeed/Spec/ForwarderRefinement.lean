import BlockFeed.ForStd.Transition
import BlockFeed.Native.BlockForwarder

/-!
# A forwarder refines the forwarder of the feed

In `Feed` a forwarder is a height: it posts the block at this height and moves on to the next one.
The process behind it runs a block source, which may ask for the tip of the chain, lose
subscriptions and fetch blocks, and whose handler may lose the reply of an `XADD`. `Posts` says
what a source has to do so that every run of the process, with everything else in the feed, is a
run of `Feed` with the same stream, router, stores and shards, and with the same calls of the other
processes (`forwarderFeed_refines`). What is proved of every run of `Feed` then holds with the
process.

`Feed` chooses the tip when the wrapped store turns out to be empty, a source learns it later. So
a source may stand for several forwarders of `Feed`, and there is a run of `Feed` for each of them.
-/

namespace BlockFeed.Spec

open BlockFeed.Native Transition

section ForwarderRefinement

variable {δ κ ι T σ α β : Type}

/-- Where its calls come out as `Q` says, a source posts one height after the other. -/
structure Posts (source : BlockSource σ α β) (Q : σ → α → Prop) where
  /-- what its steps keep -/
  Ok : σ → Prop
  /-- the forwarders of `Feed` that it stands for -/
  Stands : σ → Forwarder → Prop
  stands : ∀ {s}, Ok s → ∃ f, Stands s f
  ok_subscribe : ∀ startHeight, Ok (source.subscribe startHeight)
  /-- it starts at the height it is given -/
  subscribe_some : ∀ {height f}, Stands (source.subscribe (some height)) f → f = .subscribed height
  /-- or at any height -/
  subscribe_none : ∀ {f}, Stands (source.subscribe none) f → ∃ tip, f = .subscribed tip
  /-- a call or a receive settles at most which height comes next, or ends the source -/
  quiet : ∀ {s s' a}, Ok s → source.handling s = none → Q s a → source.step s a = some s' →
    Ok s' ∧ ∀ f, Stands s' f → Stands s f ∨ f = .stopped
  /-- the handler runs for the block at that height, and then comes the one above -/
  handled : ∀ {s s' block}, Ok s → source.handling s = some block →
    source.step s (source.handled true) = some s' →
    Ok s' ∧ Stands s (.subscribed block.height) ∧
      ∀ f, Stands s' f → f = .subscribed (block.height + 1) ∨ f = .stopped
  /-- an error of the handler ends the source -/
  failed : ∀ {s s' block}, Ok s → source.handling s = some block →
    source.step s (source.handled false) = some s' →
    Ok s' ∧ Stands s (.subscribed block.height) ∧ ∀ f, Stands s' f → f = .stopped

/-- The forwarders of `Feed` for a process in this position. -/
def StandsFor {source : BlockSource σ α β} {Q : σ → α → Prop} (posts : Posts source Q) :
    ForwarderMain σ → Forwarder → Prop
  | .readCache, f => f = .stopped
  | .readWrapped, f => f = .readWrapped
  | .running src, f => posts.Stands src f

section

variable {source : BlockSource σ α β} {Q : σ → α → Prop} {posts : Posts source Q}

/-- A process always stands for some forwarder. -/
theorem exists_standsFor {main : ForwarderMain σ}
    (h : ∀ src, main = .running src → posts.Ok src) : ∃ f, StandsFor posts main f := by
  cases main with
  | readCache => exact ⟨_, rfl⟩
  | readWrapped => exact ⟨_, rfl⟩
  | running src => exact posts.stands (h src rfl)

end

variable [DecidableEq δ] [DecidableEq κ] [DecidableEq ι] [LinearOrder T] [JobText ι T]
  [LinearOrder (BlockDocument β)]

/-- The calls of the source come out as `Q` says. -/
def SourceCalls (Q : σ → α → Prop) (s : ForwarderFeed δ κ ι T σ β) :
    ForwarderFeedAction δ κ ι α β → Prop
  | .source action =>
    match s.main with
    | .running src => Q src action
    | _ => True
  | _ => True

instance (Q : σ → α → Prop) [∀ src a, Decidable (Q src a)] (s : ForwarderFeed δ κ ι T σ β)
    (a : ForwarderFeedAction δ κ ι α β) : Decidable (SourceCalls Q s a) := by
  unfold SourceCalls
  split
  · split <;> infer_instance
  · infer_instance

/-- For each forwarder that the process may stand for there is a run of `Feed`. -/
structure ForwarderMatched {source : BlockSource σ α β} {Q : σ → α → Prop}
    (posts : Posts source Q) (batchSize : Nat) (webhookStreams : List δ)
    (as : List (ForwarderFeedAction δ κ ι α β)) (s : ForwarderFeed δ κ ι T σ β) : Prop where
  source : ∀ src, s.main = .running src → posts.Ok src
  matched : ∀ f, StandsFor posts s.main f → ∃ bs : List (FeedAction δ κ ι β),
    run (Feed.step batchSize webhookStreams) .init bs = some { s.feed with forwarder := f } ∧
      bs.filter (fun b => ¬ ForwarderFeed.isForwarder b) = as.filterMap ForwarderFeed.others

/-! ### Runs of `Feed` -/

omit [DecidableEq κ] [DecidableEq ι] [JobText ι T] in
private theorem applyEffect_withForwarder (s : Feed δ κ ι T β) (effect : Option (Effect δ β))
    (f : Forwarder) :
    Feed.applyEffect { s with forwarder := f } effect =
      { s.applyEffect effect with forwarder := f } := by
  cases effect with
  | none => rfl
  | some effect => cases effect <;> rfl

private theorem shardStep_withForwarder {s s' : Feed δ κ ι T β} {d : δ} {a : RelayAction κ ι β}
    (h : s.shardStep d a = some s') (f : Forwarder) :
    Feed.shardStep { s with forwarder := f } d a = some { s' with forwarder := f } := by
  unfold Feed.shardStep at h ⊢
  split at h
  · cases h
  · next shard hstep =>
    cases h
    simp only [hstep]

/-- A call of another process does not look at the forwarder. -/
theorem step_withForwarder {batchSize : Nat} {webhookStreams : List δ} {s s' : Feed δ κ ι T β}
    {action : FeedAction δ κ ι β} (hother : ForwarderFeed.isForwarder action = false)
    (h : s.step batchSize webhookStreams action = some s') (f : Forwarder) :
    Feed.step batchSize webhookStreams { s with forwarder := f } action =
      some { s' with forwarder := f } := by
  unfold Feed.step at h
  split at h
  · cases hother
  · cases hother
  · cases hother
  · cases hother
  · cases h
    rfl
  · next action =>
    split at h
    · cases h
    · next blockStream router effect hstep =>
      cases h
      simp only [Feed.step, hstep]
      rw [← applyEffect_withForwarder]
  · cases h
  · next action hput =>
    split at h
    · cases h
    · next stores hstep =>
      cases h
      simp only [Feed.step]
      rw [hstep]
  · cases h
  · cases h
  · cases h
  · next d a hflush hcache hwrapped =>
    have hshard := shardStep_withForwarder h f
    simp only [Feed.step]
    exact hshard
  · split at h
    · next hc =>
      simp only [Feed.step, hc]
      exact shardStep_withForwarder h f
    · cases h
  · split at h
    · next hc =>
      simp only [Feed.step, hc]
      exact shardStep_withForwarder h f
    · cases h

section Runs

variable {source : BlockSource σ α β} {Q : σ → α → Prop} {posts : Posts source Q}
  {batchSize : Nat} {webhookStreams : List δ}

/-- A run of `Feed` goes on. -/
private theorem ForwarderMatched.extend {as : List (ForwarderFeedAction δ κ ι α β)}
    {s : ForwarderFeed δ κ ι T σ β} (h : ForwarderMatched posts batchSize webhookStreams as s)
    (bs : List (FeedAction δ κ ι β)) {f : Forwarder} (hf : StandsFor posts s.main f)
    {t : Feed δ κ ι T β}
    (hrun : run (Feed.step batchSize webhookStreams) { s.feed with forwarder := f } bs = some t)
    {a : ForwarderFeedAction δ κ ι α β}
    (hothers : bs.filter (fun b => ¬ ForwarderFeed.isForwarder b) =
      (ForwarderFeed.others a).toList) :
    ∃ bs' : List (FeedAction δ κ ι β),
      run (Feed.step batchSize webhookStreams) .init bs' = some t ∧
        bs'.filter (fun b => ¬ ForwarderFeed.isForwarder b) =
          (as ++ [a]).filterMap ForwarderFeed.others := by
  obtain ⟨bs₀, hrun₀, hothers₀⟩ := h.matched f hf
  refine ⟨bs₀ ++ bs, run_append.2 ⟨_, hrun₀, hrun⟩, ?_⟩
  rw [List.filter_append, hothers₀, hothers, List.filterMap_append]
  cases ha : ForwarderFeed.others a <;> simp [ha]

/-- The process ends or moves without a call to Redis. -/
private theorem ForwarderMatched.quiet {as : List (ForwarderFeedAction δ κ ι α β)}
    {s : ForwarderFeed δ κ ι T σ β} (h : ForwarderMatched posts batchSize webhookStreams as s)
    {main : ForwarderMain σ} {a : ForwarderFeedAction δ κ ι α β}
    (ha : ForwarderFeed.others a = none) (hsource : ∀ src, main = .running src → posts.Ok src)
    (hf : ∀ f, StandsFor posts main f → StandsFor posts s.main f ∨ f = .stopped) :
    ForwarderMatched posts batchSize webhookStreams (as ++ [a]) { s with main := main } where
  source := hsource
  matched := by
    intro f hf'
    rcases hf f hf' with hsame | rfl
    · exact h.extend [] hsame rfl (by rw [ha]; rfl)
    · obtain ⟨f₀, hf₀⟩ := exists_standsFor h.source
      exact h.extend [.forwarderCrash] hf₀ rfl (by rw [ha]; rfl)

theorem forwarderMatched_init :
    ForwarderMatched posts batchSize webhookStreams ([] : List (ForwarderFeedAction δ κ ι α β))
      (.init : ForwarderFeed δ κ ι T σ β) where
  source := by
    intro src h
    cases h
  matched := by
    rintro f rfl
    exact ⟨[], rfl, rfl⟩

variable {as : List (ForwarderFeedAction δ κ ι α β)} {s s' : ForwarderFeed δ κ ι T σ β}

/-- The process starts from a stored block. -/
private theorem ForwarderMatched.stored (h : ForwarderMatched posts batchSize webhookStreams as s)
    {block : BlockDocument β} {a : ForwarderFeedAction δ κ ι α β}
    (ha : ForwarderFeed.others a = none) {f : Forwarder} (hf : StandsFor posts s.main f)
    {b : FeedAction δ κ ι β} (hb : ForwarderFeed.isForwarder b = true)
    (hstep : Feed.step batchSize webhookStreams { s.feed with forwarder := f } b =
      some { s.feed with forwarder := .subscribed block.height }) :
    ForwarderMatched posts batchSize webhookStreams (as ++ [a])
      { s with main := ForwarderFeed.startRun source (some block) } := by
  constructor
  · intro src h'
    cases h'
    exact posts.ok_subscribe _
  · intro f' hf'
    cases posts.subscribe_some hf'
    exact h.extend [b] hf (run_cons.2 ⟨_, hstep, rfl⟩) (by simp [ha, hb])

/-- The first half of `GetLatestBlock`. -/
private theorem ForwarderMatched.readCache
    (h : ForwarderMatched posts batchSize webhookStreams as s)
    (hstep : s.step source batchSize webhookStreams .readCache = some s') :
    ForwarderMatched posts batchSize webhookStreams (as ++ [.readCache]) s' := by
  simp only [ForwarderFeed.step] at hstep
  split at hstep
  · next hmain =>
    have hf : StandsFor posts s.main .stopped := by rw [hmain]; rfl
    split at hstep
    · next block hlatest =>
      cases hstep
      exact h.stored rfl hf (b := .forwarderReadCache) rfl
        (by simp only [Feed.step]; rw [hlatest])
    · next hlatest =>
      cases hstep
      refine ⟨fun src h' => (by cases h'), ?_⟩
      rintro f rfl
      exact h.extend [.forwarderReadCache] hf
        (run_cons.2 ⟨_, by simp only [Feed.step]; rw [hlatest], rfl⟩) rfl
  · cases hstep

/-- Its second half. -/
private theorem ForwarderMatched.readWrapped
    (h : ForwarderMatched posts batchSize webhookStreams as s)
    (hstep : s.step source batchSize webhookStreams .readWrapped = some s') :
    ForwarderMatched posts batchSize webhookStreams (as ++ [.readWrapped]) s' := by
  simp only [ForwarderFeed.step] at hstep
  split at hstep
  · next hmain =>
    have hf : StandsFor posts s.main .readWrapped := by rw [hmain]; rfl
    cases hstep
    cases hlatest : s.feed.stores.store.wrappedStore.getLatestBlock with
    | some block =>
      exact h.stored rfl hf (b := .forwarderReadWrapped 0) rfl
        (by simp only [Feed.step]; rw [hlatest])
    | none =>
      -- any tip may be the one that the source starts at
      refine ⟨fun src h' => (by cases h'; exact posts.ok_subscribe _), fun f hf' => ?_⟩
      obtain ⟨tip, rfl⟩ := posts.subscribe_none hf'
      exact h.extend [.forwarderReadWrapped tip] hf
        (run_cons.2 ⟨_, by simp only [Feed.step]; rw [hlatest], rfl⟩) rfl
  · cases hstep

/-- A call of the source that is not the handler's. -/
private theorem ForwarderMatched.sourceStep
    (h : ForwarderMatched posts batchSize webhookStreams as s) {action : α}
    (hcalls : SourceCalls Q s (.source action : ForwarderFeedAction δ κ ι α β))
    (hstep : s.step source batchSize webhookStreams (.source action) = some s') :
    ForwarderMatched posts batchSize webhookStreams (as ++ [.source action]) s' := by
  simp only [ForwarderFeed.step] at hstep
  split at hstep
  · next src hmain =>
    split at hstep
    · next src' hhandling hsource =>
      cases hstep
      simp only [SourceCalls, hmain] at hcalls
      obtain ⟨hok, hstands⟩ := posts.quiet (h.source src hmain) hhandling hcalls hsource
      refine h.quiet rfl (fun _ h' => by cases h'; exact hok) fun f hf => ?_
      rw [hmain]
      exact hstands f hf
    · cases hstep
  · cases hstep

/-- The handler's call, whether or not it takes effect and whether or not its reply is lost. -/
private theorem ForwarderMatched.xAdd (h : ForwarderMatched posts batchSize webhookStreams as s)
    {outcome : CallOutcome}
    (hstep : s.step source batchSize webhookStreams (.xAdd outcome) = some s') :
    ForwarderMatched posts batchSize webhookStreams (as ++ [.xAdd outcome]) s' := by
  simp only [ForwarderFeed.step] at hstep
  split at hstep
  · next src hmain =>
    split at hstep
    · next block src' hblock hsource =>
      cases hstep
      have hok := h.source src hmain
      -- the block is posted at the height of the forwarder
      have hpost : Feed.step batchSize webhookStreams
          { s.feed with forwarder := .subscribed block.height } (.forward block.data) =
            some { s.feed with
              blockStream := s.feed.blockStream.xadd ⟨block.data, block.height⟩
              forwarder := .subscribed (block.height + 1) } := rfl
      cases outcome with
      | ok =>
        obtain ⟨hok', hstands, hnext⟩ := posts.handled hok hblock hsource
        have hf : StandsFor posts s.main (.subscribed block.height) := by rw [hmain]; exact hstands
        refine ⟨fun _ h' => by cases h'; exact hok', fun f hf' => ?_⟩
        rcases hnext f hf' with rfl | rfl
        · exact h.extend [.forward block.data] hf (run_cons.2 ⟨_, hpost, rfl⟩) rfl
        · exact h.extend [.forward block.data, .forwarderCrash] hf
            (run_cons.2 ⟨_, hpost, rfl⟩) rfl
      | failed =>
        obtain ⟨hok', hstands, hnext⟩ := posts.failed hok hblock hsource
        have hf : StandsFor posts s.main (.subscribed block.height) := by rw [hmain]; exact hstands
        refine ⟨fun _ h' => by cases h'; exact hok', fun f hf' => ?_⟩
        rw [hnext f hf']
        exact h.extend [.forwarderCrash] hf rfl rfl
      | executedThenFailed =>
        obtain ⟨hok', hstands, hnext⟩ := posts.failed hok hblock hsource
        have hf : StandsFor posts s.main (.subscribed block.height) := by rw [hmain]; exact hstands
        refine ⟨fun _ h' => by cases h'; exact hok', fun f hf' => ?_⟩
        rw [hnext f hf']
        exact h.extend [.forward block.data, .forwarderCrash] hf
          (run_cons.2 ⟨_, hpost, rfl⟩) rfl
    · cases hstep
  · cases hstep

/-- A call of another process is the same call in `Feed`. -/
private theorem ForwarderMatched.other (h : ForwarderMatched posts batchSize webhookStreams as s)
    {action : FeedAction δ κ ι β}
    (hstep : s.step source batchSize webhookStreams (.other action) = some s') :
    ForwarderMatched posts batchSize webhookStreams (as ++ [.other action]) s' := by
  simp only [ForwarderFeed.step] at hstep
  split at hstep
  · cases hstep
  · next hother =>
    rw [Bool.not_eq_true] at hother
    split at hstep
    · cases hstep
    · next feed hfeed =>
      cases hstep
      refine ⟨h.source, fun f hf => ?_⟩
      exact h.extend [action] hf
        (run_cons.2 ⟨_, step_withForwarder hother hfeed f, rfl⟩)
        (by simp [ForwarderFeed.others, hother])

theorem forwarderMatched_step (h : ForwarderMatched posts batchSize webhookStreams as s)
    {a : ForwarderFeedAction δ κ ι α β} (hcalls : SourceCalls Q s a)
    (hstep : s.step source batchSize webhookStreams a = some s') :
    ForwarderMatched posts batchSize webhookStreams (as ++ [a]) s' := by
  cases a with
  | readCache => exact h.readCache hstep
  | readWrapped => exact h.readWrapped hstep
  | source action => exact h.sourceStep hcalls hstep
  | xAdd outcome => exact h.xAdd hstep
  | crash =>
    cases hstep
    exact h.quiet rfl (fun _ h' => by cases h') fun f hf => .inr hf
  | other action => exact h.other hstep

/-- Every run of a feed with a forwarder is a run of `Feed`, with the same stream, router, stores
    and shards at its end, and the same calls of the other processes in the same order. -/
theorem forwarderFeed_refines (posts : Posts source Q)
    {as : List (ForwarderFeedAction δ κ ι α β)} {s : ForwarderFeed δ κ ι T σ β}
    (hrun : run (ForwarderFeed.step source batchSize webhookStreams) .init as = some s)
    (hcalls : Meets (ForwarderFeed.step source batchSize webhookStreams) (SourceCalls Q)
      (.init : ForwarderFeed δ κ ι T σ β) as) :
    ∃ (bs : List (FeedAction δ κ ι β)) (f : Forwarder),
      run (Feed.step batchSize webhookStreams) .init bs = some { s.feed with forwarder := f } ∧
        bs.filter (fun b => ¬ ForwarderFeed.isForwarder b) =
          as.filterMap ForwarderFeed.others := by
  have hmatched : ForwarderMatched posts batchSize webhookStreams as s := by
    refine run_invariant_history_of_meets
      (P := fun as (s : ForwarderFeed δ κ ι T σ β) =>
        ForwarderMatched posts batchSize webhookStreams as s)
      ?_ hrun hcalls forwarderMatched_init
    intro as s a s' hstep hc h
    exact forwarderMatched_step h hc hstep
  obtain ⟨f, hf⟩ := exists_standsFor hmatched.source
  obtain ⟨bs, hbs, hothers⟩ := hmatched.matched f hf
  exact ⟨bs, f, hbs, hothers⟩

end Runs

end ForwarderRefinement

end BlockFeed.Spec
